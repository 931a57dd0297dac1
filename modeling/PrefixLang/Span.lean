/-!
Ranges of byte offsets into a source.
-/

namespace PrefixLang

/-- The bytes of a source from `start` up to, but without, `stop`. -/
structure Span where
  start : Nat
  stop : Nat
  deriving DecidableEq, Repr

namespace Span

/-- The largest offset that a span may hold when it is made from a range. -/
def maxOffset : Nat := 4294967295

inductive RangeError where
  | startTooLarge (offset : Nat)
  | stopTooLarge (offset : Nat)
  deriving DecidableEq, Repr

def RangeError.message : RangeError → String
  | .startTooLarge n => "span start " ++ Nat.repr n ++ " exceeds u32::MAX"
  | .stopTooLarge n => "span end " ++ Nat.repr n ++ " exceeds u32::MAX"

def ofRange (start stop : Nat) : Except RangeError Span :=
  if maxOffset < start then .error (.startTooLarge start)
  else if maxOffset < stop then .error (.stopTooLarge stop)
  else .ok ⟨start, stop⟩

def point (offset : Nat) : Span := ⟨offset, offset⟩

def nowhere : Span := point 0

def merge (s t : Span) : Span := ⟨min s.start t.start, max s.stop t.stop⟩

def text (s : Span) : String := Nat.repr s.start ++ ".." ++ Nat.repr s.stop

end Span

end PrefixLang
