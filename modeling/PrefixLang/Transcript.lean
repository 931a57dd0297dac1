import PrefixLang.Session
/-!
A text that grows by lines, to which runs add what they show.
-/

namespace PrefixLang

structure Transcript where
  text : String
  deriving DecidableEq, Repr

namespace Transcript

def empty : Transcript := ⟨""⟩

def printLine (transcript : Transcript) (line : String) : Transcript :=
  ⟨transcript.text ++ line ++ "\n"⟩

/-- Runs a source on its own and adds what it shows. A run that shows nothing adds no line, and
neither does one that fails. -/
def execute (transcript : Transcript) (format : Format) (source : String) :
    Except Failure Unit × Transcript :=
  match runSource format source with
  | .error failure => (.error failure, transcript)
  | .ok shown => (.ok (), if shown.isEmpty then transcript else transcript.printLine shown)

end Transcript

end PrefixLang
