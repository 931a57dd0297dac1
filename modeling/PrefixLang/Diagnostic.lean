import PrefixLang.ErrorCode
import PrefixLang.Span
/-!
What is to be told about an error: a message, labels on places of the source, and notes.
-/

namespace PrefixLang

structure Label where
  span : Span
  message : String
  isPrimary : Bool
  deriving DecidableEq, Repr

structure Diagnostic where
  code : ErrorCode
  message : String
  labels : List Label
  notes : List String
  deriving DecidableEq, Repr

namespace Diagnostic

def ofMessage (code : ErrorCode) (message : String) : Diagnostic := ⟨code, message, [], []⟩

def withLabel (d : Diagnostic) (span : Span) (message : String) : Diagnostic :=
  { d with labels := d.labels ++ [⟨span, message, true⟩] }

def withSecondaryLabel (d : Diagnostic) (span : Span) (message : String) : Diagnostic :=
  { d with labels := d.labels ++ [⟨span, message, false⟩] }

def withNote (d : Diagnostic) (note : String) : Diagnostic := { d with notes := d.notes ++ [note] }

def primarySpan? (d : Diagnostic) : Option Span :=
  (d.labels.find? Label.isPrimary).map Label.span

/-- All of it in lines, for when the source is not at hand. -/
def text (d : Diagnostic) : String :=
  let label (l : Label) :=
    "\n  " ++ (if l.isPrimary then "-->" else "   ") ++ " " ++ l.span.text ++ ": " ++ l.message
  "error [" ++ d.code.text ++ "]: " ++ d.message ++ String.join (d.labels.map label)
    ++ String.join (d.notes.map ("\n  = note: " ++ ·))

end Diagnostic

end PrefixLang
