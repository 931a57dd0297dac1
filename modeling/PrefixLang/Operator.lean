/-!
The four arithmetic operators and the keywords that wrap one expression.
-/

namespace PrefixLang

inductive Operator where
  | add
  | sub
  | mul
  | div
  deriving DecidableEq, Repr

def Operator.symbol : Operator → String
  | .add => "+"
  | .sub => "-"
  | .mul => "*"
  | .div => "/"

/-- The keywords that mark the value of a statement as `print` does, each with its own word. -/
inductive Wrapper where
  | haley
  | blueEgg
  | nightmareSpeakerman
  deriving DecidableEq, Repr

def Wrapper.word : Wrapper → String
  | .haley => "Haley"
  | .blueEgg => "BlueEgg_000"
  | .nightmareSpeakerman => "Nightmare_speakerman"

end PrefixLang
