import PrefixLang.Decimal.Notation
import PrefixLang.Evaluation
import PrefixLang.Text.Entity
/-!
What statements show, as text: plainly, or as markup in which numbers, strings and keywords are told
apart and no text of the program is taken for a tag.
-/

namespace PrefixLang

inductive Format where
  | html
  | plain
  deriving DecidableEq, Repr

namespace Format

def text : Format → String
  | html => "html"
  | plain => "plain"

def separator : Format → String
  | html => "<br>"
  | plain => "\n"

def tag (className content : String) : String :=
  "<span class=\"" ++ className ++ "\">" ++ content ++ "</span>"

def number (format : Format) (n : Binary64) : String :=
  match format with
  | html => tag "number" n.resultText
  | plain => n.resultText

def string (format : Format) (s : String) : String :=
  match format with
  | html => tag "string" ("\"" ++ Text.Entity.escape s ++ "\"")
  | plain => "\"" ++ s ++ "\""

def keyword (format : Format) (word : String) : String :=
  match format with
  | html => tag "keyword" (Text.Entity.escape word)
  | plain => word

def value (format : Format) : Value → String
  | .number n => format.number n
  | .string s => format.string s
  | .empty => ""

def output (format : Format) : Output → String
  | .empty => ""
  | .value v => format.value v
  | .keyword word v => format.keyword word ++ " " ++ format.value v

/-- All outputs. One that shows nothing still has its place between separators. -/
def render (format : Format) (outputs : List Output) : String :=
  format.separator.intercalate (outputs.map format.output)

end Format

end PrefixLang
