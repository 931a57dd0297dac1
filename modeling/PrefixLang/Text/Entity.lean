/-!
Text inside markup: the three characters that markup gives a meaning are written as entities.
-/

namespace PrefixLang.Text.Entity

def encodeChar : Char → List Char
  | '&' => "&amp;".toList
  | '<' => "&lt;".toList
  | '>' => "&gt;".toList
  | c => [c]

def encode (s : List Char) : List Char := s.flatMap encodeChar

def escape (s : String) : String := String.ofList (encode s.toList)

def substitute (c : Char) (text s : List Char) : List Char :=
  s.flatMap fun d => if d = c then text else [d]

/-- Writes the entities one kind after the other. The ampersand comes first, since the other passes
bring in new ones. -/
def encodeInPasses (s : List Char) : List Char :=
  substitute '>' "&gt;".toList (substitute '<' "&lt;".toList (substitute '&' "&amp;".toList s))

end PrefixLang.Text.Entity
