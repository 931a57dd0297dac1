/-!
Codes of errors. Their first digit names the phase: 0 for reading lexemes, 1 for reading
expressions, 6 for evaluation.
-/

namespace PrefixLang

inductive ErrorCode where
  | unterminatedString
  | invalidCharacter
  | unexpectedToken
  | unexpectedEnd
  | unclosedParen
  | reservedToken
  | undefinedIdentifier
  | notNumeric
  | divisionByZero
  deriving DecidableEq, Repr

namespace ErrorCode

def all : List ErrorCode :=
  [unterminatedString, invalidCharacter, unexpectedToken, unexpectedEnd, unclosedParen,
    reservedToken, undefinedIdentifier, notNumeric, divisionByZero]

def text : ErrorCode → String
  | unterminatedString => "E0001"
  | invalidCharacter => "E0002"
  | unexpectedToken => "E1001"
  | unexpectedEnd => "E1002"
  | unclosedParen => "E1003"
  | reservedToken => "E1004"
  | undefinedIdentifier => "E6001"
  | notNumeric => "E6002"
  | divisionByZero => "E6003"

def description : ErrorCode → String
  | unterminatedString => "unterminated string literal"
  | invalidCharacter => "invalid character"
  | unexpectedToken => "unexpected token"
  | unexpectedEnd => "unexpected end of input"
  | unclosedParen => "unclosed parenthesis"
  | reservedToken => "reserved token"
  | undefinedIdentifier => "undefined identifier"
  | notNumeric => "operand is not numeric"
  | divisionByZero => "division by zero"

/-- The code of a text, in which small letters count as capitals. No letter outside ASCII has a
capital form that occurs in a code, so raising the ASCII letters is enough. -/
def ofText? (s : String) : Option ErrorCode :=
  all.find? fun code => code.text.toList = s.toList.map Char.toUpper

def listing : String :=
  String.join (all.map fun code => "  " ++ code.text ++ "  " ++ code.description ++ "\n")

end ErrorCode

end PrefixLang
