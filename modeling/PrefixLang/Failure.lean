import PrefixLang.Diagnostic
import PrefixLang.Evaluation
import PrefixLang.Forest
import PrefixLang.Lexeme
/-!
Everything that can go wrong with a source, and how it is told.
-/

namespace PrefixLang

namespace LexError

def message (e : LexError) : String :=
  match e.kind with
  | .unterminatedString => "unterminated string literal"
  | .invalidCharacter found => "invalid character `" ++ String.singleton found ++ "`"

def code (e : LexError) : ErrorCode :=
  match e.kind with
  | .unterminatedString => .unterminatedString
  | .invalidCharacter _ => .invalidCharacter

/-- A string that never ends is labelled where it starts. -/
def diagnostic (e : LexError) : Diagnostic :=
  let d := Diagnostic.ofMessage e.code e.message
  match e.kind with
  | .unterminatedString =>
    (d.withLabel (Span.point e.span.start) "string starts here").withNote
      "strings may span lines; the closing `\"` was never found"
  | .invalidCharacter _ =>
    (d.withLabel e.span "not part of any token").withNote
      "operators are `+ - * /` and numbers are whole digits only"

end LexError

namespace ParseError

def message (e : ParseError) : String :=
  match e.kind with
  | .unexpectedToken found => "unexpected token " ++ found
  | .unexpectedEnd => "unexpected end of input, expected an expression"
  | .unclosedParen found _ => "unclosed parenthesis, expected `)` but found " ++ found
  | .reservedToken found => "reserved token " ++ found ++ " cannot be used here"

def code (e : ParseError) : ErrorCode :=
  match e.kind with
  | .unexpectedToken _ => .unexpectedToken
  | .unexpectedEnd => .unexpectedEnd
  | .unclosedParen _ _ => .unclosedParen
  | .reservedToken _ => .reservedToken

def diagnostic (e : ParseError) : Diagnostic :=
  let d := Diagnostic.ofMessage e.code e.message
  match e.kind with
  | .unexpectedToken _ =>
    (d.withLabel e.span "expected an expression").withNote
      "an expression is a number, string, identifier, `( expr )` or `op expr expr`"
  | .unexpectedEnd =>
    (d.withLabel e.span "input ends here").withNote
      "operators take two operands and `print` takes one"
  | .unclosedParen _ foundSpan =>
    ((d.withLabel e.span "this `(` is never closed").withSecondaryLabel foundSpan
      "expected `)` here").withNote "parentheses hold exactly one expression"
  | .reservedToken _ =>
    (d.withLabel e.span "reserved").withNote "bind variables with `name = value`"

end ParseError

def withArticle (noun : String) : String :=
  let startsWithVowel := noun.toList.head?.any fun c => c ∈ ['a', 'e', 'i', 'o', 'u']
  (if startsWithVowel then "an " else "a ") ++ noun

def OperandError.message : OperandError → String
  | .notNumeric op side found =>
    "operator `" ++ op.symbol ++ "` expects numbers, but its " ++ side.word ++ " operand is "
      ++ withArticle found
  | .divisionByZero => "division by zero"

namespace EvalError

def message (e : EvalError) : String :=
  match e.kind with
  | .undefinedIdentifier name => "undefined identifier `" ++ name ++ "`"
  | .operand e => e.message

def code (e : EvalError) : ErrorCode :=
  match e.kind with
  | .undefinedIdentifier _ => .undefinedIdentifier
  | .operand (.notNumeric _ _ _) => .notNumeric
  | .operand .divisionByZero => .divisionByZero

def diagnostic (e : EvalError) : Diagnostic :=
  let d := Diagnostic.ofMessage e.code e.message
  match e.kind with
  | .undefinedIdentifier name =>
    (d.withLabel e.span "not bound yet").withNote ("assign it first, e.g. `" ++ name ++ " = 0`")
  | .operand (.notNumeric _ _ found) => d.withLabel e.span ("this is " ++ withArticle found)
  | .operand .divisionByZero => d.withLabel e.span "divisor is zero"

end EvalError

inductive Failure where
  | lex (e : LexError)
  | parse (e : ParseError)
  | eval (e : EvalError)
  deriving DecidableEq, Repr

namespace Failure

def message : Failure → String
  | lex e => e.message
  | parse e => e.message
  | eval e => e.message

def span : Failure → Span
  | lex e => e.span
  | parse e => e.span
  | eval e => e.span

def code : Failure → ErrorCode
  | lex e => e.code
  | parse e => e.code
  | eval e => e.code

def phase : Failure → String
  | lex _ => "lex"
  | parse _ => "parse"
  | eval _ => "runtime"

def diagnostic : Failure → Diagnostic
  | lex e => e.diagnostic
  | parse e => e.diagnostic
  | eval e => e.diagnostic

end Failure

end PrefixLang
