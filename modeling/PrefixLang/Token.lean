import PrefixLang.Binary64.Basic
import PrefixLang.Name
import PrefixLang.Operator
import PrefixLang.Span
/-!
Tokens. Their texts are plain strings when a source is read, and names once a table has numbered
them.
-/

namespace PrefixLang

/-- What a token is, with `τ` for the contents of strings and identifiers. -/
inductive TokenKind (τ : Type) where
  | number (value : Binary64)
  | string (contents : τ)
  | identifier (name : τ)
  | letWord
  | printWord
  | wrapper (keyword : Wrapper)
  | arrow
  | operator (op : Operator)
  | equals
  | leftParen
  | rightParen
  | endOfInput
  deriving DecidableEq, Repr

structure Token (τ : Type) where
  kind : TokenKind τ
  span : Span
  deriving DecidableEq, Repr

namespace TokenKind

variable {τ : Type}

def displayName : TokenKind τ → String
  | .number _ => "number"
  | .string _ => "string"
  | .identifier _ => "identifier"
  | .letWord => "`let`"
  | .printWord => "`print`"
  | .wrapper w => "`" ++ w.word ++ "`"
  | .arrow => "`=>`"
  | .operator op => "`" ++ op.symbol ++ "`"
  | .equals => "`=`"
  | .leftParen => "`(`"
  | .rightParen => "`)`"
  | .endOfInput => "end of input"

def isEnd : TokenKind τ → Bool
  | .endOfInput => true
  | _ => false

/-- Names the contents of a string or identifier; the other kinds leave the table alone. -/
def intern (names : NameTable) : TokenKind String → TokenKind Name × NameTable
  | .number v => (.number v, names)
  | .string s => let (name, names) := names.intern s; (.string name, names)
  | .identifier s => let (name, names) := names.intern s; (.identifier name, names)
  | .letWord => (.letWord, names)
  | .printWord => (.printWord, names)
  | .wrapper w => (.wrapper w, names)
  | .arrow => (.arrow, names)
  | .operator op => (.operator op, names)
  | .equals => (.equals, names)
  | .leftParen => (.leftParen, names)
  | .rightParen => (.rightParen, names)
  | .endOfInput => (.endOfInput, names)

end TokenKind

def Token.internAll (names : NameTable) (tokens : List (Token String)) :
    List (Token Name) × NameTable :=
  let step (acc : Array (Token Name) × NameTable) (token : Token String) :=
    let (kind, names) := token.kind.intern acc.2
    (acc.1.push ⟨kind, token.span⟩, names)
  let (named, names) := tokens.foldl step (#[], names)
  (named.toList, names)

end PrefixLang
