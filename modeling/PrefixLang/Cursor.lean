import PrefixLang.Token
/-!
Reading tokens from left to right. What stands behind the first end of input is never read, and a
list without one reads as if it ended at offset zero.
-/

namespace PrefixLang

/-- The tokens still to be read, none of them an end of input, and where the input ends. -/
structure Cursor where
  ahead : List (Token Name)
  stop : Span
  deriving Repr

namespace Cursor

def ofTokens (tokens : List (Token Name)) : Cursor :=
  { ahead := tokens.takeWhile fun t => !t.kind.isEnd
    stop := ((tokens.find? fun t => t.kind.isEnd).map Token.span).getD Span.nowhere }

def endToken (cursor : Cursor) : Token Name := ⟨.endOfInput, cursor.stop⟩

def current (cursor : Cursor) : Token Name := cursor.ahead.head?.getD cursor.endToken

def atEnd (cursor : Cursor) : Bool := cursor.ahead.isEmpty

def check (cursor : Cursor) (kind : TokenKind Name) : Bool := cursor.current.kind = kind

/-- The current token, and the cursor behind it. The end of the input is never passed. -/
def advance (cursor : Cursor) : Token Name × Cursor :=
  (cursor.current, { cursor with ahead := cursor.ahead.tail })

end Cursor

end PrefixLang
