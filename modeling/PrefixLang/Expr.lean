import PrefixLang.Binary64.Basic
import PrefixLang.Name
import PrefixLang.Operator
import PrefixLang.Span
/-!
Expressions as trees. Statements are expressions too: every form may stand at every place.
-/

namespace PrefixLang

/-- An expression with the place of each of its parts. A tree that was not read from tokens may lack
parts, and `ρ` says why; what is read from tokens is an `Expr Empty`, a tree without holes. -/
inductive Expr (ρ : Type) where
  | number (value : Binary64) (span : Span)
  | string (contents : Name) (span : Span)
  | identifier (name : Name) (span : Span)
  | assign (name : Name) (value : Expr ρ) (span : Span)
  | print (value : Expr ρ) (span : Span)
  | wrap (keyword : Wrapper) (value : Expr ρ) (span : Span)
  | binary (op : Operator) (left right : Expr ρ) (span : Span)
  | hole (reason : ρ)
  deriving DecidableEq

abbrev Forest := List (Expr Empty)

namespace Expr

variable {ρ : Type}

def span : Expr ρ → Span
  | number _ s | string _ s | identifier _ s => s
  | assign _ _ s | print _ s | wrap _ _ s | binary _ _ _ s => s
  | hole _ => Span.nowhere

end Expr

end PrefixLang
