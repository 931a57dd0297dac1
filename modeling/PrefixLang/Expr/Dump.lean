import PrefixLang.Decimal.Notation
import PrefixLang.Expr
/-!
Trees as nested lists in parentheses, one statement to a line.
-/

namespace PrefixLang.Expr

variable {ρ : Type}

/-- The list of a tree, unless something is missing; of several holes the first one counts. -/
def text (names : NameTable) : Expr ρ → Except ρ String
  | .number v _ => .ok ("(number " ++ v.listingText ++ ")")
  | .string s _ => .ok ("(string \"" ++ names.lookup s ++ "\")")
  | .identifier x _ => .ok ("(ident " ++ names.lookup x ++ ")")
  | .assign x e _ => do
    let value ← e.text names
    return "(assign " ++ names.lookup x ++ " " ++ value ++ ")"
  | .print e _ => do
    let value ← e.text names
    return "(print " ++ value ++ ")"
  | .wrap w e _ => do
    let value ← e.text names
    return "(wrapper " ++ w.word ++ " " ++ value ++ ")"
  | .binary op l r _ => do
    let left ← l.text names
    let right ← r.text names
    return "(binary " ++ op.symbol ++ " " ++ left ++ " " ++ right ++ ")"
  | .hole reason => .error reason

def dump (names : NameTable) : List (Expr ρ) → Except ρ String
  | [] => .ok ""
  | [e] => e.text names
  | e :: rest => do
    let first ← e.text names
    let more ← dump names rest
    return first ++ "\n" ++ more

end PrefixLang.Expr
