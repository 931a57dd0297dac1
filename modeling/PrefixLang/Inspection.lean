import PrefixLang.Program
import PrefixLang.Token
/-!
Tokens and programs written out by their constructors, with names and nodes by number and numbers by
their bits, for a close look at what was read.
-/

namespace PrefixLang.Inspection

def list (items : List String) : String := "[" ++ ", ".intercalate items ++ "]"

def fields (items : List (String × String)) : String :=
  " \x7b " ++ ", ".intercalate (items.map fun (field, text) => field ++ ": " ++ text) ++ " \x7d"

def applied (constructor argument : String) : String := constructor ++ "(" ++ argument ++ ")"

def name (x : Name) : String := applied "Name" (Nat.repr x.index)
def bits (v : Binary64) : String := Nat.repr v.bits.toNat
def nodeId (id : NodeId) : String := applied "ExprId" (Nat.repr id)

def wrapper : Wrapper → String
  | .haley => "Haley"
  | .blueEgg => "BlueEgg000"
  | .nightmareSpeakerman => "NightmareSpeakerman"

def operator : Operator → String
  | .add => "Add"
  | .sub => "Sub"
  | .mul => "Mul"
  | .div => "Div"

def tokenKind : TokenKind Name → String
  | .number v => applied "Number" (bits v)
  | .string s => applied "String" (name s)
  | .identifier x => applied "Ident" (name x)
  | .letWord => "Let"
  | .printWord => "Print"
  | .wrapper w => wrapper w
  | .arrow => "FatArrow"
  | .operator .add => "Plus"
  | .operator .sub => "Minus"
  | .operator .mul => "Star"
  | .operator .div => "Slash"
  | .equals => "Eq"
  | .leftParen => "LParen"
  | .rightParen => "RParen"
  | .endOfInput => "Eof"

def token (t : Token Name) : String := tokenKind t.kind ++ " @ " ++ t.span.text

def tokens (ts : List (Token Name)) : String := list (ts.map token)

def nodeKind : NodeKind → String
  | .number v => applied "Number" (bits v)
  | .string s => applied "String" (name s)
  | .identifier x => applied "Ident" (name x)
  | .assign x value => "Assign" ++ fields [("name", name x), ("value", nodeId value)]
  | .print value => applied "Print" (nodeId value)
  | .wrap w value => "Wrapper" ++ fields [("keyword", wrapper w), ("value", nodeId value)]
  | .binary op left right =>
    "Binary" ++ fields [("op", operator op), ("left", nodeId left), ("right", nodeId right)]

def node (n : Node) : String := "Expr" ++ fields [("kind", nodeKind n.kind), ("span", n.span.text)]

def program (p : Program) : String :=
  let table := "ExprArena" ++ fields [("exprs", list (p.nodes.toList.map node))]
  "Program" ++ fields [("body", list (p.body.map nodeId)), ("arena", table)]

end PrefixLang.Inspection
