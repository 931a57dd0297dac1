import PrefixLang.Expr
/-!
Programs as tables of nodes that refer to each other by number. A table may be anything: nodes may
be shared, and numbers may lead nowhere. `Program.unfold` writes a table out as trees.
-/

namespace PrefixLang

abbrev NodeId := Nat

inductive NodeKind where
  | number (value : Binary64)
  | string (contents : Name)
  | identifier (name : Name)
  | assign (name : Name) (value : NodeId)
  | print (value : NodeId)
  | wrap (keyword : Wrapper) (value : NodeId)
  | binary (op : Operator) (left right : NodeId)
  deriving DecidableEq, Repr

namespace NodeKind

def children : NodeKind → List NodeId
  | number _ | string _ | identifier _ => []
  | assign _ value | print value | wrap _ value => [value]
  | binary _ left right => [left, right]

end NodeKind

structure Node where
  kind : NodeKind
  span : Span
  deriving DecidableEq, Repr

structure Program where
  nodes : Array Node
  body : List NodeId
  deriving DecidableEq, Repr

namespace Program

/-- Why a number leads to no tree: there is no such node, or following the numbers never ends. -/
inductive Fault where
  | missing (id : NodeId)
  | endless
  deriving DecidableEq, Repr

def Fault.message (size : Nat) : Fault → String
  | .missing id =>
    "index out of bounds: the len is " ++ Nat.repr size ++ " but the index is " ++ Nat.repr id
  | .endless => "the nodes refer to each other without end"

def get (p : Program) (id : NodeId) : Except Fault Node :=
  match p.nodes[id]? with
  | some node => .ok node
  | none => .error (.missing id)

theorem get_eq_ok {p : Program} {id : NodeId} {node : Node} :
    p.get id = .ok node ↔ p.nodes[id]? = some node := by
  rw [get]
  cases p.nodes[id]? <;> simp

/-- Every child is either in front of its node or no node at all. -/
def Backward (p : Program) : Prop :=
  ∀ i, ∀ h : i < p.nodes.size, ∀ c ∈ p.nodes[i].kind.children, c < i ∨ p.nodes.size ≤ c

structure Descending (p : Program) : Prop where
  children : ∀ i, ∀ h : i < p.nodes.size, ∀ c ∈ p.nodes[i].kind.children, c < i
  body : ∀ i ∈ p.body, i < p.nodes.size

def treeOf (child : NodeId → Expr Fault) : Node → Expr Fault
  | ⟨.number v, s⟩ => .number v s
  | ⟨.string t, s⟩ => .string t s
  | ⟨.identifier x, s⟩ => .identifier x s
  | ⟨.assign x e, s⟩ => .assign x (child e) s
  | ⟨.print e, s⟩ => .print (child e) s
  | ⟨.wrap w e, s⟩ => .wrap w (child e) s
  | ⟨.binary op l r, s⟩ => .binary op (child l) (child r) s

/-- The tree at a number, of which as many levels are built as the depth says. -/
def treeAt (p : Program) : Nat → NodeId → Expr Fault
  | 0, id =>
    match p.get id with
    | .ok _ => .hole .endless
    | .error fault => .hole fault
  | depth + 1, id =>
    match p.get id with
    | .ok node => treeOf (p.treeAt depth) node
    | .error fault => .hole fault

/-- The statements as trees. A path with more levels than there are nodes comes to a node twice. -/
def unfold (p : Program) : List (Expr Fault) := p.body.map (p.treeAt p.nodes.size)

end Program

end PrefixLang
