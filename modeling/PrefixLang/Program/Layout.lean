import PrefixLang.Program
/-!
The table of a forest: its nodes in the order in which they are complete, so that those of a tree
are a stretch of the table that ends with its root. `unfold_ofForest` says that nothing is lost.
-/

namespace PrefixLang

namespace Expr

variable {ρ σ : Type}

def mapHoles (f : ρ → σ) : Expr ρ → Expr σ
  | number v s => number v s
  | string t s => string t s
  | identifier x s => identifier x s
  | assign x e s => assign x (e.mapHoles f) s
  | print e s => print (e.mapHoles f) s
  | wrap w e s => wrap w (e.mapHoles f) s
  | binary op l r s => binary op (l.mapHoles f) (r.mapHoles f) s
  | hole reason => hole (f reason)

def intact (e : Expr Empty) : Expr ρ := e.mapHoles Empty.elim

def nodeCount : Expr ρ → Nat
  | number _ _ | string _ _ | identifier _ _ | hole _ => 1
  | assign _ e _ | print e _ | wrap _ e _ => e.nodeCount + 1
  | binary _ l r _ => l.nodeCount + r.nodeCount + 1

theorem nodeCount_pos (e : Expr ρ) : 0 < e.nodeCount := by
  cases e <;> simp [nodeCount]

end Expr

namespace Program

/-- The nodes of a tree in a table that has `base` nodes before them. -/
def layout (base : Nat) : Expr Empty → List Node
  | .number v s => [⟨.number v, s⟩]
  | .string t s => [⟨.string t, s⟩]
  | .identifier x s => [⟨.identifier x, s⟩]
  | .assign x e s => layout base e ++ [⟨.assign x (base + e.nodeCount - 1), s⟩]
  | .print e s => layout base e ++ [⟨.print (base + e.nodeCount - 1), s⟩]
  | .wrap w e s => layout base e ++ [⟨.wrap w (base + e.nodeCount - 1), s⟩]
  | .binary op l r s => layout base l ++ (layout (base + l.nodeCount) r ++
      [⟨.binary op (base + l.nodeCount - 1) (base + l.nodeCount + r.nodeCount - 1), s⟩])

def layoutAll (base : Nat) : Forest → List Node
  | [] => []
  | e :: rest => layout base e ++ layoutAll (base + e.nodeCount) rest

def roots (base : Nat) : Forest → List NodeId
  | [] => []
  | e :: rest => (base + e.nodeCount - 1) :: roots (base + e.nodeCount) rest

def ofForest (forest : Forest) : Program := ⟨(layoutAll 0 forest).toArray, roots 0 forest⟩

@[simp] theorem length_layout (base : Nat) (e : Expr Empty) :
    (layout base e).length = e.nodeCount := by
  induction e generalizing base with
  | binary op l r s ihl ihr => simp [layout, Expr.nodeCount, ihl, ihr]; omega
  | assign x e s ih | print e s ih | wrap w e s ih => simp [layout, Expr.nodeCount, ih]
  | hole reason => exact reason.elim
  | _ => rfl

/-- The table has these nodes from a number on. -/
def Holds (p : Program) (base : Nat) (nodes : List Node) : Prop :=
  nodes <+: p.nodes.toList.drop base

variable {p : Program} {base depth : Nat} {e : Expr Empty} {forest : Forest}

theorem Holds.append {nodes more : List Node} (h : p.Holds base (nodes ++ more)) :
    p.Holds base nodes ∧ p.Holds (base + nodes.length) more := by
  refine ⟨(List.prefix_append _ _).trans h, ?_⟩
  obtain ⟨rest, hrest⟩ := h
  refine ⟨rest, ?_⟩
  rw [← List.drop_drop, ← hrest, List.append_assoc, List.drop_left]

theorem Holds.node {node : Node} (h : p.Holds base [node]) : p.nodes[base]? = some node := by
  obtain ⟨rest, hrest⟩ := h
  have hget : (p.nodes.toList.drop base)[0]? = some node := by rw [← hrest]; rfl
  rwa [List.getElem?_drop, Nat.add_zero, Array.getElem?_toList] at hget

theorem Holds.root {node : Node} (h : p.Holds base (layout base e ++ [node])) :
    p.Holds base (layout base e) ∧ p.nodes[base + e.nodeCount]? = some node := by
  obtain ⟨htree, hroot⟩ := h.append
  rw [length_layout] at hroot
  exact ⟨htree, hroot.node⟩

theorem Holds.binary {op : Operator} {l r : Expr Empty} {s : Span}
    (h : p.Holds base (layout base (.binary op l r s))) :
    p.Holds base (layout base l) ∧ p.Holds (base + l.nodeCount) (layout (base + l.nodeCount) r) ∧
      p.nodes[base + l.nodeCount + r.nodeCount]? =
        some ⟨.binary op (base + l.nodeCount - 1) (base + l.nodeCount + r.nodeCount - 1), s⟩ := by
  obtain ⟨hleft, hrest⟩ := h.append
  rw [length_layout] at hrest
  exact ⟨hleft, hrest.root⟩

theorem treeAt_of_node {id : NodeId} {node : Node} (h : p.nodes[id]? = some node) (depth : Nat) :
    p.treeAt (depth + 1) id = treeOf (p.treeAt depth) node := by
  rw [treeAt, get_eq_ok.2 h]

theorem treeAt_root (h : p.Holds base (layout base e)) (hdepth : e.nodeCount ≤ depth) :
    p.treeAt depth (base + e.nodeCount - 1) = e.intact := by
  obtain ⟨depth, rfl⟩ := Nat.exists_eq_add_of_lt (Nat.lt_of_lt_of_le e.nodeCount_pos hdepth)
  rw [Nat.zero_add] at hdepth ⊢
  induction e generalizing base depth with
  | number v s | string t s | identifier x s => exact treeAt_of_node h.node depth
  | assign x e s ih | print e s ih | wrap w e s ih =>
    obtain ⟨htree, hroot⟩ := h.root
    have hpos := e.nodeCount_pos
    rw [Expr.nodeCount] at hdepth
    obtain ⟨depth, rfl⟩ : ∃ d, depth = d + 1 := ⟨depth - 1, by omega⟩
    rw [Expr.nodeCount, ← Nat.add_assoc, Nat.add_sub_cancel, treeAt_of_node hroot, treeOf,
      ih htree depth (by omega)]
    rfl
  | binary op l r s ihl ihr =>
    obtain ⟨hleft, hright, hroot⟩ := h.binary
    have hl := l.nodeCount_pos
    have hr := r.nodeCount_pos
    rw [Expr.nodeCount] at hdepth
    obtain ⟨depth, rfl⟩ : ∃ d, depth = d + 1 := ⟨depth - 1, by omega⟩
    rw [Expr.nodeCount, ← Nat.add_assoc, ← Nat.add_assoc, Nat.add_sub_cancel,
      treeAt_of_node hroot, treeOf, ihl hleft depth (by omega), ihr hright depth (by omega)]
    rfl
  | hole reason => exact reason.elim

theorem treeAt_roots (h : p.Holds base (layoutAll base forest))
    (hdepth : (layoutAll base forest).length ≤ depth) :
    (roots base forest).map (p.treeAt depth) = forest.map Expr.intact := by
  induction forest generalizing base with
  | nil => rfl
  | cons e rest ih =>
    obtain ⟨htree, hrest⟩ := h.append
    rw [length_layout] at hrest
    rw [layoutAll, List.length_append, length_layout] at hdepth
    rw [roots, List.map_cons, List.map_cons, treeAt_root htree (by omega), ih hrest (by omega)]

theorem holds_ofForest (forest : Forest) : (ofForest forest).Holds 0 (layoutAll 0 forest) :=
  List.prefix_rfl

theorem unfold_ofForest (forest : Forest) : (ofForest forest).unfold = forest.map Expr.intact :=
  treeAt_roots (holds_ofForest forest) (Nat.le_refl _)

end Program

end PrefixLang
