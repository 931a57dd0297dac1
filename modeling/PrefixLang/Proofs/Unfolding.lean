import PrefixLang.Program.Layout
import Mathlib.Data.List.Forall2
/-!
The trees that a node table stands for. `Unfolds` follows the numbers of a table as far as they
lead; `unfolds_unfold` says that this is how a table is written out as trees, shared nodes included,
as long as every node refers to nodes before it or to none.
-/

namespace PrefixLang

namespace Expr

variable {ρ σ : Type}

/-- A tree and all trees in it, each after those that it contains. -/
def subtrees : Expr ρ → List (Expr ρ)
  | assign x e s => e.subtrees ++ [assign x e s]
  | print e s => e.subtrees ++ [print e s]
  | wrap w e s => e.subtrees ++ [wrap w e s]
  | binary op l r s => l.subtrees ++ (r.subtrees ++ [binary op l r s])
  | e => [e]

@[simp] theorem length_subtrees (e : Expr ρ) : e.subtrees.length = e.nodeCount := by
  induction e with
  | binary op l r s ihl ihr => simp [subtrees, nodeCount, ihl, ihr]; omega
  | assign x e s ih | print e s ih | wrap w e s ih => simp [subtrees, nodeCount, ih]
  | _ => rfl

theorem getLast?_subtrees (e : Expr ρ) : e.subtrees.getLast? = some e := by
  cases e <;> simp [subtrees]

theorem mem_subtrees_self (e : Expr ρ) : e ∈ e.subtrees :=
  List.mem_of_getLast? e.getLast?_subtrees

def holes : Expr ρ → List ρ
  | number _ _ | string _ _ | identifier _ _ => []
  | assign _ e _ | print e _ | wrap _ e _ => e.holes
  | binary _ l r _ => l.holes ++ r.holes
  | hole reason => [reason]

end Expr

namespace Program

/-- The tree at a number of a table. A number without a node stands for a hole. -/
inductive Unfolds (p : Program) : ℕ → Expr Fault → Prop where
  | number {i v s} : p.nodes[i]? = some ⟨.number v, s⟩ → Unfolds p i (.number v s)
  | string {i t s} : p.nodes[i]? = some ⟨.string t, s⟩ → Unfolds p i (.string t s)
  | identifier {i x s} : p.nodes[i]? = some ⟨.identifier x, s⟩ → Unfolds p i (.identifier x s)
  | assign {i x c s e} : p.nodes[i]? = some ⟨.assign x c, s⟩ → Unfolds p c e →
      Unfolds p i (.assign x e s)
  | print {i c s e} : p.nodes[i]? = some ⟨.print c, s⟩ → Unfolds p c e → Unfolds p i (.print e s)
  | wrap {i w c s e} : p.nodes[i]? = some ⟨.wrap w c, s⟩ → Unfolds p c e →
      Unfolds p i (.wrap w e s)
  | binary {i op c d s l r} : p.nodes[i]? = some ⟨.binary op c d, s⟩ → Unfolds p c l →
      Unfolds p d r → Unfolds p i (.binary op l r s)
  | missing {i} : p.nodes[i]? = none → Unfolds p i (.hole (.missing i))

variable {p : Program} {i : ℕ} {node : Node} {t u : Expr Fault}

theorem Unfolds.node_cases (h : Unfolds p i t) :
    match p.nodes[i]? with
    | some ⟨.number v, s⟩ => t = .number v s
    | some ⟨.string x, s⟩ => t = .string x s
    | some ⟨.identifier x, s⟩ => t = .identifier x s
    | some ⟨.assign x c, s⟩ => ∃ e, t = .assign x e s ∧ Unfolds p c e
    | some ⟨.print c, s⟩ => ∃ e, t = .print e s ∧ Unfolds p c e
    | some ⟨.wrap w c, s⟩ => ∃ e, t = .wrap w e s ∧ Unfolds p c e
    | some ⟨.binary op c d, s⟩ => ∃ l r, t = .binary op l r s ∧ Unfolds p c l ∧ Unfolds p d r
    | none => t = .hole (.missing i) := by
  cases h with
  | number hn | string hn | identifier hn | missing hn => rw [hn]
  | assign hn he | print hn he | wrap hn he => rw [hn]; exact ⟨_, rfl, he⟩
  | binary hn hl hr => rw [hn]; exact ⟨_, _, rfl, hl, hr⟩

theorem Unfolds.unique (h : Unfolds p i t) (k : Unfolds p i u) : u = t := by
  induction h generalizing u with
  | number hn | string hn | identifier hn | missing hn =>
    have hk := k.node_cases
    rwa [hn] at hk
  | assign hn _ ih | print hn _ ih | wrap hn _ ih =>
    have hk := k.node_cases
    rw [hn] at hk
    obtain ⟨e, rfl, he⟩ := hk
    rw [ih he]
  | binary hn _ _ ihl ihr =>
    have hk := k.node_cases
    rw [hn] at hk
    obtain ⟨l, r, rfl, hl, hr⟩ := hk
    rw [ihl hl, ihr hr]

theorem Unfolds.of_mem_subtrees (h : Unfolds p i t) (hu : u ∈ t.subtrees) :
    ∃ j, Unfolds p j u := by
  induction h with
  | number hn | string hn | identifier hn | missing hn =>
    obtain rfl := List.mem_singleton.1 hu
    exact ⟨_, by constructor; exact hn⟩
  | assign hn he ih | print hn he ih | wrap hn he ih =>
    rcases List.mem_append.1 hu with hu | hu
    · exact ih hu
    · obtain rfl := List.mem_singleton.1 hu
      exact ⟨_, by constructor; exact hn; exact he⟩
  | binary hn hl hr ihl ihr =>
    rcases List.mem_append.1 hu with hu | hu
    · exact ihl hu
    rcases List.mem_append.1 hu with hu | hu
    · exact ihr hu
    · obtain rfl := List.mem_singleton.1 hu
      exact ⟨_, .binary hn hl hr⟩

theorem unfolds_treeOf {child : NodeId → Expr Fault} (hn : p.nodes[i]? = some node)
    (hc : ∀ c ∈ node.kind.children, Unfolds p c (child c)) : Unfolds p i (treeOf child node) := by
  obtain ⟨kind, s⟩ := node
  cases kind with
  | number v => exact .number hn
  | string x => exact .string hn
  | identifier x => exact .identifier hn
  | assign x c => exact .assign hn (hc c List.mem_cons_self)
  | print c => exact .print hn (hc c List.mem_cons_self)
  | wrap w c => exact .wrap hn (hc c List.mem_cons_self)
  | binary op c d =>
    exact .binary hn (hc c List.mem_cons_self) (hc d (List.mem_cons_of_mem _ List.mem_cons_self))

/-- A path from a number goes down, so it is no longer than the number says. -/
theorem unfolds_treeAt (hp : p.Backward) {depth : ℕ} (hi : i < depth ∨ p.nodes.size ≤ i) :
    Unfolds p i (p.treeAt depth i) := by
  induction depth generalizing i with
  | zero =>
    have hn : p.nodes[i]? = none := Array.getElem?_eq_none (hi.resolve_left (Nat.not_lt_zero i))
    rw [treeAt, get, hn]
    exact .missing hn
  | succ depth ih =>
    rcases hn : p.nodes[i]? with _ | node
    · rw [treeAt, get, hn]
      exact .missing hn
    · obtain ⟨hlt, rfl⟩ := Array.getElem?_eq_some_iff.1 hn
      rw [treeAt_of_node hn]
      refine unfolds_treeOf hn fun c hc => ih ?_
      have hdepth := hi.resolve_right (Nat.not_le.2 hlt)
      rcases hp i hlt c hc with hc | hc
      · exact .inl (Nat.lt_of_lt_of_le hc (Nat.lt_succ_iff.1 hdepth))
      · exact .inr hc

theorem unfolds_unfold (h : p.Backward) : List.Forall₂ (Unfolds p) p.body p.unfold := by
  rw [unfold, List.forall₂_map_right_iff, List.forall₂_same]
  intro i _
  exact unfolds_treeAt h (Nat.lt_or_ge i _)

theorem exists_unfolds (h : p.Backward) (ht : t ∈ p.unfold) : ∃ i ∈ p.body, Unfolds p i t := by
  obtain ⟨k, hk, rfl⟩ := List.getElem_of_mem ht
  have hlen := (unfolds_unfold h).length_eq
  exact ⟨_, List.getElem_mem (hlen ▸ hk), (unfolds_unfold h).get _ hk⟩

theorem unfolds_unique {trees trees' : List (Expr Fault)} {ids : List ℕ}
    (h : List.Forall₂ (Unfolds p) ids trees) (k : List.Forall₂ (Unfolds p) ids trees') :
    trees' = trees := by
  induction h generalizing trees' with
  | nil => cases k; rfl
  | cons ht _ ih =>
    cases k with
    | cons hu hrest => rw [ht.unique hu, ih hrest]

theorem Descending.backward (h : p.Descending) : p.Backward :=
  fun i hi c hc => .inl (h.children i hi c hc)

theorem Descending.lt {c : ℕ} (h : p.Descending) (hn : p.nodes[i]? = some node)
    (hc : c ∈ node.kind.children) : c < i := by
  obtain ⟨hi, rfl⟩ := Array.getElem?_eq_some_iff.1 hn
  exact h.children i hi c hc

theorem Descending.holes_eq_nil (h : p.Descending) (hi : i < p.nodes.size) (ht : Unfolds p i t) :
    t.holes = [] := by
  induction ht with
  | number _ | string _ | identifier _ => rfl
  | missing hn => exact absurd hi (Nat.not_lt.2 (Array.getElem?_eq_none_iff.1 hn))
  | assign hn _ ih | print hn _ ih | wrap hn _ ih =>
    have hc := h.lt hn List.mem_cons_self
    exact ih (Nat.lt_trans hc hi)
  | binary hn _ _ ihl ihr =>
    have hc := h.lt hn List.mem_cons_self
    have hd := h.lt hn (List.mem_cons_of_mem _ List.mem_cons_self)
    rw [Expr.holes, ihl (Nat.lt_trans hc hi), ihr (Nat.lt_trans hd hi), List.append_nil]

theorem Descending.holes_unfold (h : p.Descending) : ∀ e ∈ p.unfold, e.holes = [] := by
  intro e he
  obtain ⟨i, hi, hunfolds⟩ := exists_unfolds h.backward he
  exact h.holes_eq_nil (h.body i hi) hunfolds

/-- Behind `base` nodes, every one of these refers to nodes in front of it only. -/
def ChildrenBefore (base : ℕ) : List Node → Prop
  | [] => True
  | node :: rest => (∀ c : ℕ, c ∈ node.kind.children → c < base) ∧ ChildrenBefore (base + 1) rest

theorem ChildrenBefore.append {base : ℕ} {nodes more : List Node} (h : ChildrenBefore base nodes)
    (hm : ChildrenBefore (base + nodes.length) more) : ChildrenBefore base (nodes ++ more) := by
  induction nodes generalizing base with
  | nil => simpa using hm
  | cons node rest ih =>
    refine ⟨h.1, ih h.2 ?_⟩
    rwa [List.length_cons, Nat.add_comm rest.length, ← Nat.add_assoc] at hm

theorem ChildrenBefore.lt {base i : ℕ} {nodes : List Node} {node : Node} {c : ℕ}
    (h : ChildrenBefore base nodes) (hi : nodes[i]? = some node) (hc : c ∈ node.kind.children) :
    c < base + i := by
  induction nodes generalizing base i with
  | nil => simp at hi
  | cons first rest ih =>
    rcases i with _ | i
    · obtain rfl : first = node := by simpa using hi
      exact h.1 c hc
    · have := ih h.2 (by simpa using hi)
      omega

theorem childrenBefore_layout (base : ℕ) (e : Expr Empty) :
    ChildrenBefore base (layout base e) := by
  induction e generalizing base with
  | number v s | string t s | identifier x s => simp [layout, ChildrenBefore, NodeKind.children]
  | assign x e s ih | print e s ih | wrap w e s ih =>
    have := e.nodeCount_pos
    refine (ih base).append ?_
    simp [ChildrenBefore, NodeKind.children]
    omega
  | binary op l r s ihl ihr =>
    have hl := l.nodeCount_pos
    have hr := r.nodeCount_pos
    refine (ihl base).append ?_
    rw [length_layout]
    refine (ihr _).append ?_
    simp [ChildrenBefore, NodeKind.children]
    omega
  | hole reason => exact reason.elim

theorem childrenBefore_layoutAll (base : ℕ) (forest : Forest) :
    ChildrenBefore base (layoutAll base forest) := by
  induction forest generalizing base with
  | nil => trivial
  | cons e rest ih =>
    refine (childrenBefore_layout base e).append ?_
    rw [length_layout]
    exact ih _

theorem lt_of_mem_roots {base i : ℕ} {forest : Forest} (h : i ∈ roots base forest) :
    i < base + (layoutAll base forest).length := by
  induction forest generalizing base with
  | nil => cases h
  | cons e rest ih =>
    have hpos := e.nodeCount_pos
    rw [layoutAll, List.length_append, length_layout]
    rcases List.mem_cons.1 h with rfl | h
    · omega
    · have := ih h
      omega

theorem descending_ofForest (forest : Forest) : (ofForest forest).Descending := by
  constructor
  · intro i hi c hc
    have hn : (layoutAll 0 forest)[i]? = some (ofForest forest).nodes[i] := by
      rw [← List.getElem?_toArray]
      exact Array.getElem?_eq_getElem hi
    have hlt := (childrenBefore_layoutAll 0 forest).lt hn hc
    rwa [Nat.zero_add] at hlt
  · intro i hi
    have hlt := lt_of_mem_roots hi
    rwa [Nat.zero_add] at hlt

end Program

end PrefixLang
