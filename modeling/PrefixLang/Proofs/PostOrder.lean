import PrefixLang.Proofs.NameTable
import PrefixLang.Proofs.Parsing
import PrefixLang.Proofs.Scanning
import PrefixLang.Proofs.Unfolding
import PrefixLang.Session
import Mathlib.Data.List.Nodup
/-!
The shape of the tables that sources have. Each tree is a stretch of nodes that ends with its root,
and each node is used at one place only. `parsed_tables_are_postorder` says so, and that every token
but `=` and parentheses is one node.
-/

namespace PrefixLang

/-- Whether a token has a node of its own. -/
def Token.hasNode (t : Token Name) : Bool := t.kind ∉ [.equals, .leftParen, .rightParen]

namespace Program

/-- The numbers in the tree at a number: the number itself, and those in the trees at its
children. -/
inductive Below (p : Program) : ℕ → ℕ → Prop where
  | root (i) : Below p i i
  | child {i c j node} : p.nodes[i]? = some node → c ∈ node.kind.children → Below p c j →
      Below p i j

/-- The numbers that stand in nodes, each as often as it stands there. -/
def operands (p : Program) : List ℕ := p.nodes.toList.flatMap fun node => node.kind.children

/-- A table in which each tree ends with its root, right behind the trees that it contains. -/
structure PostOrder (p : Program) : Prop where
  descending : p.Descending
  /-- A node is a statement once, or it is a child of one node at one position. -/
  once : ∀ i < p.nodes.size, p.body.count i + p.operands.count i = 1
  increasing : p.body.Pairwise fun i j : ℕ => i < j
  last : ∀ i : ℕ, i ∈ p.body.getLast? → i + 1 = p.nodes.size
  empty : p.body = [] → p.nodes = #[]
  contiguous : ∀ i < p.nodes.size, ∃ first ≤ i, ∀ j, p.Below i j ↔ first ≤ j ∧ j ≤ i
  adjacent : ∀ (i : ℕ) op (l r : ℕ) s, p.nodes[i]? = some ⟨.binary op l r, s⟩ → ∃ first ≤ l,
    (∀ j, p.Below l j ↔ first ≤ j ∧ j ≤ l) ∧ (∀ j, p.Below r j ↔ l + 1 ≤ j ∧ j ≤ r) ∧
      i = r + 1

variable {p : Program} {base i j : ℕ} {e : Expr Empty} {forest : Forest}

theorem below_iff_of_node {node : Node} (h : p.nodes[i]? = some node) :
    p.Below i j ↔ j = i ∨ ∃ c ∈ node.kind.children, p.Below c j := by
  constructor
  · intro hj
    cases hj with
    | root => exact .inl rfl
    | child hn hc hj =>
      obtain rfl := Option.some.inj (h.symm.trans hn)
      exact .inr ⟨_, hc, hj⟩
  · rintro (rfl | ⟨c, hc, hj⟩)
    · exact .root j
    · exact .child h hc hj

/-- A tree takes up the whole of its stretch, and nothing else. -/
theorem below_iff (h : p.Holds base (layout base e)) :
    p.Below (base + e.nodeCount - 1) j ↔ base ≤ j ∧ j ≤ base + e.nodeCount - 1 := by
  induction e generalizing base with
  | number v s | string t s | identifier x s =>
    have hbelow := below_iff_of_node (j := j) h.node
    simp only [NodeKind.children, List.not_mem_nil, false_and, exists_false, or_false] at hbelow
    rw [Expr.nodeCount, Nat.add_sub_cancel, hbelow]
    omega
  | assign x e s ih | print e s ih | wrap w e s ih =>
    obtain ⟨htree, hroot⟩ := h.root
    have hbelow := below_iff_of_node (j := j) hroot
    simp only [NodeKind.children, List.mem_singleton, exists_eq_left, ih htree] at hbelow
    have hpos := e.nodeCount_pos
    rw [Expr.nodeCount, ← Nat.add_assoc, Nat.add_sub_cancel, hbelow]
    omega
  | binary op l r s ihl ihr =>
    obtain ⟨hleft, hright, hroot⟩ := h.binary
    have hbelow := below_iff_of_node (j := j) hroot
    simp only [NodeKind.children, List.mem_cons, List.not_mem_nil, or_false, exists_eq_or_imp,
      exists_eq_left, ihl hleft, ihr hright] at hbelow
    have hl := l.nodeCount_pos
    have hr := r.nodeCount_pos
    rw [Expr.nodeCount, ← Nat.add_assoc, ← Nat.add_assoc, Nat.add_sub_cancel, hbelow]
    omega
  | hole reason => exact reason.elim

theorem exists_stretch (h : p.Holds base (layout base e)) (hle : base ≤ i)
    (hlt : i < base + e.nodeCount) :
    ∃ first, ∃ u ∈ e.subtrees, p.Holds first (layout first u) ∧ i + 1 = first + u.nodeCount := by
  induction e generalizing base with
  | number v s | string t s | identifier x s =>
    refine ⟨base, _, List.mem_cons_self, h, ?_⟩
    simp only [Expr.nodeCount] at hlt ⊢
    omega
  | assign x e s ih | print e s ih | wrap w e s ih =>
    by_cases hroot : i + 1 = base + e.nodeCount + 1
    · exact ⟨base, _, Expr.mem_subtrees_self _, h, hroot⟩
    · simp only [Expr.nodeCount] at hlt
      obtain ⟨first, u, hu, hstretch⟩ := ih h.root.1 hle (by omega)
      exact ⟨first, u, List.mem_append_left _ hu, hstretch⟩
  | binary op l r s ihl ihr =>
    obtain ⟨hleft, hright, -⟩ := h.binary
    simp only [Expr.nodeCount] at hlt
    by_cases hroot : i + 1 = base + (l.nodeCount + r.nodeCount + 1)
    · exact ⟨base, _, Expr.mem_subtrees_self _, h, hroot⟩
    · by_cases hmiddle : i < base + l.nodeCount
      · obtain ⟨first, u, hu, hstretch⟩ := ihl hleft hle hmiddle
        exact ⟨first, u, List.mem_append_left _ hu, hstretch⟩
      · obtain ⟨first, u, hu, hstretch⟩ := ihr hright (by omega) (by omega)
        exact ⟨first, u, List.mem_append_right _ (List.mem_append_left _ hu), hstretch⟩
  | hole reason => exact reason.elim

theorem exists_stretch_of_forest (h : p.Holds base (layoutAll base forest)) (hle : base ≤ i)
    (hlt : i < base + (layoutAll base forest).length) :
    ∃ tree ∈ forest, ∃ first, ∃ u ∈ tree.subtrees,
      p.Holds first (layout first u) ∧ i + 1 = first + u.nodeCount := by
  induction forest generalizing base with
  | nil => exact absurd hlt (Nat.not_lt.2 hle)
  | cons e rest ih =>
    obtain ⟨htree, hrest⟩ := h.append
    rw [length_layout] at hrest
    rw [layoutAll, List.length_append, length_layout] at hlt
    by_cases hfirst : i < base + e.nodeCount
    · exact ⟨e, List.mem_cons_self, exists_stretch htree hle hfirst⟩
    · obtain ⟨tree, htree, hstretch⟩ := ih hrest (by omega) (by omega)
      exact ⟨tree, List.mem_cons_of_mem _ htree, hstretch⟩

theorem perm_layout (base : ℕ) (e : Expr Empty) :
    (((layout base e).flatMap fun node => node.kind.children) ++ [base + e.nodeCount - 1]).Perm
      (List.range' base e.nodeCount) := by
  induction e generalizing base with
  | number v s | string t s | identifier x s => exact .refl _
  | assign x e s ih | print e s ih | wrap w e s ih =>
    rw [Expr.nodeCount, List.range'_concat, layout, List.flatMap_append, Nat.one_mul]
    exact (ih base).append_right _
  | binary op l r s ihl ihr =>
    rw [Expr.nodeCount, List.range'_concat, ← List.range'_append_1, Nat.one_mul]
    refine .append_right _ (.trans ?_ ((ihl base).append (ihr (base + l.nodeCount))))
    simp only [layout, List.flatMap_append, List.flatMap_singleton, NodeKind.children,
      List.append_assoc]
    refine .append_left _ ?_
    -- The left root comes behind the numbers of the right tree and belongs in front of them.
    exact List.perm_middle
  | hole reason => exact reason.elim

theorem perm_layoutAll (base : ℕ) (forest : Forest) :
    (((layoutAll base forest).flatMap fun node => node.kind.children) ++ roots base forest).Perm
      (List.range' base (layoutAll base forest).length) := by
  induction forest generalizing base with
  | nil => exact .refl _
  | cons e rest ih =>
    rw [layoutAll, List.length_append, length_layout, ← List.range'_append_1, List.flatMap_append,
      roots]
    refine .trans ?_ ((perm_layout base e).append (ih (base + e.nodeCount)))
    rw [List.append_assoc, List.append_assoc]
    exact .append_left _ List.perm_middle

theorem le_of_mem_roots (h : i ∈ roots base forest) : base ≤ i := by
  induction forest generalizing base with
  | nil => cases h
  | cons e rest ih =>
    have hpos := e.nodeCount_pos
    rcases List.mem_cons.1 h with rfl | h
    · omega
    · have := ih h
      omega

theorem pairwise_roots (base : ℕ) (forest : Forest) :
    (roots base forest).Pairwise fun i j : ℕ => i < j := by
  induction forest generalizing base with
  | nil => exact .nil
  | cons e rest ih =>
    refine .cons ?_ (ih _)
    intro i hi
    have hle := le_of_mem_roots hi
    have hpos := e.nodeCount_pos
    omega

theorem getLast?_roots (h : i ∈ (roots base forest).getLast?) :
    i + 1 = base + (layoutAll base forest).length := by
  induction forest generalizing base with
  | nil => cases h
  | cons e rest ih =>
    have hpos := e.nodeCount_pos
    rw [layoutAll, List.length_append, length_layout]
    cases rest with
    | nil =>
      obtain rfl : base + e.nodeCount - 1 = i := by simpa [roots] using h
      simp only [layoutAll, List.length_nil]
      omega
    | cons e' rest =>
      have hrest : i ∈ (roots (base + e.nodeCount) (e' :: rest)).getLast? := by
        simpa [roots] using h
      have := ih hrest
      omega

theorem postOrder_ofForest (forest : Forest) : (ofForest forest).PostOrder := by
  have hnodes : (ofForest forest).nodes.toList = layoutAll 0 forest := rfl
  have hbody : (ofForest forest).body = roots 0 forest := rfl
  have hsize : (ofForest forest).nodes.size = (layoutAll 0 forest).length := rfl
  have hstretch : ∀ i < (ofForest forest).nodes.size, ∃ first u,
      (ofForest forest).Holds first (layout first u) ∧ i + 1 = first + u.nodeCount := by
    intro i hi
    rw [hsize, ← Nat.zero_add (layoutAll 0 forest).length] at hi
    obtain ⟨-, -, first, u, -, hu⟩ :=
      exists_stretch_of_forest (holds_ofForest forest) (Nat.zero_le i) hi
    exact ⟨first, u, hu⟩
  constructor
  case descending => exact descending_ofForest forest
  case once =>
    intro i hi
    have hperm := (perm_layoutAll 0 forest).count_eq i
    have hmem : i ∈ List.range' 0 (layoutAll 0 forest).length := by
      rw [List.mem_range'_1]
      omega
    rw [List.count_append, List.count_eq_one_of_mem List.nodup_range' hmem] at hperm
    rw [operands, hnodes, hbody, Nat.add_comm]
    exact hperm
  case increasing =>
    rw [hbody]
    exact pairwise_roots 0 forest
  case last =>
    intro i hi
    rw [hbody] at hi
    rw [hsize, getLast?_roots hi, Nat.zero_add]
  case empty =>
    intro h
    cases forest with
    | nil => rfl
    | cons e rest =>
      rw [hbody] at h
      cases h
  case contiguous =>
    intro i hi
    obtain ⟨first, u, hu, hlast⟩ := hstretch i hi
    have hpos := u.nodeCount_pos
    obtain rfl : first + u.nodeCount - 1 = i := by omega
    exact ⟨first, by omega, fun j => below_iff hu⟩
  case adjacent =>
    intro i op l r s hn
    obtain ⟨hi, -⟩ := Array.getElem?_eq_some_iff.1 hn
    obtain ⟨first, u, hu, hlast⟩ := hstretch i hi
    cases u with
    | number | string | identifier =>
      obtain rfl : i = first := Nat.succ.inj hlast
      cases hu.node.symm.trans hn
    | assign x e s | print e s | wrap w e s =>
      obtain ⟨-, hroot⟩ := hu.root
      obtain rfl : i = first + e.nodeCount := Nat.succ.inj hlast
      cases hroot.symm.trans hn
    | binary op' l' r' s' =>
      obtain ⟨hleft, hright, hroot⟩ := hu.binary
      obtain rfl : i = first + l'.nodeCount + r'.nodeCount := by
        rw [Nat.add_assoc]
        exact Nat.succ.inj hlast
      cases hroot.symm.trans hn
      have hl := l'.nodeCount_pos
      have hr := r'.nodeCount_pos
      refine ⟨first, by omega, fun j => below_iff hleft, fun j => ?_, by omega⟩
      rw [below_iff hright, Nat.sub_add_cancel (by omega)]
    | hole reason => exact reason.elim

end Program

theorem Derives.countP_hasNode {us : List (Token Name)} {e : Expr Empty} (h : Derives us e) :
    us.countP Token.hasNode = e.nodeCount := by
  induction h with
  | number v s | string t s | identifier x s => rfl
  | assign x s t _ ih =>
    rw [Expr.nodeCount, ← ih]
    simp [Token.hasNode]
  | print s _ ih | wrap w s _ ih =>
    rw [Expr.nodeCount, ← ih]
    simp [Token.hasNode]
  | paren s t _ ih =>
    rw [← ih]
    simp [Token.hasNode]
  | binary op s _ _ ihl ihr =>
    rw [Expr.nodeCount, ← ihl, ← ihr]
    simp [Token.hasNode]

theorem Decomposition.countP_hasNode {tokens : List (Token Name)} {parts : List (List (Token Name))}
    {forest : Forest} (h : Decomposition tokens parts forest) (base : ℕ) :
    tokens.countP Token.hasNode = (Program.layoutAll base forest).length := by
  obtain ⟨rfl, h⟩ := h
  induction h generalizing base with
  | nil => rfl
  | @cons us e parts forest hu _ ih =>
    rw [List.flatten_cons, List.countP_append, hu.countP_hasNode, ih (base + e.nodeCount),
      Program.layoutAll, List.length_append, Program.length_layout]

theorem Program.size_of_parseProgram {tokens : List (Token Name)} {p : Program}
    (h : parseProgram tokens = .ok p) :
    p.nodes.size = (tokens.takeWhile fun t => !t.kind.isEnd).countP Token.hasNode := by
  obtain ⟨forest, hparse, rfl⟩ := exists_forest_of_parseProgram h
  rw [parse] at hparse
  obtain ⟨parts, hd⟩ := Forest.statements_ok_iff.1 hparse
  have hcount : (tokens.takeWhile fun t => !t.kind.isEnd).countP Token.hasNode = _ :=
    hd.countP_hasNode 0
  rw [hcount, ofForest, List.size_toArray]

/-- A source has no more nodes than bytes, so where its spans can be made its nodes have numbers. -/
theorem Session.size_le_of_readProgram {names names' : NameTable} {source : String} {p : Program}
    (h : readProgram names source = (.ok p, names')) : p.nodes.size ≤ source.utf8ByteSize := by
  obtain ⟨ts, last, hlast, hlength, hparse⟩ : ∃ ts : List (Token Name), ∃ last : Token Name,
      last.kind = .endOfInput ∧ ts.length ≤ source.utf8ByteSize ∧
        parseProgram (ts ++ [last]) = .ok p := by
    rw [readProgram, lex] at h
    rcases hscan : (Lexeme.scan source).2 with error | n
    · simp [hscan, Except.map, Except.mapError, bind, Except.bind] at h
    refine ⟨(Token.internAll names ((Lexeme.scan source).1.map Lexeme.token)).1,
      ⟨.endOfInput, Span.point n⟩, rfl, ?_, ?_⟩
    · rw [Token.length_internAll, List.length_map, ← bytes_toList]
      exact Lexeme.length_scanList_le 0 source.toList
    · simp only [hscan, Except.map, Except.mapError, bind, Except.bind, Prod.mk.injEq] at h
      split at h <;> simp_all
  have hfront : ((ts ++ [last]).takeWhile fun t => !t.kind.isEnd).length ≤ ts.length := by
    rw [List.takeWhile_append]
    split
    · simp [hlast, TokenKind.isEnd]
    · exact (List.takeWhile_prefix _).length_le
  rw [Program.size_of_parseProgram hparse]
  exact (List.countP_le_length.trans hfront).trans hlength

/-- A table that is filled from tokens uses every node once, its statements ascend to the last node,
and every tree is a stretch that ends with its root. Of the tokens up to the end of input each but
`=` and parentheses adds one node. -/
theorem parsed_tables_are_postorder (tokens : List (Token Name)) (p : Program)
    (h : parseProgram tokens = .ok p) :
    p.PostOrder ∧
      p.nodes.size = (tokens.takeWhile fun t => !t.kind.isEnd).countP Token.hasNode := by
  obtain ⟨forest, -, rfl⟩ := exists_forest_of_parseProgram h
  exact ⟨Program.postOrder_ofForest forest, Program.size_of_parseProgram h⟩

/-- `x = ( + 1 y ) print x` as tokens, with more of them behind the end of input. -/
def printedAssignment : List (Token Name) :=
  [⟨.identifier ⟨6⟩, ⟨0, 1⟩⟩, ⟨.equals, ⟨2, 3⟩⟩, ⟨.leftParen, ⟨4, 5⟩⟩, ⟨.operator .add, ⟨6, 7⟩⟩,
    ⟨.number ⟨0x3ff0000000000000⟩, ⟨8, 9⟩⟩, ⟨.identifier ⟨7⟩, ⟨10, 11⟩⟩, ⟨.rightParen, ⟨12, 13⟩⟩,
    ⟨.printWord, ⟨14, 19⟩⟩, ⟨.identifier ⟨6⟩, ⟨20, 21⟩⟩, ⟨.endOfInput, ⟨21, 21⟩⟩,
    ⟨.rightParen, ⟨22, 23⟩⟩]

/-- The assignment is the first four nodes of six, and the operator behind its operands. -/
theorem printedAssignment_is_postorder :
    ∃ p, parseProgram printedAssignment = .ok p ∧ p.PostOrder ∧ p.nodes.size = 6 ∧
      p.body = [3, 5] ∧ p.operands = [0, 1, 2, 4] := by
  have htable : (parseProgram printedAssignment).map (fun p => (p.body, p.operands))
      = .ok ([3, 5], [0, 1, 2, 4]) := by decide +kernel
  rcases hparse : parseProgram printedAssignment with error | p
  · rw [hparse] at htable
    cases htable
  · rw [hparse] at htable
    obtain ⟨hbody, hoperands⟩ := Prod.mk.inj (Except.ok.inj htable)
    obtain ⟨hpost, hsize⟩ := parsed_tables_are_postorder _ p hparse
    exact ⟨p, rfl, hpost, hsize, hbody, hoperands⟩

end PrefixLang
