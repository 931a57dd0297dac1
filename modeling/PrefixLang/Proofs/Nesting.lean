import PrefixLang.Proofs.Positions
import PrefixLang.Proofs.PostOrder
/-!
How the spans of a table lie in its source. Each node spans the text from its own token to the last
operand in its tree, parentheses around it left out, and so spans nest as trees do and follow each
other as in the source: `spans_follow_the_source`.
-/

namespace PrefixLang

/-- Tokens with a text, each behind the ones before it. -/
structure Token.Successive (tokens : List (Token Name)) : Prop where
  wide : ∀ t ∈ tokens, t.span.start < t.span.stop
  pairwise : tokens.Pairwise fun t u => t.span.stop ≤ u.span.start

/-- The tokens at which an expression can end. -/
def Token.isOperand (t : Token Name) : Bool :=
  match t.kind with
  | .number _ | .string _ | .identifier _ => true
  | _ => false

/-- The last number, string or identifier. -/
def Token.lastOperand (tokens : List (Token Name)) : Option (Token Name) :=
  (tokens.filter isOperand).getLast?

variable {us vs rest : List (Token Name)} {e l r : Expr Empty} {t first last : Token Name}

open List (Sublist)

namespace Token

theorem Successive.sublist (h : Successive us) (hs : Sublist vs us) : Successive vs where
  wide := fun t ht => h.wide t (hs.subset ht)
  pairwise := h.pairwise.sublist hs

theorem Successive.tail (h : Successive (t :: us)) : Successive us :=
  h.sublist (List.sublist_cons_self t us)

theorem Successive.skip (h : Successive (t :: first :: us)) : Successive (t :: us) :=
  h.sublist ((List.sublist_cons_self first us).cons_cons t)

theorem Successive.front (h : Successive (t :: (us ++ vs))) : Successive (t :: us) :=
  h.sublist ((List.sublist_append_left us vs).cons_cons t)

theorem Successive.back (h : Successive (t :: (us ++ vs))) : Successive (t :: vs) :=
  h.sublist ((List.sublist_append_right us vs).cons_cons t)

theorem Successive.before (h : Successive (us ++ vs)) :
    ∀ t ∈ us, ∀ u ∈ vs, t.span.stop ≤ u.span.start :=
  (List.pairwise_append.1 h.pairwise).2.2

theorem lastOperand_append (us : List (Token Name)) (h : lastOperand vs = some last) :
    lastOperand (us ++ vs) = some last := by
  rw [lastOperand] at h ⊢
  rw [List.filter_append, List.getLast?_append, h, Option.some_or]

theorem lastOperand_concat (us : List (Token Name)) (h : t.isOperand = false) :
    lastOperand (us ++ [t]) = lastOperand us := by
  simp [lastOperand, h]

end Token

theorem Session.successive_tokens {names : NameTable} (hn : names.WellFormed) (source : String) :
    Token.Successive (Session.tokens names source).1 where
  wide := by
    intro t ht
    obtain ⟨l, hl, -, hspan⟩ := exists_lexeme hn ht
    obtain ⟨hmatch, hcovers⟩ := Lexeme.covers_text hl
    rw [← hspan]
    exact hcovers.wide hmatch.ne_nil
  pairwise := (List.pairwise_append.1 (pairwise_closedTokens hn source)).1

namespace Derives

theorem wide (h : Derives us e) (hs : Token.Successive us) : e.span.start < e.span.stop := by
  have hmerge (s t : Span) (hs : s.start < s.stop) (ht : t.start < t.stop) :
      (s.merge t).start < (s.merge t).stop := by
    simp only [Span.merge]
    omega
  exact h.span_induction hmerge hs.wide

theorem le_start {n : ℕ} (h : Derives us e) (hn : ∀ t ∈ us, n ≤ t.span.start) :
    n ≤ e.span.start :=
  h.span_induction (fun _ _ hs ht => Nat.le_min.2 ⟨hs, ht⟩) hn

theorem stop_le {n : ℕ} (h : Derives us e) (hn : ∀ t ∈ us, t.span.stop ≤ n) : e.span.stop ≤ n :=
  h.span_induction (fun _ _ hs ht => Nat.max_le.2 ⟨hs, ht⟩) hn

theorem before (hl : Derives us l) (hr : Derives vs r)
    (h : ∀ t ∈ us, ∀ u ∈ vs, t.span.stop ≤ u.span.start) : l.span.stop ≤ r.span.start := by
  apply hr.le_start
  intro u hu
  apply hl.stop_le
  intro t ht
  exact h t ht u hu

theorem behind (h : Derives us e) (hs : Token.Successive (t :: us)) :
    t.span.stop ≤ e.span.start :=
  h.le_start (List.pairwise_cons.1 hs.pairwise).1

theorem merge_eq (h : Derives us e) (hs : Token.Successive (t :: us)) :
    t.span.merge e.span = ⟨t.span.start, e.span.stop⟩ := by
  have htoken := hs.wide t List.mem_cons_self
  have htree := h.wide hs.tail
  have hbehind := h.behind hs
  rw [Span.merge, Nat.min_eq_left (by omega), Nat.max_eq_right (by omega)]

theorem merge_start (h : Derives us e) (hs : Token.Successive (t :: us)) :
    (t.span.merge e.span).start = t.span.start := by
  rw [h.merge_eq hs]

theorem exists_last (h : Derives us e) (hs : Token.Successive us) :
    ∃ last, Token.lastOperand us = some last ∧ e.span.stop = last.span.stop := by
  induction h with
  | number v s | string x s | identifier x s => exact ⟨_, rfl, rfl⟩
  | assign x s t he ih =>
    obtain ⟨last, hlast, hstop⟩ := ih hs.tail.tail
    have hmerge := he.merge_eq hs.skip
    refine ⟨last, Token.lastOperand_append [_, _] hlast, ?_⟩
    rw [Expr.span, hmerge, hstop]
  | print s he ih | wrap w s he ih =>
    obtain ⟨last, hlast, hstop⟩ := ih hs.tail
    have hmerge := he.merge_eq hs
    refine ⟨last, Token.lastOperand_append [_] hlast, ?_⟩
    rw [Expr.span, hmerge, hstop]
  | paren s t he ih =>
    obtain ⟨last, hlast, hstop⟩ := ih hs.front.tail
    refine ⟨last, Token.lastOperand_append [_] ?_, hstop⟩
    rw [← hlast]
    exact Token.lastOperand_concat _ rfl
  | @binary op s us vs l r hl hr _ ihr =>
    obtain ⟨last, hlast, hstop⟩ := ihr hs.back.tail
    have hmerge := hr.merge_eq hs.back
    refine ⟨last, Token.lastOperand_append (_ :: us) hlast, ?_⟩
    rw [Expr.span, hmerge, hstop]

theorem start_eq (h : Derives (first :: rest) e) (hfirst : first.kind ≠ .leftParen)
    (hs : Token.Successive (first :: rest)) : e.span.start = first.span.start := by
  cases h with
  | number v s | string x s | identifier x s => rfl
  | assign x s t he => exact he.merge_start hs.skip
  | print s he | wrap w s he => exact he.merge_start hs
  | paren s t _ => exact absurd rfl hfirst
  | binary op s hl hr => exact hr.merge_start hs.back

theorem exists_core (h : Derives us e) : ∃ first rest, first :: rest <:+: us ∧
    Derives (first :: rest) e ∧ first.kind ≠ .leftParen := by
  induction h with
  | paren s t _ ih =>
    obtain ⟨first, rest, hpart, hcore⟩ := ih
    exact ⟨first, rest, List.infix_cons (hpart.trans (List.prefix_append _ _).isInfix), hcore⟩
  | number v s => exact ⟨_, _, List.infix_rfl, .number v s, by simp⟩
  | string x s => exact ⟨_, _, List.infix_rfl, .string x s, by simp⟩
  | identifier x s => exact ⟨_, _, List.infix_rfl, .identifier x s, by simp⟩
  | assign x s t he _ => exact ⟨_, _, List.infix_rfl, .assign x s t he, by simp⟩
  | print s he _ => exact ⟨_, _, List.infix_rfl, .print s he, by simp⟩
  | wrap w s he _ => exact ⟨_, _, List.infix_rfl, .wrap w s he, by simp⟩
  | binary op s hl hr _ _ => exact ⟨_, _, List.infix_rfl, .binary op s hl hr, by simp⟩

end Derives

/-- The kind of the token that a node was made for. -/
def NodeKind.opening : NodeKind → TokenKind Name
  | number v => .number v
  | string x => .string x
  | identifier x | assign x _ => .identifier x
  | print _ => .printWord
  | wrap w _ => .wrapper w
  | binary op _ _ => .operator op

namespace Program

/-- The node at one number ends before the node at another number starts. -/
def Precedes (p : Program) (i j : ℕ) : Prop :=
  ∃ a b, p.nodes[i]? = some a ∧ p.nodes[j]? = some b ∧ a.span.stop ≤ b.span.start

/-- The tokens of a node, in its tree and no more, and how it spans them. -/
structure Spells (p : Program) (i : ℕ) (node : Node) (first : Token Name)
    (rest : List (Token Name)) : Prop where
  tree : ∃ e, Derives (first :: rest) e ∧ p.Unfolds i e.intact
  opening : first.kind = node.kind.opening
  start : node.span.start = first.span.start
  stop : ∃ last, Token.lastOperand (first :: rest) = some last ∧ node.span.stop = last.span.stop
  children : ∀ c ∈ node.kind.children, ∃ child, p.nodes[c]? = some child ∧
    first.span.stop ≤ child.span.start ∧ child.span.stop ≤ node.span.stop

/-- A table in which the spans lie as the text of the tokens does. -/
structure FollowsSource (p : Program) (tokens : List (Token Name)) : Prop where
  spelled : ∀ i node, p.nodes[i]? = some node →
    ∃ first rest, (first :: rest) <:+: tokens ∧ first.span.start < first.span.stop ∧
      p.Spells i node first rest
  wide : ∀ node ∈ p.nodes, node.span.start < node.span.stop
  operands : ∀ (i : ℕ) op (l r : ℕ) s, p.nodes[i]? = some ⟨.binary op l r, s⟩ → p.Precedes l r
  apart : ∀ i < p.nodes.size, ∀ j < p.nodes.size, ¬p.Below i j → ¬p.Below j i →
    p.Precedes i j ∨ p.Precedes j i
  body : p.body.Pairwise p.Precedes

/-- At a number stands a tree that was read from some of the tokens. -/
def Stands (p : Program) (tokens : List (Token Name)) (i : ℕ) : Prop :=
  ∃ us e, us <:+: tokens ∧ Derives us e ∧ p.Unfolds i e.intact

variable {p : Program} {base i j : ℕ} {node : Node} {forest : Forest}
  {parts : List (List (Token Name))}

theorem Stands.precedes (hi : p.Stands us i) (hj : p.Stands vs j)
    (h : ∀ t ∈ us, ∀ u ∈ vs, t.span.stop ≤ u.span.start) : p.Precedes i j := by
  obtain ⟨us', l, hus, hl, hleft⟩ := hi
  obtain ⟨vs', r, hvs, hr, hright⟩ := hj
  obtain ⟨a, ha, hspan⟩ := hleft.exists_node
  obtain ⟨b, hb, hspan'⟩ := hright.exists_node
  refine ⟨a, b, ha, hb, ?_⟩
  rw [hspan, hspan']
  exact hl.before hr fun t ht u hu => h t (hus.subset ht) u (hvs.subset hu)

theorem exists_child {c : ℕ} (he : Derives us e) (hs : Token.Successive (t :: us))
    (hc : p.Unfolds c e.intact) : ∃ child, p.nodes[c]? = some child ∧
      t.span.stop ≤ child.span.start ∧ child.span.stop ≤ (t.span.merge e.span).stop := by
  obtain ⟨child, hchild, hspan⟩ := hc.exists_node
  refine ⟨child, hchild, ?_⟩
  rw [he.merge_eq hs, hspan]
  exact ⟨he.behind hs, le_rfl⟩

theorem spells_of_derives (h : Derives (first :: rest) e) (hfirst : first.kind ≠ .leftParen)
    (hs : Token.Successive (first :: rest)) (hi : p.Unfolds i e.intact)
    (hn : p.nodes[i]? = some node) : p.Spells i node first rest := by
  obtain ⟨node', hn', hspan⟩ := hi.exists_node
  obtain rfl := Option.some.inj (hn.symm.trans hn')
  have hstart := h.start_eq hfirst hs
  obtain ⟨last, hlast, hstop⟩ := h.exists_last hs
  rw [← hspan] at hstart hstop
  suffices hnode : first.kind = node.kind.opening ∧ ∀ c ∈ node.kind.children,
      ∃ child, p.nodes[c]? = some child ∧ first.span.stop ≤ child.span.start ∧
        child.span.stop ≤ node.span.stop from
    ⟨⟨e, h, hi⟩, hnode.1, hstart, ⟨last, hlast, hstop⟩, hnode.2⟩
  cases h with
  | number v s =>
    cases hi with | number hn' =>
    cases hn.symm.trans hn'
    exact ⟨rfl, by simp [NodeKind.children]⟩
  | string x s =>
    cases hi with | string hn' =>
    cases hn.symm.trans hn'
    exact ⟨rfl, by simp [NodeKind.children]⟩
  | identifier x s =>
    cases hi with | identifier hn' =>
    cases hn.symm.trans hn'
    exact ⟨rfl, by simp [NodeKind.children]⟩
  | assign x s t he =>
    cases hi with | assign hn' hc =>
    cases hn.symm.trans hn'
    refine ⟨rfl, ?_⟩
    intro c hmem
    obtain rfl := List.mem_singleton.1 hmem
    exact exists_child he hs.skip hc
  | print s he =>
    cases hi with | print hn' hc =>
    cases hn.symm.trans hn'
    refine ⟨rfl, ?_⟩
    intro c hmem
    obtain rfl := List.mem_singleton.1 hmem
    exact exists_child he hs hc
  | wrap w s he =>
    cases hi with | wrap hn' hc =>
    cases hn.symm.trans hn'
    refine ⟨rfl, ?_⟩
    intro c hmem
    obtain rfl := List.mem_singleton.1 hmem
    exact exists_child he hs hc
  | paren s t _ => exact absurd rfl hfirst
  | binary op s hl hr =>
    cases hi with | binary hn' hc hd =>
    cases hn.symm.trans hn'
    refine ⟨rfl, ?_⟩
    intro c hmem
    rcases List.mem_cons.1 hmem with rfl | hmem
    · -- The node was made without the span of its left operand, which ends before the right one.
      obtain ⟨child, hchild, hspan⟩ := hc.exists_node
      have hbehind := hl.behind hs.front
      have hbefore := hl.before hr hs.tail.before
      have hwide := hr.wide hs.back.tail
      refine ⟨child, hchild, ?_, ?_⟩
      · rwa [hspan]
      · rw [hspan]
        exact (hbefore.trans hwide.le).trans (Nat.le_max_right _ _)
    · obtain rfl := List.mem_singleton.1 hmem
      exact exists_child hr hs.back hd

theorem precedes_of_derives {op : Operator} {c d : ℕ} {s : Span} (h : Derives us e)
    (hs : Token.Successive us) (hi : p.Unfolds i e.intact)
    (hn : p.nodes[i]? = some ⟨.binary op c d, s⟩) : p.Precedes c d := by
  obtain ⟨first, rest, hpart, hcore, hfirst⟩ := h.exists_core
  have hs := hs.sublist hpart.sublist
  cases hcore with
  | number v s => cases hi with | number hn' => cases hn.symm.trans hn'
  | string x s => cases hi with | string hn' => cases hn.symm.trans hn'
  | identifier x s => cases hi with | identifier hn' => cases hn.symm.trans hn'
  | assign x s t he => cases hi with | assign hn' _ => cases hn.symm.trans hn'
  | print s he => cases hi with | print hn' _ => cases hn.symm.trans hn'
  | wrap w s he => cases hi with | wrap hn' _ => cases hn.symm.trans hn'
  | paren s t _ => exact absurd rfl hfirst
  | @binary op s us vs l r hl hr =>
    cases hi with | binary hn' hc hd =>
    cases hn.symm.trans hn'
    have hleft : p.Stands us c := ⟨us, l, List.infix_rfl, hl, hc⟩
    have hright : p.Stands vs d := ⟨vs, r, List.infix_rfl, hr, hd⟩
    exact hleft.precedes hright hs.tail.before

theorem unfolds_of_holds (h : p.Holds base (layout base e)) :
    p.Unfolds (base + e.nodeCount - 1) e.intact := by
  induction e generalizing base with
  | number v s => exact .number h.node
  | string x s => exact .string h.node
  | identifier x s => exact .identifier h.node
  | assign x e s ih => exact .assign h.root.2 (ih h.root.1)
  | print e s ih => exact .print h.root.2 (ih h.root.1)
  | wrap w e s ih => exact .wrap h.root.2 (ih h.root.1)
  | binary op l r s ihl ihr =>
    obtain ⟨hleft, hright, hroot⟩ := h.binary
    have hright := ihr hright
    rw [Nat.add_assoc] at hroot hright
    exact .binary hroot (ihl hleft) hright
  | hole reason => exact reason.elim

theorem stands_of_stretch (h : Derives us e) (hp : p.Holds base (layout base e)) (hle : base ≤ i)
    (hlt : i < base + e.nodeCount) : p.Stands us i := by
  obtain ⟨first, u, hu, hstretch, hlast⟩ := exists_stretch hp hle hlt
  obtain ⟨vs, hvs, hv⟩ := h.of_mem_subtrees hu
  obtain rfl : i = first + u.nodeCount - 1 := by omega
  exact ⟨vs, u, hvs, hv, unfolds_of_holds hstretch⟩

theorem stands_of_forest (h : List.Forall₂ Derives parts forest)
    (hp : p.Holds base (layoutAll base forest)) (hle : base ≤ i)
    (hlt : i < base + (layoutAll base forest).length) : p.Stands parts.flatten i := by
  obtain ⟨tree, htree, first, u, hu, hstretch, hlast⟩ := exists_stretch_of_forest hp hle hlt
  obtain ⟨us, hus, hderives⟩ := Decomposition.exists_derives ⟨rfl, h⟩ htree
  obtain ⟨vs, hvs, hv⟩ := hderives.of_mem_subtrees hu
  obtain rfl : i = first + u.nodeCount - 1 := by omega
  exact ⟨vs, u, hvs.trans hus, hv, unfolds_of_holds hstretch⟩

theorem ne_root (hp : p.Holds base (layout base e)) (hle : base ≤ i) (hij : i < j)
    (hb : ¬p.Below j i) : j + 1 ≠ base + e.nodeCount := by
  intro hroot
  obtain rfl : j = base + e.nodeCount - 1 := by omega
  apply hb
  rw [below_iff hp]
  omega

/-- In the stretch of a tree, nodes that are in no tree of a later one come before it in the text as
well. -/
theorem precedes_of_stretch (h : Derives us e) (hs : Token.Successive us)
    (hp : p.Holds base (layout base e)) (hle : base ≤ i) (hij : i < j)
    (hlt : j < base + e.nodeCount) (hb : ¬p.Below j i) : p.Precedes i j := by
  have hroot := ne_root hp hle hij hb
  induction h generalizing base with
  | number v s | string x s | identifier x s =>
    simp only [Expr.nodeCount] at hlt
    omega
  | assign x s t he ih =>
    simp only [Expr.nodeCount] at hlt hroot
    exact ih hs.tail.tail hp.root.1 hle (by omega) (ne_root hp.root.1 hle hij hb)
  | print s he ih | wrap w s he ih =>
    simp only [Expr.nodeCount] at hlt hroot
    exact ih hs.tail hp.root.1 hle (by omega) (ne_root hp.root.1 hle hij hb)
  | paren s t he ih =>
    exact ih hs.front.tail hp hle hlt hroot
  | @binary op s us vs l r hl hr ihl ihr =>
    obtain ⟨hleft, hright, -⟩ := hp.binary
    simp only [Expr.nodeCount] at hlt hroot
    by_cases hj : j < base + l.nodeCount
    · exact ihl hs.front.tail hleft hle hj (ne_root hleft hle hij hb)
    · by_cases hi : i < base + l.nodeCount
      · have hfirst := stands_of_stretch hl hleft hle hi
        have hsecond := stands_of_stretch (i := j) hr hright (by omega) (by omega)
        exact hfirst.precedes hsecond hs.tail.before
      · have hle : base + l.nodeCount ≤ i := by omega
        exact ihr hs.back.tail hright hle (by omega) (ne_root hright hle hij hb)

theorem precedes_of_forest (h : List.Forall₂ Derives parts forest)
    (hs : Token.Successive parts.flatten) (hp : p.Holds base (layoutAll base forest))
    (hle : base ≤ i) (hij : i < j) (hlt : j < base + (layoutAll base forest).length)
    (hb : ¬p.Below j i) : p.Precedes i j := by
  induction h generalizing base with
  | nil => exact absurd hlt (by simp [layoutAll]; omega)
  | @cons us e parts forest hu hrest ih =>
    obtain ⟨hfirst, hrests⟩ := hp.append
    rw [length_layout] at hrests
    rw [layoutAll, List.length_append, length_layout] at hlt
    rw [List.flatten_cons] at hs
    by_cases hj : j < base + e.nodeCount
    · exact precedes_of_stretch hu (hs.sublist (List.sublist_append_left _ _)) hfirst hle hij hj hb
    · by_cases hi : i < base + e.nodeCount
      · have hbefore := stands_of_stretch hu hfirst hle hi
        have hbehind := stands_of_forest hrest hrests (i := j) (by omega) (by omega)
        exact hbefore.precedes hbehind hs.before
      · exact ih (hs.sublist (List.sublist_append_right _ _)) hrests (by omega) (by omega)

theorem pairwise_precedes (h : List.Forall₂ Derives parts forest)
    (hs : Token.Successive parts.flatten) (hp : p.Holds base (layoutAll base forest)) :
    (roots base forest).Pairwise p.Precedes := by
  induction h generalizing base with
  | nil => exact .nil
  | @cons us e parts forest hu hrest ih =>
    obtain ⟨hfirst, hrests⟩ := hp.append
    rw [length_layout] at hrests
    rw [List.flatten_cons] at hs
    refine .cons ?_ (ih (hs.sublist (List.sublist_append_right _ _)) hrests)
    intro j hj
    have hroot : p.Stands us (base + e.nodeCount - 1) :=
      ⟨us, e, List.infix_rfl, hu, unfolds_of_holds hfirst⟩
    have hbehind := stands_of_forest hrest hrests (le_of_mem_roots hj) (lt_of_mem_roots hj)
    exact hroot.precedes hbehind hs.before

theorem FollowsSource.mono {tokens more : List (Token Name)} (h : p.FollowsSource tokens)
    (hpart : tokens <:+: more) : p.FollowsSource more where
  spelled := by
    intro i node hn
    obtain ⟨first, rest, hstretch, hspells⟩ := h.spelled i node hn
    exact ⟨first, rest, hstretch.trans hpart, hspells⟩
  wide := h.wide
  operands := h.operands
  apart := h.apart
  body := h.body

theorem followsSource_ofForest {tokens : List (Token Name)} (h : Decomposition tokens parts forest)
    (hs : Token.Successive tokens) : (ofForest forest).FollowsSource tokens := by
  obtain ⟨rfl, h⟩ := h
  have hholds := holds_ofForest forest
  have hsize : (ofForest forest).nodes.size = 0 + (layoutAll 0 forest).length := by
    rw [ofForest, List.size_toArray, Nat.zero_add]
  have hstands : ∀ i < (ofForest forest).nodes.size,
      (ofForest forest).Stands parts.flatten i := by
    intro i hi
    exact stands_of_forest h hholds (Nat.zero_le i) (hsize ▸ hi)
  have hprecedes : ∀ i j, i < j → j < (ofForest forest).nodes.size →
      ¬(ofForest forest).Below j i → (ofForest forest).Precedes i j := by
    intro i j hij hj hb
    exact precedes_of_forest h hs hholds (Nat.zero_le i) hij (hsize ▸ hj) hb
  constructor
  case spelled =>
    intro i node hn
    obtain ⟨hi, -⟩ := Array.getElem?_eq_some_iff.1 hn
    obtain ⟨us, e, hus, hu, hunfolds⟩ := hstands i hi
    obtain ⟨first, rest, hpart, hcore, hfirst⟩ := hu.exists_core
    have hcores := hs.sublist (hpart.trans hus).sublist
    exact ⟨first, rest, hpart.trans hus, hcores.wide first List.mem_cons_self,
      spells_of_derives hcore hfirst hcores hunfolds hn⟩
  case wide =>
    intro node hmem
    obtain ⟨i, hi, rfl⟩ := Array.mem_iff_getElem.1 hmem
    obtain ⟨us, e, hus, hu, hunfolds⟩ := hstands i hi
    obtain ⟨node, hn, hspan⟩ := hunfolds.exists_node
    rw [Array.getElem?_eq_getElem hi] at hn
    rw [Option.some.inj hn, hspan]
    exact hu.wide (hs.sublist hus.sublist)
  case operands =>
    intro i op l r s hn
    obtain ⟨hi, -⟩ := Array.getElem?_eq_some_iff.1 hn
    obtain ⟨us, e, hus, hu, hunfolds⟩ := hstands i hi
    exact precedes_of_derives hu (hs.sublist hus.sublist) hunfolds hn
  case apart =>
    intro i hi j hj hij hji
    rcases Nat.lt_trichotomy i j with hlt | rfl | hlt
    · exact .inl (hprecedes i j hlt hj hji)
    · exact absurd (.root i) hij
    · exact .inr (hprecedes j i hlt hi hij)
  case body =>
    exact pairwise_precedes h hs hholds

end Program

/-- In the table of a source each node spans its part of the source: it starts with its own token,
whose kind tells what node it is, and ends with the last number, string or identifier of its tree.
Children lie inside of it behind that token, the left operand before the right one; nodes of which
neither is in the tree at the other do not overlap; and the statements stand in the order of their
texts. -/
theorem spans_follow_the_source {names names' : NameTable} (hn : names.WellFormed) (source : String)
    (tokens : List (Token Name)) (forest : Forest)
    (hlex : lex names source = (.ok tokens, names')) (hparse : parse tokens = .ok forest) :
    (Program.ofForest forest).FollowsSource tokens := by
  obtain ⟨n, -, rfl, -⟩ := Session.exists_of_lex hlex
  rw [Session.closedTokens, parse_append_end _ (Session.kind_ne_end hn source),
    Forest.statements_ok_iff] at hparse
  obtain ⟨parts, hd⟩ := hparse
  have hfollows := Program.followsSource_ofForest hd (Session.successive_tokens hn source)
  exact hfollows.mono (List.prefix_append _ _).isInfix

/-- Neither the parentheses nor the remark are in a span; the sum starts with its operator and the
assignment with its name. -/
theorem spans_of_assignedSum :
    ∃ tokens names forest, NameTable.initial.WellFormed ∧
      lex NameTable.initial "x = (+ (1) y // sum\n) z" = (.ok tokens, names) ∧
      parse tokens = .ok forest ∧ (Program.ofForest forest).FollowsSource tokens ∧
      (Program.ofForest forest).nodes.toList.map Node.span
        = [⟨8, 9⟩, ⟨11, 12⟩, ⟨5, 12⟩, ⟨0, 12⟩, ⟨22, 23⟩] := by
  have hn := NameTable.initial_wellFormed
  have htable : (Session.read NameTable.initial "x = (+ (1) y // sum\n) z").1.map (fun forest =>
      (Program.ofForest forest).nodes.toList.map Node.span)
      = .ok [⟨8, 9⟩, ⟨11, 12⟩, ⟨5, 12⟩, ⟨0, 12⟩, ⟨22, 23⟩] := by decide +kernel
  rw [Session.read] at htable
  rcases hlex : lex NameTable.initial "x = (+ (1) y // sum\n) z" with ⟨error | tokens, names⟩
  · rw [hlex] at htable
    cases htable
  · rw [hlex] at htable
    rcases hparse : parse tokens with error | forest
    · simp only [Except.mapError, bind, Except.bind, hparse] at htable
      cases htable
    · simp only [Except.mapError, bind, Except.bind, hparse] at htable
      exact ⟨tokens, names, forest, hn, rfl, hparse,
        spans_follow_the_source hn _ _ _ hlex hparse, Except.ok.inj htable⟩

end PrefixLang
