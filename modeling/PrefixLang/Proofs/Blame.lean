import PrefixLang.Proofs.Stopping
import PrefixLang.Evaluation
import PrefixLang.Proofs.Unfolding
/-!
What errors are about. An error of the parser blames tokens that it was given, and an error of the
evaluator blames parts of a tree, so that the place of an error is always the place of something.
-/

namespace PrefixLang

open List (Sublist)

variable {tokens us : List (Token Name)} {stop : Span} {e u : Expr Empty}

namespace Forest

/-- The errors that tokens, with the end of the input among them, can be blamed for. -/
inductive Blames (tokens : List (Token Name)) : ParseError → Prop where
  | refused {token kind} : token ∈ tokens → refusal? token.kind = some kind →
      Blames tokens ⟨kind, token.span⟩
  | unclosed {paren found} : Sublist [⟨.leftParen, paren⟩, found] tokens →
      found.kind ≠ .rightParen → Blames tokens (Forest.unclosed paren found)

theorem blames_of_statements {error : ParseError} {ahead : List (Token Name)}
    (h : statements stop ahead = .error error) :
    Blames (ahead ++ [⟨.endOfInput, stop⟩]) error := by
  obtain ⟨done, parts, trees, before, rest, rfl, -, -, hstops⟩ := stops_of_statements h
  have hfound : Sublist [(Cursor.mk rest stop).current] (rest ++ [⟨.endOfInput, stop⟩]) := by
    rw [List.singleton_sublist]
    cases rest <;> simp [Cursor.current, Cursor.endToken]
  rw [← List.append_assoc, List.append_assoc]
  cases hstops with
  | refused _ _ hk =>
    exact .refused (List.mem_append_right _ (List.singleton_sublist.1 hfound)) hk
  | @unclosed outer us e paren hsplit _ _ _ hk =>
    have hparen : Sublist [⟨.leftParen, paren⟩] (done ++ before) := by
      rw [List.singleton_sublist, hsplit]
      simp
    exact .unclosed (hparen.append hfound) hk

end Forest

theorem Derives.of_mem_subtrees (h : Derives us e) (hu : u ∈ e.subtrees) :
    ∃ vs, vs <:+: us ∧ Derives vs u := by
  induction h with
  | number v s | string t s | identifier x s =>
    obtain rfl := List.mem_singleton.1 hu
    exact ⟨_, List.infix_rfl, by constructor⟩
  | assign x s t he ih =>
    rcases List.mem_append.1 hu with hu | hu
    · obtain ⟨vs, hs, hv⟩ := ih hu
      exact ⟨vs, List.infix_cons (List.infix_cons hs), hv⟩
    · obtain rfl := List.mem_singleton.1 hu
      exact ⟨_, List.infix_rfl, .assign x s t he⟩
  | print s he ih =>
    rcases List.mem_append.1 hu with hu | hu
    · obtain ⟨vs, hs, hv⟩ := ih hu
      exact ⟨vs, List.infix_cons hs, hv⟩
    · obtain rfl := List.mem_singleton.1 hu
      exact ⟨_, List.infix_rfl, .print s he⟩
  | wrap w s he ih =>
    rcases List.mem_append.1 hu with hu | hu
    · obtain ⟨vs, hs, hv⟩ := ih hu
      exact ⟨vs, List.infix_cons hs, hv⟩
    · obtain rfl := List.mem_singleton.1 hu
      exact ⟨_, List.infix_rfl, .wrap w s he⟩
  | paren s t he ih =>
    obtain ⟨vs, hs, hv⟩ := ih hu
    exact ⟨vs, List.infix_cons (hs.trans (List.prefix_append _ _).isInfix), hv⟩
  | binary op s hl hr ihl ihr =>
    rcases List.mem_append.1 hu with hu | hu
    · obtain ⟨vs, hs, hv⟩ := ihl hu
      exact ⟨vs, List.infix_cons (hs.trans (List.prefix_append _ _).isInfix), hv⟩
    rcases List.mem_append.1 hu with hu | hu
    · obtain ⟨vs, hs, hv⟩ := ihr hu
      exact ⟨vs, List.infix_cons (hs.trans (List.suffix_append _ _).isInfix), hv⟩
    · obtain rfl := List.mem_singleton.1 hu
      exact ⟨_, List.infix_rfl, .binary op s hl hr⟩

theorem Derives.identifier_mem {x : Name} {s : Span} (h : Derives us (.identifier x s)) :
    ⟨.identifier x, s⟩ ∈ us := by
  generalize he : Expr.identifier x s = e at h
  induction h with
  | identifier y t =>
    cases he
    exact List.mem_cons_self
  | paren _ _ _ ih => exact List.mem_cons_of_mem _ (List.mem_append_left _ (ih he))
  | number _ _ | string _ _ | assign _ _ _ _ | print _ _ | wrap _ _ _ | binary _ _ _ _ => cases he

/-- What merging of spans preserves passes from tokens to trees. -/
theorem Derives.span_induction {motive : Span → Prop}
    (merge : ∀ s t, motive s → motive t → motive (s.merge t))
    (tokens : ∀ t ∈ us, motive t.span) (h : Derives us e) : motive e.span := by
  induction h with
  | number v s | string t s | identifier x s => exact tokens _ List.mem_cons_self
  | assign x s t _ ih =>
    refine merge _ _ (tokens _ List.mem_cons_self) (ih fun t ht => tokens t ?_)
    exact List.mem_cons_of_mem _ (List.mem_cons_of_mem _ ht)
  | print s _ ih | wrap w s _ ih =>
    exact merge _ _ (tokens _ List.mem_cons_self)
      (ih fun t ht => tokens t (List.mem_cons_of_mem _ ht))
  | paren s t _ ih =>
    exact ih fun t ht => tokens t (List.mem_cons_of_mem _ (List.mem_append_left _ ht))
  | binary op s _ _ _ ihr =>
    exact merge _ _ (tokens _ List.mem_cons_self)
      (ihr fun t ht => tokens t (List.mem_cons_of_mem _ (List.mem_append_right _ ht)))

theorem Decomposition.exists_derives {parts : List (List (Token Name))} {forest : Forest}
    (h : Decomposition tokens parts forest) (he : e ∈ forest) :
    ∃ us, us <:+: tokens ∧ Derives us e := by
  obtain ⟨rfl, h⟩ := h
  induction h with
  | nil => cases he
  | cons hu _ ih =>
    rw [List.flatten_cons]
    rcases List.mem_cons.1 he with rfl | he
    · exact ⟨_, (List.prefix_append _ _).isInfix, hu⟩
    · obtain ⟨vs, hs, hv⟩ := ih he
      exact ⟨vs, hs.trans (List.suffix_append _ _).isInfix, hv⟩

def Side.pick {α : Type} (side : Side) (left right : α) : α :=
  match side with
  | .left => left
  | .right => right

def OperandError.operator : OperandError → Operator
  | .notNumeric op _ _ => op
  | .divisionByZero => .div

theorem Operator.operator_of_apply {op : Operator} {v w : Value} {error : OperandError}
    (h : op.apply v w = .error error) : error.operator = op := by
  unfold Operator.apply at h
  split at h
  · cases h; rfl
  · cases h; rfl
  · next x y _ _ =>
    cases op with
    | add => cases h
    | sub => cases h
    | mul => cases h
    | div =>
      rw [onNumbers] at h
      split at h <;> cases h
      rfl

namespace Evaluation

variable {ρ : Type} {names : NameTable} {tree part : Expr ρ} {error : EvalError}

/-- The errors that the parts of a tree can be blamed for. -/
inductive Blames (names : NameTable) (tree : Expr ρ) : EvalError → Prop where
  | undefined {x s} : .identifier x s ∈ tree.subtrees →
      Blames names tree ⟨.undefinedIdentifier (names.lookup x), s⟩
  | operand {l r s error} : .binary error.operator l r s ∈ tree.subtrees →
      Blames names tree ⟨.operand error, error.side.pick l.span r.span⟩

theorem Blames.mono (h : Blames names part error) (hs : part.subtrees ⊆ tree.subtrees) :
    Blames names tree error := by
  cases h with
  | undefined hx => exact .undefined (hs hx)
  | operand ho => exact .operand (hs ho)

theorem blames_of_operate {op : Operator} {l r : Expr ρ} {s : Span} {v w : Value}
    (h : operate op l.span r.span v w = (.error (.error error) : Except (Stop ρ) Value)) :
    Blames names (.binary op l r s) error := by
  rw [operate] at h
  rcases hv : op.apply v w with e | v
  · rw [hv] at h
    cases h
    obtain rfl := Operator.operator_of_apply hv
    exact .operand (Expr.mem_subtrees_self _)
  · rw [hv] at h
    cases h

theorem blames_of_value {env : Environment}
    (h : (value names tree env).1 = .error (.error error)) : Blames names tree error := by
  induction tree generalizing env with
  | number v s | string t s => cases h
  | hole reason => cases h
  | identifier x s =>
    rw [value] at h
    split at h
    · cases h
    · cases h
      exact .undefined (Expr.mem_subtrees_self _)
  | assign x e s ih =>
    rw [value] at h
    rcases he : value names e env with ⟨stop | v, env'⟩
    · rw [he] at h
      have hvalue : (value names e env).1 = .error (.error error) := by rw [he]; exact h
      exact (ih hvalue).mono (List.subset_append_left _ _)
    · rw [he] at h
      cases h
  | print e s ih | wrap w e s ih =>
    rw [value] at h
    exact (ih h).mono (List.subset_append_left _ _)
  | binary op l r s ihl ihr =>
    rw [value] at h
    rcases hl : value names l env with ⟨stop | v, env'⟩
    · rw [hl] at h
      have hleft : (value names l env).1 = .error (.error error) := by rw [hl]; exact h
      exact (ihl hleft).mono (List.subset_append_left _ _)
    rw [hl, andThen] at h
    rcases hr : value names r env' with ⟨stop | w, env''⟩
    · rw [hr] at h
      have hright : (value names r env').1 = .error (.error error) := by rw [hr]; exact h
      exact (ihr hright).mono fun t ht => List.mem_append_right _ (List.mem_append_left _ ht)
    · rw [hr] at h
      exact blames_of_operate h

theorem blames_of_evaluate {trees : List (Expr ρ)} {env : Environment}
    (h : (evaluate names trees env).1 = .error (.error error)) :
    ∃ tree ∈ trees, Blames names tree error := by
  induction trees generalizing env with
  | nil => rw [evaluate] at h; cases h
  | cons tree rest ih =>
    rw [evaluate] at h
    rcases hv : value names tree env with ⟨stop | v, env'⟩
    · rw [hv] at h
      cases h
      have hfirst : (value names tree env).1 = .error (.error error) := by rw [hv]
      exact ⟨tree, List.mem_cons_self, blames_of_value hfirst⟩
    rw [hv, andThen] at h
    rcases hr : evaluate names rest env' with ⟨stop | outputs, env''⟩
    · rw [hr] at h
      cases h
      have hrest : (evaluate names rest env').1 = .error (.error error) := by rw [hr]
      obtain ⟨t, ht, hblames⟩ := ih hrest
      exact ⟨t, List.mem_cons_of_mem _ ht, hblames⟩
    · rw [hr] at h
      cases h

theorem Blames.span_induction {motive : Span → Prop} {tree : Expr Empty}
    (merge : ∀ s t, motive s → motive t → motive (s.merge t))
    (tokens : ∀ t ∈ us, motive t.span) (hd : Derives us tree) (h : Blames names tree error) :
    motive error.span := by
  cases h with
  | @undefined x s hx =>
    obtain ⟨vs, hvs, hv⟩ := hd.of_mem_subtrees hx
    exact tokens _ (hvs.subset hv.identifier_mem)
  | @operand l r s error ho =>
    have hoperand : error.side.pick l r ∈ (Expr.binary error.operator l r s).subtrees := by
      cases error.side with
      | left => exact List.mem_append_left _ l.mem_subtrees_self
      | right => exact List.mem_append_right _ (List.mem_append_left _ r.mem_subtrees_self)
    have hspan : error.side.pick l.span r.span = (error.side.pick l r).span := by
      cases error.side <;> rfl
    obtain ⟨vs, hvs, hv⟩ := hd.of_mem_subtrees ho
    obtain ⟨ws, hws, hw⟩ := hv.of_mem_subtrees hoperand
    show motive (error.side.pick l.span r.span)
    rw [hspan]
    exact hw.span_induction merge fun t ht => tokens t (hvs.subset (hws.subset ht))

end Evaluation

theorem Expr.subtrees_mapHoles {ρ σ : Type} (f : ρ → σ) (e : Expr ρ) :
    (e.mapHoles f).subtrees = e.subtrees.map (mapHoles f) := by
  induction e with
  | number v s | string t s | identifier x s | hole reason => rfl
  | assign x e s ih | print e s ih | wrap w e s ih =>
    rw [mapHoles, subtrees, subtrees, ih, List.map_append]
    rfl
  | binary op l r s ihl ihr =>
    rw [mapHoles, subtrees, subtrees, ihl, ihr, List.map_append, List.map_append]
    rfl

namespace Program

/-- A node of the table is an operator whose operand on a side has the span. -/
def HasOperand (p : Program) (op : Operator) (side : Side) (s : Span) : Prop :=
  ∃ l r whole node, ⟨.binary op l r, whole⟩ ∈ p.nodes ∧
    p.nodes[side.pick l r]? = some node ∧ node.span = s

theorem Unfolds.exists_node {p : Program} {i : ℕ} (h : Unfolds p i e.intact) :
    ∃ node, p.nodes[i]? = some node ∧ node.span = e.span := by
  cases e with
  | number v s => cases h with | number hn => exact ⟨_, hn, rfl⟩
  | string t s => cases h with | string hn => exact ⟨_, hn, rfl⟩
  | identifier x s => cases h with | identifier hn => exact ⟨_, hn, rfl⟩
  | assign x e s => cases h with | assign hn _ => exact ⟨_, hn, rfl⟩
  | print e s => cases h with | print hn _ => exact ⟨_, hn, rfl⟩
  | wrap w e s => cases h with | wrap hn _ => exact ⟨_, hn, rfl⟩
  | binary op l r s => cases h with | binary hn _ _ => exact ⟨_, hn, rfl⟩
  | hole reason => exact reason.elim

theorem hasOperand_ofForest {forest : Forest} {op : Operator} {l r : Expr Empty} {s : Span}
    (he : e ∈ forest) (hs : .binary op l r s ∈ e.subtrees) (side : Side) :
    (ofForest forest).HasOperand op side (side.pick l.span r.span) := by
  have hmem : e.intact ∈ (ofForest forest).unfold := by
    rw [unfold_ofForest]
    exact List.mem_map_of_mem he
  obtain ⟨i, -, hi⟩ := exists_unfolds (descending_ofForest forest).backward hmem
  have hsub : ((Expr.binary op l r s).intact : Expr Fault) ∈ e.intact.subtrees := by
    rw [Expr.intact, Expr.subtrees_mapHoles]
    exact List.mem_map_of_mem hs
  obtain ⟨j, hj⟩ := hi.of_mem_subtrees hsub
  cases hj with
  | @binary _ _ c d _ _ _ hn hl hr =>
    refine ⟨c, d, s, ?_⟩
    have hbinary := Array.mem_of_getElem? hn
    cases side with
    | left =>
      obtain ⟨node, hnode, hspan⟩ := hl.exists_node
      exact ⟨node, hbinary, hnode, hspan⟩
    | right =>
      obtain ⟨node, hnode, hspan⟩ := hr.exists_node
      exact ⟨node, hbinary, hnode, hspan⟩

end Program

end PrefixLang
