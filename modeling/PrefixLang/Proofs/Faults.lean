import PrefixLang.Program.Evaluation
import PrefixLang.Proofs.Dumps
import PrefixLang.Proofs.Unfolding
/-!
Tables written by hand in which numbers may lead nowhere. A dump comes to the nodes of a table depth
first and from left to right, and so does a run, as far as it gets. So a run can come to a number
without a node only where the dump does, and a table that can be dumped can be run:
`dump_faults_where_evaluation_does`.
-/

namespace PrefixLang

namespace Evaluation

variable {ρ α β : Type} {holes more : List ρ} {names : NameTable}

/-- How far an evaluation got among the holes of what it evaluates: past all of them if it came to
an end, and to the first if it stopped at a hole. Errors may come first. -/
def Meets (holes : List ρ) : Except (Stop ρ) α → Prop
  | .ok _ => holes = []
  | .error (.hole reason) => holes.head? = some reason
  | .error (.error _) => True

theorem Meets.andThen {r : Outcome ρ α} {next : α → Environment → Outcome ρ β}
    (h : Meets holes r.1) (hnext : ∀ v env, Meets more (next v env).1) :
    Meets (holes ++ more) (andThen r next).1 := by
  obtain ⟨stop | v, env⟩ := r
  · cases stop with
    | error e => trivial
    | hole reason =>
      rw [Meets] at h
      simp [Evaluation.andThen, Meets, h]
  · rw [Meets] at h
    rw [h]
    exact hnext v env

theorem Meets.andThen_last {r : Outcome ρ α} {next : α → Environment → Outcome ρ β}
    (h : Meets holes r.1) (hnext : ∀ v env, Meets [] (next v env).1) :
    Meets holes (Evaluation.andThen r next).1 := by
  rw [← List.append_nil holes]
  exact h.andThen hnext

theorem meets_operate (op : Operator) (s t : Span) (v w : Value) :
    Meets ([] : List ρ) (operate op s t v w) := by
  rcases happly : op.apply v w with error | result <;>
    simp [operate, happly, Except.mapError, Meets]

theorem meets_value (e : Expr ρ) (env : Environment) : Meets e.holes (value names e env).1 := by
  induction e generalizing env with
  | number v s | string x s | hole reason => exact rfl
  | identifier x s =>
    rw [value]
    rcases env.lookup x with _ | v
    · trivial
    · exact rfl
  | assign x e s ih =>
    exact (ih env).andThen_last fun _ _ => rfl
  | print e s ih | wrap w e s ih => exact ih env
  | binary op l r s ihl ihr =>
    exact (ihl env).andThen fun v env => (ihr env).andThen_last fun w _ => meets_operate op _ _ v w

theorem meets_evaluate (names : NameTable) (trees : List (Expr ρ)) (env : Environment) :
    Meets (trees.flatMap Expr.holes) (evaluate names trees env).1 := by
  induction trees generalizing env with
  | nil =>
    rw [evaluate]
    exact rfl
  | cons e rest ih =>
    rw [evaluate, List.flatMap_cons]
    exact (meets_value e env).andThen fun _ env => (ih env).andThen_last fun _ _ => rfl

end Evaluation

namespace Program

/-- The numbers that a walk over a table comes to, depth first and from left to right. -/
inductive Walk (p : Program) : List ℕ → List ℕ → Prop where
  | done : Walk p [] []
  | node {i rest met} {node : Node} : p.nodes[i]? = some node →
      Walk p (node.kind.children ++ rest) met → Walk p (i :: rest) (i :: met)
  | missing {i rest met} : p.nodes[i]? = none → Walk p rest met → Walk p (i :: rest) (i :: met)

variable {p : Program} {i : ℕ} {t : Expr Fault} {rest met : List ℕ}

/-- What a dump or a run would stop at along a walk. -/
def faults (p : Program) (met : List ℕ) : List Fault :=
  (met.filter fun i => p.nodes[i]?.isNone).map Fault.missing

theorem faults_cons_of_node {node : Node} (h : p.nodes[i]? = some node) (met : List ℕ) :
    p.faults (i :: met) = p.faults met := by
  simp [faults, h]

theorem faults_append (before after : List ℕ) :
    p.faults (before ++ after) = p.faults before ++ p.faults after := by
  simp [faults]

theorem Walk.unique {ids met' : List ℕ} (h : Walk p ids met) (h' : Walk p ids met') :
    met' = met := by
  induction h generalizing met' with
  | done =>
    cases h'
    rfl
  | node hn _ ih =>
    cases h' with
    | node hn' hrest =>
      obtain rfl := Option.some.inj (hn.symm.trans hn')
      rw [ih hrest]
    | missing hn' _ => cases hn.symm.trans hn'
  | missing hn _ ih =>
    cases h' with
    | node hn' _ => cases hn.symm.trans hn'
    | missing _ hrest => rw [ih hrest]

/-- Below a number, a walk comes to the holes of its tree in their order. -/
theorem exists_walk_of_unfolds (h : Unfolds p i t) (hrest : Walk p rest met) :
    ∃ below, Walk p (i :: rest) (below ++ met) ∧ p.faults below = t.holes := by
  induction h generalizing rest met with
  | @number i _ _ hn | @string i _ _ hn | @identifier i _ _ hn =>
    exact ⟨[i], .node hn hrest, faults_cons_of_node hn []⟩
  | @missing i hn => exact ⟨[i], .missing hn hrest, by simp [faults, hn, Expr.holes]⟩
  | @assign i _ _ _ _ hn _ ih | @print i _ _ _ hn _ ih | @wrap i _ _ _ _ hn _ ih =>
    obtain ⟨below, hwalk, hfaults⟩ := ih hrest
    exact ⟨i :: below, .node hn hwalk, (faults_cons_of_node hn below).trans hfaults⟩
  | @binary i _ _ _ _ _ _ hn _ _ ihl ihr =>
    obtain ⟨right, hwalk, hright⟩ := ihr hrest
    obtain ⟨left, hwalk, hleft⟩ := ihl hwalk
    refine ⟨i :: (left ++ right), ?_, ?_⟩
    · rw [List.cons_append, List.append_assoc]
      exact .node hn hwalk
    · rw [faults_cons_of_node hn, faults_append, hleft, hright, Expr.holes]

theorem exists_walk {ids : List ℕ} {trees : List (Expr Fault)}
    (h : List.Forall₂ (Unfolds p) ids trees) :
    ∃ met, Walk p ids met ∧ p.faults met = trees.flatMap Expr.holes := by
  induction h with
  | nil => exact ⟨[], .done, rfl⟩
  | cons ht _ ih =>
    obtain ⟨met, hwalk, hfaults⟩ := ih
    obtain ⟨below, hwalk, hbelow⟩ := exists_walk_of_unfolds ht hwalk
    exact ⟨below ++ met, hwalk, by rw [faults_append, hbelow, hfaults, List.flatMap_cons]⟩

def firstMissing? (p : Program) (met : List ℕ) : Option ℕ := met.find? fun i => p.nodes[i]?.isNone

theorem head?_faults (p : Program) (met : List ℕ) :
    (p.faults met).head? = (p.firstMissing? met).map Fault.missing := by
  rw [faults, firstMissing?, List.head?_map, List.head?_filter]

/-- A dump stops at the first number of the depth-first walk that leads to no node. An evaluation in
any environment comes to an end or stops at an error, or else at the same number as the dump; so it
never comes to such a number if there is a dump. -/
theorem dump_faults_where_evaluation_does (hp : p.Backward) (names : NameTable) :
    ∃ met, (∀ met', p.Walk p.body met' ↔ met' = met) ∧
      (∀ fault, p.dump names = .error fault ↔
        ∃ i, p.firstMissing? met = some i ∧ fault = .missing i) ∧
      ∀ env,
        (∀ fault, (p.evaluate names env).1 = .error (.hole fault) →
          p.dump names = .error fault) ∧
        ∀ text, p.dump names = .ok text →
          (∃ outputs, (p.evaluate names env).1 = .ok outputs) ∨
            ∃ e, (p.evaluate names env).1 = .error (.error e) := by
  obtain ⟨met, hwalk, hfaults⟩ := exists_walk (unfolds_unfold hp)
  have hdump : ∀ fault, p.dump names = .error fault ↔
      (p.unfold.flatMap Expr.holes).head? = some fault := fun fault => by
    rw [dump_eq, Expr.dump_eq]
    rcases p.unfold.flatMap Expr.holes with _ | ⟨reason, more⟩ <;> simp [Expr.unlessMissing]
  have honly : ∀ met', p.Walk p.body met' ↔ met' = met := fun met' =>
    ⟨hwalk.unique, fun h => h ▸ hwalk⟩
  refine ⟨met, honly, fun fault => ?_, fun env => ?_⟩
  · rw [hdump, ← hfaults, head?_faults, Option.map_eq_some_iff]
    simp only [eq_comm]
  have hmeets := Evaluation.meets_evaluate names p.unfold env
  rw [← evaluate_eq] at hmeets
  refine ⟨fun fault hfault => ?_, fun text htext => ?_⟩
  · rw [hfault] at hmeets
    exact (hdump fault).2 hmeets
  · rcases hrun : (p.evaluate names env).1 with (e | fault) | outputs
    · exact .inr ⟨e, rfl⟩
    · rw [hrun] at hmeets
      rw [(hdump fault).2 hmeets] at htext
      cases htext
    · exact .inl ⟨outputs, rfl⟩

/-- The lines are x = 1 and a printed sum whose right operand leads nowhere, before a statement that
leads nowhere either. -/
def danglingOperand : Program where
  nodes := #[⟨.number (Binary64.ofNat 1), ⟨4, 5⟩⟩, ⟨.assign ⟨0⟩ 0, ⟨0, 5⟩⟩,
    ⟨.binary .add 0 7, ⟨12, 17⟩⟩, ⟨.print 2, ⟨6, 17⟩⟩]
  body := [1, 3, 8]

theorem danglingOperand_stops_both :
    danglingOperand.Backward ∧
    (danglingOperand.evaluate NameTable.initial Environment.empty).1
      = .error (.hole (.missing 7)) ∧
    danglingOperand.dump NameTable.initial = .error (.missing 7) := by
  have hback : danglingOperand.Backward := by
    unfold Backward
    decide
  have hrun : (danglingOperand.evaluate NameTable.initial Environment.empty).1
      = .error (.hole (.missing 7)) := by decide +kernel
  obtain ⟨-, -, -, hstops⟩ := dump_faults_where_evaluation_does hback NameTable.initial
  exact ⟨hback, hrun, (hstops Environment.empty).1 _ hrun⟩

end Program

end PrefixLang
