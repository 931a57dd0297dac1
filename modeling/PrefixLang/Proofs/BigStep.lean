import PrefixLang.Program.Evaluation
import PrefixLang.Program.Parsing
import PrefixLang.Proofs.Unfolding
/-!
The rules of evaluation. `Yields`, `Shows` and `Runs` say what expressions, statements and programs
come to, step by step from left to right and with the bindings that each step leaves to the next.
`table_runs_by_the_rules` says that a node table is evaluated just so, number by number.
-/

namespace PrefixLang

def Operator.ofNumbers : Operator → Binary64 → Binary64 → Binary64
  | .add => Binary64.add
  | .sub => Binary64.sub
  | .mul => Binary64.mul
  | .div => Binary64.div

def Expr.keyword? {ρ : Type} : Expr ρ → Option String
  | .print _ _ => some "print"
  | .wrap w _ _ => some w.word
  | _ => none

namespace Evaluation

variable {ρ : Type}

/-- Both operands have their values when an operator is applied: then the left one is checked, then
the right one, and last the divisor. -/
inductive Applies (op : Operator) (leftSpan rightSpan : Span) :
    Value → Value → Except EvalError Value → Prop where
  | left {v w} : (∀ a, v ≠ .number a) →
      Applies op leftSpan rightSpan v w
        (.error ⟨.operand (.notNumeric op .left v.typeName), leftSpan⟩)
  | right {a w} : (∀ b, w ≠ .number b) → Applies op leftSpan rightSpan (.number a) w
      (.error ⟨.operand (.notNumeric op .right w.typeName), rightSpan⟩)
  | zero {a b} : op = .div → b.isZero = true → Applies op leftSpan rightSpan (.number a) (.number b)
      (.error ⟨.operand .divisionByZero, rightSpan⟩)
  | numbers {a b} : (op = .div → b.isZero = false) →
      Applies op leftSpan rightSpan (.number a) (.number b) (.ok (.number (op.ofNumbers a b)))

/-- The value or the first error of an expression, and the bindings it leaves in either case. -/
inductive Yields (names : NameTable) :
    Expr ρ → Environment → Except EvalError Value → Environment → Prop where
  | number (v s env) : Yields names (.number v s) env (.ok (.number v)) env
  | string (t s env) : Yields names (.string t s) env (.ok (.string (names.lookup t))) env
  | bound (s) {x v env} : env.lookup x = some v → Yields names (.identifier x s) env (.ok v) env
  | unbound (s) {x env} : env.lookup x = none →
      Yields names (.identifier x s) env (.error ⟨.undefinedIdentifier (names.lookup x), s⟩) env
  | assign (x s) {e v env env'} : Yields names e env (.ok v) env' →
      Yields names (.assign x e s) env (.ok .empty) (env'.define x v)
  | assignStops (x s) {e error env env'} : Yields names e env (.error error) env' →
      Yields names (.assign x e s) env (.error error) env'
  | print (s) {e result env env'} : Yields names e env result env' →
      Yields names (.print e s) env result env'
  | wrap (w s) {e result env env'} : Yields names e env result env' →
      Yields names (.wrap w e s) env result env'
  | binary (op s) {l r v w result env env' env''} : Yields names l env (.ok v) env' →
      Yields names r env' (.ok w) env'' → Applies op l.span r.span v w result →
      Yields names (.binary op l r s) env result env''
  | leftStops (op r s) {l error env env'} : Yields names l env (.error error) env' →
      Yields names (.binary op l r s) env (.error error) env'
  | rightStops (op s) {l r v error env env' env''} : Yields names l env (.ok v) env' →
      Yields names r env' (.error error) env'' →
      Yields names (.binary op l r s) env (.error error) env''

/-- What a statement shows: the keyword at its root with the value, or else the value alone, unless
it is the empty one. -/
inductive Shows (names : NameTable) :
    Expr ρ → Environment → Except EvalError Output → Environment → Prop where
  | keyword {e word v env env'} : e.keyword? = some word → Yields names e env (.ok v) env' →
      Shows names e env (.ok (.keyword word v)) env'
  | value {e v env env'} : e.keyword? = none → v ≠ .empty → Yields names e env (.ok v) env' →
      Shows names e env (.ok (.value v)) env'
  | empty {e env env'} : e.keyword? = none → Yields names e env (.ok .empty) env' →
      Shows names e env (.ok .empty) env'
  | stops {e error env env'} : Yields names e env (.error error) env' →
      Shows names e env (.error error) env'

/-- The statements of a program one after the other, up to the first that fails. -/
inductive Runs (names : NameTable) :
    List (Expr ρ) → Environment → Except EvalError (List Output) → Environment → Prop where
  | done (env) : Runs names [] env (.ok []) env
  | cons {e rest output outputs env env' env''} : Shows names e env (.ok output) env' →
      Runs names rest env' (.ok outputs) env'' →
      Runs names (e :: rest) env (.ok (output :: outputs)) env''
  | stops (rest) {e error env env'} : Shows names e env (.error error) env' →
      Runs names (e :: rest) env (.error error) env'
  | stopsLater {e rest output error env env' env''} : Shows names e env (.ok output) env' →
      Runs names rest env' (.error error) env'' → Runs names (e :: rest) env (.error error) env''

variable {names : NameTable}

theorem operate_of_applies {op : Operator} {s t : Span} {v w : Value}
    {result : Except EvalError Value} (h : Applies op s t v w result) :
    (operate op s t v w : Except (Stop ρ) Value) = result.mapError .error := by
  cases h with
  | left hv =>
    cases v with
    | number a => exact absurd rfl (hv a)
    | _ => rfl
  | right hw =>
    cases w with
    | number b => exact absurd rfl (hw b)
    | _ => rfl
  | zero ho hb =>
    subst ho
    simp [operate, Operator.apply, Value.number?, Operator.onNumbers, hb, Except.map,
      Except.mapError, atOperand, OperandError.side]
  | @numbers a b hb =>
    cases op with
    | div =>
      simp [operate, Operator.apply, Value.number?, Operator.onNumbers, hb rfl, Except.map,
        Except.mapError, Operator.ofNumbers]
    | _ => rfl

theorem exists_applies (op : Operator) (s t : Span) (v w : Value) :
    ∃ result, Applies op s t v w result := by
  by_cases hv : ∃ a, v = .number a
  · obtain ⟨a, rfl⟩ := hv
    by_cases hw : ∃ b, w = .number b
    · obtain ⟨b, rfl⟩ := hw
      by_cases hz : op = .div ∧ b.isZero = true
      · exact ⟨_, .zero hz.1 hz.2⟩
      · exact ⟨_, .numbers fun ho => by simpa [ho] using hz⟩
    · exact ⟨_, .right fun b hb => hw ⟨b, hb⟩⟩
  · exact ⟨_, .left fun a ha => hv ⟨a, ha⟩⟩

theorem value_of_yields {e : Expr ρ} {env env' : Environment} {result : Except EvalError Value}
    (h : Yields names e env result env') :
    value names e env = (result.mapError .error, env') := by
  induction h with
  | number | string => rfl
  | bound s hx | unbound s hx => rw [value, hx]; rfl
  | assign x s _ ih | assignStops x s _ ih => rw [value, ih]; rfl
  | print s _ ih | wrap w s _ ih => rw [value, ih]
  | binary op s _ _ ha ihl ihr =>
    rw [value, ihl]
    simp only [Except.mapError, andThen]
    rw [ihr]
    simp only [Except.mapError, operate_of_applies ha]
  | leftStops op r s _ ih => rw [value, ih]; rfl
  | rightStops op s _ _ ihl ihr =>
    rw [value, ihl]
    simp only [Except.mapError, andThen]
    rw [ihr]
    rfl

theorem exists_yields (names : NameTable) {e : Expr ρ} (h : e.holes = []) (env : Environment) :
    ∃ result env', Yields names e env result env' := by
  induction e generalizing env with
  | number v s => exact ⟨_, _, .number v s env⟩
  | string t s => exact ⟨_, _, .string t s env⟩
  | identifier x s =>
    rcases hx : env.lookup x with _ | v
    · exact ⟨_, _, .unbound s hx⟩
    · exact ⟨_, _, .bound s hx⟩
  | assign x e s ih =>
    obtain ⟨error | v, env', he⟩ := ih h env
    · exact ⟨_, _, .assignStops x s he⟩
    · exact ⟨_, _, .assign x s he⟩
  | print e s ih =>
    obtain ⟨result, env', he⟩ := ih h env
    exact ⟨_, _, .print s he⟩
  | wrap w e s ih =>
    obtain ⟨result, env', he⟩ := ih h env
    exact ⟨_, _, .wrap w s he⟩
  | binary op l r s ihl ihr =>
    obtain ⟨hl, hr⟩ := List.append_eq_nil_iff.1 h
    obtain ⟨error | v, env', hv⟩ := ihl hl env
    · exact ⟨_, _, .leftStops op r s hv⟩
    obtain ⟨error | w, env'', hw⟩ := ihr hr env'
    · exact ⟨_, _, .rightStops op s hv hw⟩
    obtain ⟨result, ha⟩ := exists_applies op l.span r.span v w
    exact ⟨_, _, .binary op s hv hw ha⟩
  | hole reason => cases h

theorem shows_of_keyword {e : Expr ρ} {word : String} (h : e.keyword? = some word) (v : Value) :
    shows e v = .keyword word v := by
  cases e <;> simp only [Expr.keyword?, Option.some.injEq, reduceCtorEq] at h <;> subst h <;> rfl

theorem shows_of_no_keyword {e : Expr ρ} (h : e.keyword? = none) (v : Value) :
    shows e v = if v = .empty then .empty else .value v := by
  cases e with
  | print | wrap => cases h
  | _ => cases v <;> rfl

theorem value_of_shows {e : Expr ρ} {env env' : Environment} {result : Except EvalError Output}
    (h : Shows names e env result env') :
    (andThen (value names e env) fun v env => (.ok (shows e v), env))
      = (result.mapError .error, env') := by
  cases h with
  | keyword hk he => rw [value_of_yields he, ← shows_of_keyword hk]; rfl
  | value hk hv he =>
    have hs := shows_of_no_keyword hk
    rw [value_of_yields he]
    simp [andThen, Except.mapError, hs, hv]
  | empty hk he =>
    have hs := shows_of_no_keyword hk
    rw [value_of_yields he]
    simp [andThen, Except.mapError, hs]
  | stops he => rw [value_of_yields he]; rfl

theorem exists_shows (names : NameTable) {e : Expr ρ} (h : e.holes = []) (env : Environment) :
    ∃ result env', Shows names e env result env' := by
  obtain ⟨error | v, env', he⟩ := exists_yields names h env
  · exact ⟨_, _, .stops he⟩
  rcases hk : e.keyword? with _ | word
  · by_cases hv : v = .empty
    · exact ⟨_, _, .empty hk (hv ▸ he)⟩
    · exact ⟨_, _, .value hk hv he⟩
  · exact ⟨_, _, .keyword hk he⟩

theorem evaluate_of_runs {trees : List (Expr ρ)} {env env' : Environment}
    {result : Except EvalError (List Output)} (h : Runs names trees env result env') :
    evaluate names trees env = (result.mapError .error, env') := by
  have hcons : ∀ (e : Expr ρ) rest env, evaluate names (e :: rest) env =
      andThen (andThen (value names e env) fun v env => (.ok (shows e v), env)) fun output env =>
        andThen (evaluate names rest env) fun outputs env => (.ok (output :: outputs), env) := by
    intro e rest env
    rw [evaluate, andThen_assoc]
    rfl
  induction h with
  | done env => rfl
  | cons he _ ih =>
    rw [hcons, value_of_shows he]
    simp only [Except.mapError, andThen]
    rw [ih]
    rfl
  | stops rest he => rw [hcons, value_of_shows he]; rfl
  | stopsLater he _ ih =>
    rw [hcons, value_of_shows he]
    simp only [Except.mapError, andThen]
    rw [ih]
    rfl

theorem exists_runs (names : NameTable) {trees : List (Expr ρ)} (h : ∀ e ∈ trees, e.holes = [])
    (env : Environment) :
    ∃ result env', Runs names trees env result env' := by
  induction trees generalizing env with
  | nil => exact ⟨_, _, .done env⟩
  | cons e rest ih =>
    obtain ⟨error | output, env', he⟩ := exists_shows names (h e List.mem_cons_self) env
    · exact ⟨_, _, .stops rest he⟩
    obtain ⟨error | outputs, env'', hrest⟩ := ih (fun e he => h e (List.mem_cons_of_mem _ he)) env'
    · exact ⟨_, _, .stopsLater he hrest⟩
    · exact ⟨_, _, .cons he hrest⟩

theorem Runs.unique {trees : List (Expr ρ)} {env env₁ env₂ : Environment}
    {result₁ result₂ : Except EvalError (List Output)} (h : Runs names trees env result₁ env₁)
    (k : Runs names trees env result₂ env₂) : result₂ = result₁ ∧ env₂ = env₁ := by
  have hsame := (evaluate_of_runs k).symm.trans (evaluate_of_runs h)
  obtain ⟨hresult, henv⟩ := Prod.mk.inj hsame
  refine ⟨?_, henv⟩
  cases result₁ <;> cases result₂ <;> simp_all [Except.mapError]

end Evaluation

namespace Program

open Evaluation

/-- A table without loops and without numbers that lead nowhere stands for one list of trees, and to
evaluate it is to do what the rules say of these trees, which is one result and one final state of
the bindings. Tables that are filled from tokens are such tables. -/
theorem table_runs_by_the_rules :
    (∀ tokens p, parseProgram tokens = .ok p → p.Descending) ∧
    ∀ p : Program, p.Descending →
      List.Forall₂ (Unfolds p) p.body p.unfold ∧
      (∀ trees, List.Forall₂ (Unfolds p) p.body trees → trees = p.unfold) ∧
      ∀ names env, ∃ result env', p.evaluate names env = (result.mapError .error, env') ∧
        Runs names p.unfold env result env' ∧
        ∀ result' env'', Runs names p.unfold env result' env'' →
          result' = result ∧ env'' = env' := by
  constructor
  · intro tokens p h
    obtain ⟨forest, -, rfl⟩ := exists_forest_of_parseProgram h
    exact descending_ofForest forest
  · intro p hp
    have hunfold := unfolds_unfold hp.backward
    refine ⟨hunfold, fun trees h => unfolds_unique hunfold h, ?_⟩
    intro names env
    obtain ⟨result, env', hrun⟩ := exists_runs names hp.holes_unfold env
    refine ⟨result, env', ?_, hrun, fun _ _ h => hrun.unique h⟩
    rw [evaluate_eq]
    exact evaluate_of_runs hrun

/-- `+ (x = + x 1) (x = + x 1)` with one node for both operands. -/
def sharedOperand : Program :=
  ⟨#[⟨.identifier ⟨6⟩, ⟨5, 6⟩⟩, ⟨.number (Binary64.ofNat 1), ⟨7, 8⟩⟩, ⟨.binary .add 0 1, ⟨3, 8⟩⟩,
    ⟨.assign ⟨6⟩ 2, ⟨1, 8⟩⟩, ⟨.binary .add 3 3, ⟨0, 8⟩⟩], [4]⟩

/-- The shared node runs twice, and both bindings outlast the error about the left operand. -/
theorem sharedOperand_runs_twice :
    sharedOperand.Descending ∧ ∃ env',
      sharedOperand.evaluate NameTable.initial
          (Environment.empty.define ⟨6⟩ (.number (Binary64.ofNat 1)))
        = (.error (.error ⟨.operand (.notNumeric .add .left "empty value"), ⟨1, 8⟩⟩), env') ∧
      Runs NameTable.initial sharedOperand.unfold
        (Environment.empty.define ⟨6⟩ (.number (Binary64.ofNat 1)))
        (.error ⟨.operand (.notNumeric .add .left "empty value"), ⟨1, 8⟩⟩) env' ∧
      env'.lookup ⟨6⟩ = some (.number (Binary64.ofNat 3)) := by
  have hp : sharedOperand.Descending := ⟨by decide, by decide⟩
  obtain ⟨-, -, hrun⟩ := table_runs_by_the_rules.2 sharedOperand hp
  obtain ⟨result, env', heq, hruns, -⟩ := hrun NameTable.initial
    (Environment.empty.define ⟨6⟩ (.number (Binary64.ofNat 1)))
  have hresult : (sharedOperand.evaluate NameTable.initial
      (Environment.empty.define ⟨6⟩ (.number (Binary64.ofNat 1)))).1
      = .error (.error ⟨.operand (.notNumeric .add .left "empty value"), ⟨1, 8⟩⟩) := by
    decide +kernel
  have hx : (sharedOperand.evaluate NameTable.initial
      (Environment.empty.define ⟨6⟩ (.number (Binary64.ofNat 1)))).2.lookup ⟨6⟩
      = some (.number (Binary64.ofNat 3)) := by
    decide +kernel
  rw [heq] at hresult hx
  cases result with
  | error e =>
    obtain rfl : e = _ := by simpa [Except.mapError] using hresult
    exact ⟨hp, env', heq, hruns, hx⟩
  | ok outputs => cases hresult

end Program

end PrefixLang
