import PrefixLang.Evaluation
import PrefixLang.Program.Layout
import Mathlib.Data.List.Basic
/-!
Programs with their numbers hidden: in the place of each stands the pattern that is no number, by
which can be divided. What evaluation does then is done by names and kinds of values alone, and
until a division by zero every run is such a run with its numbers put in. So two programs that
differ in numbers only show the same forms and fail alike: `errors_do_not_depend_on_numbers`.
-/

namespace PrefixLang

def Value.masked : Value → Value
  | .number _ => .number .nan
  | v => v

def Output.masked : Output → Output
  | .empty => .empty
  | .value v => .value v.masked
  | .keyword word v => .keyword word v.masked

namespace Expr

variable {ρ σ : Type}

def masked : Expr ρ → Expr ρ
  | number _ s => number .nan s
  | string t s => string t s
  | identifier x s => identifier x s
  | assign x e s => assign x e.masked s
  | print e s => print e.masked s
  | wrap w e s => wrap w e.masked s
  | binary op l r s => binary op l.masked r.masked s
  | hole reason => hole reason

@[simp] theorem span_masked (e : Expr ρ) : e.masked.span = e.span := by
  cases e <;> rfl

@[simp] theorem nodeCount_masked (e : Expr ρ) : e.masked.nodeCount = e.nodeCount := by
  induction e <;> simp_all [masked, nodeCount]

theorem mapHoles_injective {f : ρ → σ} (hf : Function.Injective f) :
    Function.Injective (mapHoles f) := by
  intro e e' h
  induction e generalizing e' with
  | number v s | string t s | identifier x s =>
    cases e' <;> cases h
    rfl
  | assign x e s ih =>
    cases e' with
    | assign y e' t =>
      obtain ⟨rfl, he, rfl⟩ := assign.inj h
      rw [ih he]
    | _ => cases h
  | print e s ih =>
    cases e' with
    | print e' t =>
      obtain ⟨he, rfl⟩ := print.inj h
      rw [ih he]
    | _ => cases h
  | wrap w e s ih =>
    cases e' with
    | wrap w' e' t =>
      obtain ⟨rfl, he, rfl⟩ := wrap.inj h
      rw [ih he]
    | _ => cases h
  | binary op l r s ihl ihr =>
    cases e' with
    | binary op' l' r' t =>
      obtain ⟨rfl, hl, hr, rfl⟩ := binary.inj h
      rw [ihl hl, ihr hr]
    | _ => cases h
  | hole reason =>
    cases e' with
    | hole reason' => rw [hf (hole.inj h)]
    | _ => cases h

end Expr

def NodeKind.masked : NodeKind → NodeKind
  | .number _ => .number .nan
  | kind => kind

/-- The same table with all numbers hidden. -/
def Program.masked (p : Program) : Program :=
  ⟨p.nodes.map fun node => ⟨node.kind.masked, node.span⟩, p.body⟩

namespace Program

theorem layout_masked (base : ℕ) (e : Expr Empty) : layout base e.masked
    = (layout base e).map fun node => ⟨node.kind.masked, node.span⟩ := by
  induction e generalizing base with
  | number v s | string t s | identifier x s => rfl
  | assign x e s ih | print e s ih | wrap w e s ih =>
    rw [Expr.masked, layout, layout, ih, Expr.nodeCount_masked, List.map_append]
    rfl
  | binary op l r s ihl ihr =>
    rw [Expr.masked, layout, layout, ihl, ihr, Expr.nodeCount_masked, Expr.nodeCount_masked,
      List.map_append, List.map_append]
    rfl
  | hole reason => exact reason.elim

theorem layoutAll_masked (base : ℕ) (forest : Forest) : layoutAll base (forest.map Expr.masked)
    = (layoutAll base forest).map fun node => ⟨node.kind.masked, node.span⟩ := by
  induction forest generalizing base with
  | nil => rfl
  | cons e rest ih =>
    rw [List.map_cons, layoutAll, layoutAll, layout_masked, Expr.nodeCount_masked, ih,
      List.map_append]

theorem roots_masked (base : ℕ) (forest : Forest) :
    roots base (forest.map Expr.masked) = roots base forest := by
  induction forest generalizing base with
  | nil => rfl
  | cons e rest ih => rw [List.map_cons, roots, roots, Expr.nodeCount_masked, ih]

theorem ofForest_masked (forest : Forest) :
    ofForest (forest.map Expr.masked) = (ofForest forest).masked := by
  rw [ofForest, ofForest, layoutAll_masked, roots_masked, masked, List.map_toArray]

theorem ofForest_injective : Function.Injective ofForest := by
  intro f g h
  have hunfold : (ofForest f).unfold = (ofForest g).unfold := by rw [h]
  rw [unfold_ofForest, unfold_ofForest] at hunfold
  exact List.map_injective_iff.2 (Expr.mapHoles_injective fun e => e.elim) hunfold

end Program

namespace Environment

/-- Whether bindings are those of another environment with numbers hidden. -/
def Masks (env hidden : Environment) : Prop :=
  ∀ x, hidden.lookup x = (env.lookup x).map Value.masked

theorem exists_masks (env : Environment) : ∃ hidden, env.Masks hidden := by
  refine ⟨⟨env.bindings.map fun _ v => v.masked⟩, fun x => ?_⟩
  rw [lookup, lookup, Std.TreeMap.getElem?_map]

theorem Masks.define {env hidden : Environment} (h : env.Masks hidden) (x : Name) (v : Value) :
    (env.define x v).Masks (hidden.define x v.masked) := by
  intro y
  rw [lookup_define, lookup_define, h y]
  split <;> rfl

end Environment

namespace Evaluation

variable {ρ α β : Type} {names : NameTable} {env hidden : Environment}

def DividesByZero (result : Except (Stop ρ) α) : Prop :=
  ∃ s, result = .error (.error ⟨.operand .divisionByZero, s⟩)

/-- Unless something is divided by zero, the second outcome is the first one with numbers hidden. -/
def Follows (mask : α → α) (r hidden : Outcome ρ α) : Prop :=
  DividesByZero r.1 ∨ hidden.1 = r.1.map mask ∧ r.2.Masks hidden.2

theorem Follows.andThen {mask : α → α} {mask' : β → β} {r r' : Outcome ρ α}
    {next next' : α → Environment → Outcome ρ β} (h : Follows mask r r')
    (hn : ∀ v {env hidden : Environment}, env.Masks hidden →
      Follows mask' (next v env) (next' (mask v) hidden)) :
    Follows mask' (andThen r next) (andThen r' next') := by
  obtain ⟨stop | v, env⟩ := r
  · rcases h with ⟨s, hs⟩ | ⟨hresult, hmasks⟩
    · obtain rfl := Except.error.inj hs
      exact .inl ⟨s, rfl⟩
    · obtain ⟨result', hidden⟩ := r'
      obtain rfl : result' = .error stop := hresult
      exact .inr ⟨rfl, hmasks⟩
  · rcases h with ⟨s, hs⟩ | ⟨hresult, hmasks⟩
    · cases hs
    · obtain ⟨result', hidden⟩ := r'
      obtain rfl : result' = .ok (mask v) := hresult
      exact hn v hmasks

theorem follows_operate (op : Operator) (leftSpan rightSpan : Span) (v w : Value)
    (h : env.Masks hidden) : Follows (ρ := ρ) Value.masked
      (operate op leftSpan rightSpan v w, env)
      (operate op leftSpan rightSpan v.masked w.masked, hidden) := by
  cases v with
  | string s | empty => exact .inr ⟨rfl, h⟩
  | number m =>
    cases w with
    | string s | empty => exact .inr ⟨rfl, h⟩
    | number n =>
      cases op with
      | add | sub | mul => exact .inr ⟨by rfl, h⟩
      | div =>
        have hdiv : (operate .div leftSpan rightSpan (.number m) (.number n) :
            Except (Stop ρ) Value) =
              if n.isZero then .error (.error ⟨.operand .divisionByZero, rightSpan⟩)
              else .ok (.number (m.div n)) := by
          rw [operate, Operator.apply]
          simp only [Value.number?, Operator.onNumbers]
          split <;> rfl
        by_cases hn : n.isZero
        · rw [if_pos hn] at hdiv
          exact .inl ⟨rightSpan, hdiv⟩
        · rw [if_neg hn] at hdiv
          rw [hdiv]
          exact .inr ⟨rfl, h⟩

theorem follows_value {e : Expr ρ} (h : env.Masks hidden) :
    Follows Value.masked (value names e env) (value names e.masked hidden) := by
  induction e generalizing env hidden with
  | number v s | string t s | hole reason => exact .inr ⟨rfl, h⟩
  | identifier x s =>
    refine .inr ⟨?_, ?_⟩
    · rw [Expr.masked, value, value, h x]
      cases env.lookup x <;> rfl
    · rw [Expr.masked, value, value, h x]
      cases env.lookup x <;> exact h
  | assign x e s ih =>
    refine (ih h).andThen ?_
    intro v env hidden h
    exact .inr ⟨rfl, h.define x v⟩
  | print e s ih | wrap w e s ih => exact ih h
  | binary op l r s ihl ihr =>
    rw [Expr.masked, value, value, Expr.span_masked, Expr.span_masked]
    refine (ihl h).andThen ?_
    intro v env hidden h
    refine (ihr h).andThen ?_
    intro w env hidden h
    exact follows_operate op _ _ v w h

theorem shows_masked (e : Expr ρ) (v : Value) : shows e.masked v.masked = (shows e v).masked := by
  cases e <;> cases v <;> rfl

/-- A run with hidden numbers shows what any run with numbers shows, but for the numbers, and fails
as it does. -/
theorem follows_evaluate (names : NameTable) (trees : List (Expr ρ)) (h : env.Masks hidden) :
    Follows (List.map Output.masked) (evaluate names trees env)
      (evaluate names (trees.map Expr.masked) hidden) := by
  induction trees generalizing env hidden with
  | nil =>
    rw [List.map_nil, evaluate, evaluate]
    exact .inr ⟨rfl, h⟩
  | cons e rest ih =>
    rw [List.map_cons, evaluate, evaluate]
    refine (follows_value h).andThen ?_
    intro v env hidden h
    refine (ih h).andThen ?_
    intro outputs env hidden h
    rw [shows_masked]
    exact .inr ⟨rfl, h⟩

/-- Results that differ in numbers only; errors do not differ at all. -/
inductive SameForm : Except (Stop Empty) (List Output) → Except (Stop Empty) (List Output) → Prop
  where
  | shown {xs ys} : xs.map Output.masked = ys.map Output.masked → SameForm (.ok xs) (.ok ys)
  | undefined (name s) : SameForm (.error (.error ⟨.undefinedIdentifier name, s⟩))
      (.error (.error ⟨.undefinedIdentifier name, s⟩))
  | notNumeric (op side found s) :
      SameForm (.error (.error ⟨.operand (.notNumeric op side found), s⟩))
        (.error (.error ⟨.operand (.notNumeric op side found), s⟩))

theorem sameForm_of_masked {r r' : Except (Stop Empty) (List Output)}
    (h : r.map (List.map Output.masked) = r'.map (List.map Output.masked))
    (hr : ¬DividesByZero r) : SameForm r r' := by
  cases r with
  | ok xs =>
    cases r' with
    | ok ys => exact .shown (Except.ok.inj h)
    | error stop => cases h
  | error stop =>
    cases r' with
    | ok ys => cases h
    | error stop' =>
      obtain rfl : stop = stop' := Except.error.inj h
      cases stop with
      | hole reason => exact reason.elim
      | error e =>
        obtain ⟨kind, s⟩ := e
        cases kind with
        | undefinedIdentifier name => exact .undefined name s
        | operand e =>
          cases e with
          | notNumeric op side found => exact .notNumeric op side found s
          | divisionByZero => exact absurd ⟨s, rfl⟩ hr

end Evaluation

namespace Expr

/-- Operators over number literals, and nothing else. -/
inductive Arithmetic : Expr Empty → Prop where
  | number (v s) : Arithmetic (.number v s)
  | binary (op s) {l r} : Arithmetic l → Arithmetic r → Arithmetic (.binary op l r s)

/-- A statement that is arithmetic, or arithmetic behind a keyword or an assigned name. -/
inductive Calculation : Expr Empty → Prop where
  | plain {e} : Arithmetic e → Calculation e
  | print (s) {e} : Arithmetic e → Calculation (.print e s)
  | wrap (w s) {e} : Arithmetic e → Calculation (.wrap w e s)
  | assign (x s) {e} : Arithmetic e → Calculation (.assign x e s)

end Expr

namespace Evaluation

variable (names : NameTable) (env : Environment)

theorem value_arithmetic {e : Expr Empty} (h : e.Arithmetic) :
    value names e.masked env = (.ok (.number .nan), env) := by
  induction h with
  | number v s => rfl
  | binary op s _ _ ihl ihr =>
    rw [Expr.masked, value, ihl, andThen, ihr, andThen]
    cases op <;> rfl

theorem value_calculation {e : Expr Empty} (h : e.Calculation) :
    ∃ v env', value names e.masked env = (.ok v, env') := by
  cases h with
  | plain he => exact ⟨_, _, value_arithmetic names env he⟩
  | print s he | wrap w s he =>
    rw [Expr.masked, value]
    exact ⟨_, _, value_arithmetic names env he⟩
  | assign x s he =>
    rw [Expr.masked, value, value_arithmetic names env he]
    exact ⟨_, _, rfl⟩

theorem evaluate_calculations {forest : Forest} (h : ∀ e ∈ forest, e.Calculation) :
    ∃ shown env', evaluate names (forest.map Expr.masked) env = (.ok shown, env') := by
  induction forest generalizing env with
  | nil => exact ⟨_, _, rfl⟩
  | cons e rest ih =>
    obtain ⟨v, env', hv⟩ := value_calculation names env (h e List.mem_cons_self)
    obtain ⟨shown, env'', hrest⟩ := ih env' fun e he => h e (List.mem_cons_of_mem _ he)
    rw [List.map_cons, evaluate, hv, andThen, hrest]
    exact ⟨_, _, rfl⟩

end Evaluation

open Evaluation

/-- Which errors there are does not depend on numbers, as long as nothing is divided by zero:
programs whose tables differ in numbers only, started with bindings that differ in numbers only,
show outputs of the same form or fail with the same error at the same place. Calculations over
number literals can therefore fail in no other way than by a division by zero. -/
theorem errors_do_not_depend_on_numbers (names : NameTable) :
    (∀ (f g : Forest) (env env' : Environment),
      (Program.ofForest f).masked = (Program.ofForest g).masked →
      (∀ x, (env.lookup x).map Value.masked = (env'.lookup x).map Value.masked) →
      ¬DividesByZero (evaluate names f env).1 → ¬DividesByZero (evaluate names g env').1 →
      SameForm (evaluate names f env).1 (evaluate names g env').1) ∧
    ∀ (f : Forest) (env : Environment), (∀ e ∈ f, e.Calculation) →
      (∃ shown, (evaluate names f env).1 = .ok shown) ∨ DividesByZero (evaluate names f env).1 := by
  constructor
  · intro f g env env' htable henv hf hg
    have hmasked : f.map Expr.masked = g.map Expr.masked := by
      apply Program.ofForest_injective
      rw [Program.ofForest_masked, Program.ofForest_masked, htable]
    obtain ⟨hidden, hmasks⟩ := env.exists_masks
    have hmasks' : env'.Masks hidden := fun x => (hmasks x).trans (henv x)
    -- Both runs are followed by the same run with hidden numbers.
    have hleft := (follows_evaluate names f hmasks).resolve_left hf
    have hright := (follows_evaluate names g hmasks').resolve_left hg
    rw [hmasked] at hleft
    exact sameForm_of_masked (hleft.1.symm.trans hright.1) hf
  · intro f env hcalc
    obtain ⟨hidden, hmasks⟩ := env.exists_masks
    obtain ⟨shown, env', hrun⟩ := evaluate_calculations names hidden hcalc
    rcases follows_evaluate names f hmasks with hzero | ⟨hresult, -⟩
    · exact .inr hzero
    · left
      rw [hrun] at hresult
      rcases hevaluate : (evaluate names f env).1 with stop | outputs
      · rw [hevaluate] at hresult
        cases hresult
      · exact ⟨outputs, rfl⟩

/-- `x = n print / x 2 + x "a"`, where `"a"` and `x` are the first two names. -/
def mixedSum (n : ℕ) : Forest :=
  [.assign ⟨7⟩ (.number (.ofNat n) ⟨4, 5⟩) ⟨0, 5⟩,
    .print (.binary .div (.identifier ⟨7⟩ ⟨14, 15⟩) (.number (.ofNat 2) ⟨16, 17⟩) ⟨12, 17⟩) ⟨6, 17⟩,
    .binary .add (.identifier ⟨7⟩ ⟨20, 21⟩) (.string ⟨6⟩ ⟨22, 25⟩) ⟨18, 25⟩]

theorem mixedSums_fail_alike :
    (Program.ofForest (mixedSum 0)).masked = (Program.ofForest (mixedSum 3)).masked ∧
    SameForm (evaluate NameTable.initial (mixedSum 0) .empty).1
      (evaluate NameTable.initial (mixedSum 3) .empty).1 := by
  have htable : (Program.ofForest (mixedSum 0)).masked
      = (Program.ofForest (mixedSum 3)).masked := by decide +kernel
  have hrun : ∀ n ∈ [0, 3], (evaluate NameTable.initial (mixedSum n) .empty).1
      = .error (.error ⟨.operand (.notNumeric .add .right "string"), ⟨22, 25⟩⟩) := by decide +kernel
  have hzero : ∀ n ∈ [0, 3], ¬DividesByZero (evaluate NameTable.initial (mixedSum n) .empty).1 := by
    rintro n hn ⟨s, hs⟩
    rw [hrun n hn] at hs
    cases hs
  exact ⟨htable, (errors_do_not_depend_on_numbers NameTable.initial).1 _ _ _ _ htable
    (fun _ => rfl) (hzero 0 (by decide)) (hzero 3 (by decide))⟩

end PrefixLang
