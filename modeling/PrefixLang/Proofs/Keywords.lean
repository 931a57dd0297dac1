import PrefixLang.Proofs.BigStep
/-!
Keywords inside of statements. They only hand on the value behind them, so leaving them out changes
nothing but the places of errors; only a keyword at the root of a statement is shown:
`inner_keywords_are_transparent`.
-/

namespace PrefixLang

namespace Expr

/-- The second tree is the first one without some of its keywords. It may stand anywhere. -/
inductive Sheds : Expr Empty → Expr Empty → Prop where
  | number (v s t) : Sheds (.number v s) (.number v t)
  | string (x s t) : Sheds (.string x s) (.string x t)
  | identifier (x s t) : Sheds (.identifier x s) (.identifier x t)
  | assign (x s t) {e e'} : Sheds e e' → Sheds (.assign x e s) (.assign x e' t)
  | print (s t) {e e'} : Sheds e e' → Sheds (.print e s) (.print e' t)
  | wrap (w s t) {e e'} : Sheds e e' → Sheds (.wrap w e s) (.wrap w e' t)
  | binary (op s t) {l l' r r'} : Sheds l l' → Sheds r r' →
      Sheds (.binary op l r s) (.binary op l' r' t)
  | dropPrint (s) {e e'} : Sheds e e' → Sheds (.print e s) e'
  | dropWrap (w s) {e e'} : Sheds e e' → Sheds (.wrap w e s) e'

/-- The second statement is the first one without some of its keywords, but for one at its root. -/
inductive ShedsInside : Expr Empty → Expr Empty → Prop where
  | print (s t) {e e'} : Sheds e e' → ShedsInside (.print e s) (.print e' t)
  | wrap (w s t) {e e'} : Sheds e e' → ShedsInside (.wrap w e s) (.wrap w e' t)
  | plain {e e'} : e.keyword? = none → Sheds e e' → ShedsInside e e'

variable {e e' : Expr Empty}

theorem ShedsInside.sheds (h : ShedsInside e e') : Sheds e e' := by
  cases h with
  | print s t h => exact .print s t h
  | wrap w s t h => exact .wrap w s t h
  | plain _ h => exact h

theorem ShedsInside.keyword? (h : ShedsInside e e') : e'.keyword? = e.keyword? := by
  cases h with
  | print s t _ | wrap w s t _ => rfl
  | plain hroot h =>
    cases h with
    | number | string | identifier | assign | binary => rfl
    | print | wrap | dropPrint | dropWrap => cases hroot

end Expr

def Output.keyword? : Output → Option String
  | .keyword word _ => some word
  | .empty | .value _ => none

namespace Evaluation

variable {α β : Type} {names : NameTable} {e e' : Expr Empty}

def reasonOf (result : Except (Stop Empty) α) : Except EvalErrorKind α :=
  result.mapError fun stop => stop.toError.kind

/-- Two evaluations come to the same, but for the place of an error. -/
structure SameBesidesPlaces (r r' : Outcome Empty α) : Prop where
  result : reasonOf r'.1 = reasonOf r.1
  env : r'.2 = r.2

theorem SameBesidesPlaces.andThen {r r' : Outcome Empty α}
    {next next' : α → Environment → Outcome Empty β} (h : SameBesidesPlaces r r')
    (hn : ∀ v env, SameBesidesPlaces (next v env) (next' v env)) :
    SameBesidesPlaces (andThen r next) (andThen r' next') := by
  obtain ⟨result, env⟩ := r
  obtain ⟨result', env'⟩ := r'
  obtain ⟨hresult, henv⟩ := h
  obtain rfl : env' = env := henv
  cases result with
  | ok v =>
    cases result' with
    | ok w =>
      obtain rfl : w = v := Except.ok.inj hresult
      exact hn w env'
    | error stop => cases hresult
  | error stop =>
    cases result' with
    | ok w => cases hresult
    | error stop' => exact ⟨congrArg Except.error (Except.error.inj hresult), rfl⟩

theorem reasonOf_operate (op : Operator) (s t s' t' : Span) (v w : Value) :
    reasonOf (operate op s' t' v w) = reasonOf (operate op s t v w) := by
  rw [operate, operate]
  rcases op.apply v w with error | result
  · rfl
  · rfl

theorem sameBesidesPlaces_value (h : e.Sheds e') (env : Environment) :
    SameBesidesPlaces (value names e env) (value names e' env) := by
  induction h generalizing env with
  | number v s t | string x s t => exact ⟨rfl, rfl⟩
  | identifier x s t =>
    rw [value, value]
    rcases env.lookup x with _ | v
    · exact ⟨rfl, rfl⟩
    · exact ⟨rfl, rfl⟩
  | assign x s t _ ih =>
    rw [value, value]
    apply (ih env).andThen
    intro v env
    exact ⟨rfl, rfl⟩
  | print s t _ ih | wrap w s t _ ih => exact ih env
  | dropPrint s _ ih | dropWrap w s _ ih => exact ih env
  | binary op s t _ _ ihl ihr =>
    rw [value, value]
    apply (ihl env).andThen
    intro v env
    apply (ihr env).andThen
    intro w env
    exact ⟨reasonOf_operate op _ _ _ _ v w, rfl⟩

theorem shows_eq_of_keyword? (h : e'.keyword? = e.keyword?) : shows e' = shows e := by
  funext v
  rcases hk : e.keyword? with _ | word
  · rw [shows_of_no_keyword hk, shows_of_no_keyword (h.trans hk)]
  · rw [shows_of_keyword hk, shows_of_keyword (h.trans hk)]

theorem sameBesidesPlaces_evaluate (names : NameTable) {forest forest' : Forest}
    (h : List.Forall₂ Expr.ShedsInside forest forest') (env : Environment) :
    SameBesidesPlaces (evaluate names forest env) (evaluate names forest' env) := by
  induction h generalizing env with
  | nil => exact ⟨rfl, rfl⟩
  | cons he _ ih =>
    rw [evaluate, evaluate, shows_eq_of_keyword? he.keyword?]
    apply (sameBesidesPlaces_value he.sheds env).andThen
    intro v env
    apply (ih env).andThen
    intro outputs env
    exact ⟨rfl, rfl⟩

theorem keyword?_shows (e : Expr Empty) (v : Value) :
    (shows e v).keyword? = e.keyword? ∧ shows e v ≠ .value .empty := by
  cases e <;> cases v <;> simp [shows, Output.ofValue, Output.keyword?, Expr.keyword?]

theorem keywords_of_evaluate {forest : Forest} {env : Environment} {outputs : List Output}
    (h : (evaluate names forest env).1 = .ok outputs) :
    outputs.map Output.keyword? = forest.map Expr.keyword? ∧ .value .empty ∉ outputs := by
  induction forest generalizing env outputs with
  | nil =>
    rw [evaluate] at h
    cases h
    exact ⟨rfl, List.not_mem_nil⟩
  | cons e rest ih =>
    rw [evaluate] at h
    rcases hv : value names e env with ⟨stop | v, env⟩
    · rw [hv] at h
      cases h
    rw [hv, andThen] at h
    rcases hrest : evaluate names rest env with ⟨stop | shown, env'⟩
    · rw [hrest] at h
      cases h
    · rw [hrest] at h
      cases h
      have hshown : (evaluate names rest env).1 = .ok shown := by rw [hrest]
      obtain ⟨hkeywords, hempty⟩ := ih hshown
      obtain ⟨hkeyword, hvalue⟩ := keyword?_shows e v
      constructor
      · rw [List.map_cons, List.map_cons, hkeyword, hkeywords]
      · rw [List.mem_cons, not_or]
        exact ⟨hvalue.symm, hempty⟩

end Evaluation

open Evaluation

/-- Leaving keywords out inside of statements, as many of them as one likes, changes neither what is
shown nor the bindings afterwards, nor what goes wrong if something does. Each output has the
keyword at the root of its statement, if there is one, and none is an empty value on its own. -/
theorem inner_keywords_are_transparent (names : NameTable) (env : Environment)
    {forest forest' : Forest} (h : List.Forall₂ Expr.ShedsInside forest forest') :
    (evaluate names forest' env).2 = (evaluate names forest env).2 ∧
      reasonOf (evaluate names forest' env).1 = reasonOf (evaluate names forest env).1 ∧
      ∀ outputs, (evaluate names forest env).1 = .ok outputs →
        outputs.map Output.keyword? = forest.map Expr.keyword? ∧ .value .empty ∉ outputs := by
  obtain ⟨hresult, henv⟩ := sameBesidesPlaces_evaluate names h env
  exact ⟨henv, hresult, fun outputs => keywords_of_evaluate⟩

/-- `print x = Haley 1 / print "a" x` as statements. -/
def wordyForest : Forest :=
  [.print (.assign ⟨6⟩ (.wrap .haley (.number (Binary64.ofNat 1) ⟨16, 17⟩) ⟨10, 17⟩) ⟨6, 17⟩)
      ⟨0, 17⟩,
    .binary .div (.print (.string ⟨7⟩ ⟨26, 29⟩) ⟨20, 29⟩) (.identifier ⟨6⟩ ⟨30, 31⟩) ⟨18, 31⟩]

/-- `print x = 1 / "a" x` as statements. -/
def terseForest : Forest :=
  [.print (.assign ⟨6⟩ (.number (Binary64.ofNat 1) ⟨10, 11⟩) ⟨6, 11⟩) ⟨0, 11⟩,
    .binary .div (.string ⟨7⟩ ⟨14, 17⟩) (.identifier ⟨6⟩ ⟨18, 19⟩) ⟨12, 19⟩]

/-- The division fails for its left operand in either case, and `x` is bound by then. -/
theorem terseForest_fails_as_wordyForest :
    List.Forall₂ Expr.ShedsInside wordyForest terseForest ∧
    (evaluate NameTable.initial terseForest Environment.empty).2.lookup ⟨6⟩
      = some (.number (Binary64.ofNat 1)) ∧
    reasonOf (evaluate NameTable.initial terseForest Environment.empty).1
      = .error (.operand (.notNumeric .div .left "string")) := by
  have hsheds : List.Forall₂ Expr.ShedsInside wordyForest terseForest := by
    refine .cons (.print _ _ ?_) (.cons (.plain rfl ?_) .nil)
    · exact .assign _ _ _ (.dropWrap _ _ (.number _ _ _))
    · exact .binary _ _ _ (.dropPrint _ (.string _ _ _)) (.identifier _ _ _)
  obtain ⟨henv, hreason, -⟩ :=
    inner_keywords_are_transparent NameTable.initial Environment.empty hsheds
  refine ⟨hsheds, ?_, ?_⟩
  · rw [henv]
    decide +kernel
  · rw [hreason]
    decide +kernel

end PrefixLang
