import PrefixLang.Failure
import PrefixLang.Evaluation
import PrefixLang.Proofs.Descent
import PrefixLang.Proofs.NameTable
/-!
Other names and other places. Reading treats names as they come and places as they merge, so tokens
with other names and other places are read as the same trees with these names and places. Evaluation
gives the same values for them, as long as the names are spelled alike and bound alike.
-/

namespace PrefixLang

def Span.shift (offset : ℕ) (s : Span) : Span := ⟨s.start + offset, s.stop + offset⟩

/-- Moved places merge as they did before. -/
def Span.Coherent (g : Span → Span) : Prop := ∀ s t, g (s.merge t) = (g s).merge (g t)

theorem Span.coherent_id : Coherent id := fun _ _ => rfl

theorem Span.coherent_shift (offset : ℕ) : Coherent (shift offset) := by
  intro s t
  simp only [shift, merge, Nat.add_min_add_right, Nat.add_max_add_right]

@[simp] theorem TokenKind.displayName_map {τ σ : Type} (f : τ → σ) (kind : TokenKind τ) :
    (kind.map f).displayName = kind.displayName := by
  cases kind <;> rfl

theorem TokenKind.map_eq_map_iff {τ σ : Type} {f : τ → σ} {kind kind' : TokenKind τ}
    (h : kind'.contents? = none) : kind.map f = kind'.map f ↔ kind = kind' := by
  cases kind' <;> cases kind <;> simp_all [TokenKind.map, TokenKind.contents?]

namespace Expr

variable {ρ : Type}

def map (f : Name → Name) (g : Span → Span) : Expr ρ → Expr ρ
  | number v s => number v (g s)
  | string t s => string (f t) (g s)
  | identifier x s => identifier (f x) (g s)
  | assign x e s => assign (f x) (e.map f g) (g s)
  | print e s => print (e.map f g) (g s)
  | wrap w e s => wrap w (e.map f g) (g s)
  | binary op l r s => binary op (l.map f g) (r.map f g) (g s)
  | hole reason => hole reason

theorem map_id (e : Expr ρ) : e.map id id = e := by
  induction e <;> simp_all [map]

theorem span_map (f : Name → Name) (g : Span → Span) (e : Expr Empty) :
    (e.map f g).span = g e.span := by
  cases e with
  | hole reason => exact reason.elim
  | _ => rfl

def names : Expr ρ → List Name
  | number _ _ | hole _ => []
  | string x _ | identifier x _ => [x]
  | assign x e _ => x :: e.names
  | print e _ | wrap _ e _ => e.names
  | binary _ l r _ => l.names ++ r.names

end Expr

def LexError.map (g : Span → Span) (e : LexError) : LexError := ⟨e.kind, g e.span⟩

def ParseErrorKind.map (g : Span → Span) : ParseErrorKind → ParseErrorKind
  | .unclosedParen found s => .unclosedParen found (g s)
  | kind => kind

def ParseError.map (g : Span → Span) (e : ParseError) : ParseError := ⟨e.kind.map g, g e.span⟩

def EvalError.map (g : Span → Span) (e : EvalError) : EvalError := ⟨e.kind, g e.span⟩

def Failure.map (g : Span → Span) : Failure → Failure
  | .lex e => .lex (e.map g)
  | .parse e => .parse (e.map g)
  | .eval e => .eval (e.map g)

theorem Failure.told_map (g : Span → Span) (failure : Failure) :
    (failure.map g).message = failure.message ∧ (failure.map g).code = failure.code ∧
      (failure.map g).phase = failure.phase ∧ (failure.map g).span = g failure.span := by
  cases failure with
  | lex e | eval e => exact ⟨rfl, rfl, rfl, rfl⟩
  | parse e =>
    obtain ⟨kind, s⟩ := e
    cases kind <;> exact ⟨rfl, rfl, rfl, rfl⟩

def Stop.map {ρ : Type} (g : Span → Span) : Stop ρ → Stop ρ
  | .error e => .error (e.map g)
  | .hole reason => .hole reason

theorem ParseError.map_id (e : ParseError) : e.map id = e := by
  obtain ⟨kind, s⟩ := e
  cases kind <;> rfl

theorem Stop.map_id {ρ : Type} (stop : Stop ρ) : stop.map id = stop := by
  cases stop <;> rfl

namespace Forest

variable {f : Name → Name} {g : Span → Span} {stop : Span}

theorem unclosed_map (paren : Span) (found : Token Name) :
    unclosed (g paren) (found.map f g) = (unclosed paren found).map g := by
  simp [unclosed, ParseError.map, ParseErrorKind.map, Token.map]

theorem refusal?_map (kind : TokenKind Name) :
    refusal? (kind.map f) = (refusal? kind).map (ParseErrorKind.map g) := by
  cases kind <;> rfl

theorem noAssignment_map {rest : List (Token Name)} (h : NoAssignment rest) :
    NoAssignment (rest.map (Token.map f g)) := by
  rcases rest with _ | ⟨⟨kind, s⟩, more⟩
  · exact h
  · intro hk
    have hmap : kind.map f = TokenKind.equals.map f := Option.some.inj hk
    exact h (by rw [List.head?_cons, Option.map_some, (TokenKind.map_eq_map_iff rfl).1 hmap])

def relabel (f : Name → Name) (g : Span → Span) (r : Except ParseError (Expr Empty × ℕ)) :
    Except ParseError (Expr Empty × ℕ) :=
  (r.map fun p => (p.1.map f g, p.2)).mapError (ParseError.map g)

theorem relabel_bind {x : Except ParseError (Expr Empty × ℕ)}
    {next next' : Expr Empty × ℕ → Except ParseError (Expr Empty × ℕ)}
    (h : ∀ e k, next' (e.map f g, k) = relabel f g (next (e, k))) :
    relabel f g x >>= next' = relabel f g (x >>= next) := by
  rcases x with error | ⟨e, k⟩
  · rfl
  · exact h e k

theorem node_map (hg : Span.Coherent g) (ahead : List (Token Name)) :
    node (g stop) (ahead.map (Token.map f g)) = relabel f g (node stop ahead) := by
  have hspan : ∀ (s : Span) (e : Expr Empty),
      (g s).merge (e.map f g).span = g (s.merge e.span) := by
    intro s e
    rw [Expr.span_map, hg]
  induction ahead using node_induction with
  | nil => rw [List.map_nil, node_nil, node_nil]; rfl
  | number v s rest =>
    rw [node_number]
    exact node_number v
  | string t s rest =>
    rw [node_string]
    exact node_string (f t)
  | identifier x s rest hn =>
    rw [node_identifier x hn]
    exact node_identifier (f x) (noAssignment_map hn)
  | assign x s t rest ih =>
    rw [node_assign]
    refine (node_assign (f x) (g t)).trans ?_
    rw [ih]
    apply relabel_bind
    intro e k
    simp only [hspan]
    rfl
  | print s rest ih =>
    rw [node_print]
    refine node_print.trans ?_
    rw [ih]
    apply relabel_bind
    intro e k
    simp only [hspan]
    rfl
  | wrap w s rest ih =>
    rw [node_wrap]
    refine (node_wrap w).trans ?_
    rw [ih]
    apply relabel_bind
    intro e k
    simp only [hspan]
    rfl
  | paren s rest ih =>
    rw [node_paren]
    refine node_paren.trans ?_
    rw [ih]
    apply relabel_bind
    intro e k
    simp only [← List.map_drop]
    rcases rest.drop k with _ | ⟨close, more⟩
    · exact congrArg Except.error (unclosed_map (f := f) s ⟨.endOfInput, stop⟩)
    by_cases hc : close.kind = .rightParen
    · have hc' : (close.map f g).kind = .rightParen := congrArg (TokenKind.map f) hc
      simp only [List.map_cons, hc, hc', ↓reduceIte]
      rfl
    · have hc' : ¬(close.map f g).kind = .rightParen := by
        intro h
        have hmap : close.kind.map f = TokenKind.rightParen.map f := h
        exact hc ((TokenKind.map_eq_map_iff rfl).1 hmap)
      simp only [List.map_cons, hc, hc', ↓reduceIte, unclosed_map]
      rfl
  | binary op s rest ihl ihr =>
    rw [node_binary]
    refine (node_binary op).trans ?_
    rw [ihl]
    apply relabel_bind
    intro l j
    simp only [← List.map_drop]
    rw [ihr j]
    apply relabel_bind
    intro r k
    rw [hspan]
    rfl
  | refused token rest kind hr =>
    have hr' : refusal? (token.map f g).kind = some (kind.map g) := by
      rw [Token.map, refusal?_map, hr, Option.map_some]
    rw [List.map_cons, node_refused hr, node_refused hr']
    rfl

theorem statements_map (hg : Span.Coherent g) (ahead : List (Token Name)) :
    statements (g stop) (ahead.map (Token.map f g))
      = ((statements stop ahead).map (List.map (Expr.map f g))).mapError (ParseError.map g) := by
  induction ahead using statements_induction with
  | nil =>
    rw [List.map_nil, statements, statements]
    rfl
  | cons token rest ih =>
    have hnode : node (g stop) ((token :: rest).map (Token.map f g)) = _ := node_map hg _
    rw [List.map_cons] at hnode ⊢
    rw [statements_cons, statements_cons, hnode]
    rcases h : node stop (token :: rest) with error | ⟨e, k⟩
    · rfl
    have hmore := ih k (node_pos h)
    rw [List.map_drop, List.map_cons] at hmore
    simp only [relabel, Except.map, Except.mapError, bind, Except.bind]
    rw [hmore]
    rcases statements stop ((token :: rest).drop k) with error | forest <;> rfl

theorem names_of_derives {us : List (Token Name)} {e : Expr Empty} (h : Derives us e) :
    ∀ x ∈ e.names, ∃ t ∈ us, t.kind.contents? = some x := by
  induction h with
  | number v s => intro x hx; cases hx
  | string y s | identifier y s =>
    intro x hx
    obtain rfl := List.mem_singleton.1 hx
    exact ⟨_, List.mem_singleton_self _, rfl⟩
  | assign y s t _ ih =>
    intro x hx
    rcases List.mem_cons.1 hx with rfl | hx
    · exact ⟨_, List.mem_cons_self, rfl⟩
    · obtain ⟨u, hu, hc⟩ := ih x hx
      exact ⟨u, by simp [hu], hc⟩
  | print s _ ih | wrap w s _ ih | paren s t _ ih =>
    intro x hx
    obtain ⟨u, hu, hc⟩ := ih x hx
    exact ⟨u, by simp [hu], hc⟩
  | binary op s _ _ ihl ihr =>
    intro x hx
    rcases List.mem_append.1 hx with hx | hx
    · obtain ⟨u, hu, hc⟩ := ihl x hx
      exact ⟨u, by simp [hu], hc⟩
    · obtain ⟨u, hu, hc⟩ := ihr x hx
      exact ⟨u, by simp [hu], hc⟩

theorem names_of_statements {ahead : List (Token Name)} {forest : Forest}
    (h : statements stop ahead = .ok forest) :
    ∀ e ∈ forest, ∀ x ∈ e.names, ∃ t ∈ ahead, t.kind.contents? = some x := by
  obtain ⟨parts, rfl, hd⟩ := statements_ok_iff.1 h
  induction hd with
  | nil => intro e he; cases he
  | @cons us e parts forest hu hd ih =>
    have hrest : statements stop parts.flatten = .ok forest :=
      statements_ok_iff.2 ⟨parts, rfl, hd⟩
    intro e' he x hx
    rcases List.mem_cons.1 he with rfl | he
    · obtain ⟨t, ht, hc⟩ := names_of_derives hu x hx
      exact ⟨t, by simp [ht], hc⟩
    · obtain ⟨t, ht, hc⟩ := ih hrest e' he x hx
      exact ⟨t, List.mem_append_right us ht, hc⟩

end Forest

namespace Evaluation

variable {f : Name → Name} {g : Span → Span} {P : Name → Prop}
  {R : Environment → Environment → Prop} {names names' : NameTable} {env env' : Environment}
  {α β : Type}

/-- A change of names, of those that `P` allows, that evaluation does not notice: names are spelled
as before, and bindings that `R` relates stay so. -/
structure Simulation (names names' : NameTable) (f : Name → Name) (P : Name → Prop)
    (R : Environment → Environment → Prop) : Prop where
  spelled : ∀ x, P x → names'.lookup (f x) = names.lookup x
  bound : ∀ {env env'} x, P x → R env env' → env'.lookup (f x) = env.lookup x
  define : ∀ {env env'} x v, P x → R env env' → R (env.define x v) (env'.define (f x) v)

/-- Two evaluations give the same but for the places of errors. -/
structure Alike (R : Environment → Environment → Prop) (g : Span → Span)
    (r r' : Outcome Empty α) : Prop where
  result : r'.1 = r.1.mapError (Stop.map g)
  related : R r.2 r'.2

theorem Alike.andThen {r r' : Outcome Empty α} {next next' : α → Environment → Outcome Empty β}
    (h : Alike R g r r')
    (hn : ∀ v {env env'}, R env env' → Alike R g (next v env) (next' v env')) :
    Alike R g (andThen r next) (andThen r' next') := by
  obtain ⟨stop | v, env⟩ := r
  all_goals
    obtain ⟨result', env'⟩ := r'
    obtain ⟨hr, hR⟩ := h
    simp only [Except.mapError] at hr
    subst hr
  · exact ⟨rfl, hR⟩
  · exact hn v hR

namespace Simulation

theorem value (h : Simulation names names' f P R) {e : Expr Empty} (he : ∀ x ∈ e.names, P x)
    (hR : R env env') : Alike R g (value names e env) (value names' (e.map f g) env') := by
  induction e generalizing env env' with
  | number v s => exact ⟨rfl, hR⟩
  | string x s =>
    refine ⟨?_, hR⟩
    simp only [Expr.map, Evaluation.value, h.spelled x (he x (by simp [Expr.names]))]
    rfl
  | identifier x s =>
    have hx := he x (by simp [Expr.names])
    simp only [Expr.map, Evaluation.value, h.spelled x hx, h.bound x hx hR]
    rcases env.lookup x with _ | v
    · exact ⟨rfl, hR⟩
    · exact ⟨rfl, hR⟩
  | assign x e s ih =>
    refine (ih (fun y hy => he y (by simp [Expr.names, hy])) hR).andThen ?_
    intro v env env' hR
    exact ⟨rfl, h.define x v (he x (by simp [Expr.names])) hR⟩
  | print e s ih | wrap w e s ih => exact ih he hR
  | binary op l r s ihl ihr =>
    refine (ihl (fun y hy => he y (by simp [Expr.names, hy])) hR).andThen ?_
    intro v env env' hR
    refine (ihr (fun y hy => he y (by simp [Expr.names, hy])) hR).andThen ?_
    intro w env env' hR
    refine ⟨?_, hR⟩
    simp only [Expr.span_map, operate]
    rcases op.apply v w with error | result
    · cases hs : error.side <;> simp [Except.mapError, Stop.map, EvalError.map, atOperand, hs]
    · rfl
  | hole reason => exact reason.elim

theorem evaluate (h : Simulation names names' f P R) {forest : Forest}
    (hf : ∀ e ∈ forest, ∀ x ∈ e.names, P x) (hR : R env env') :
    Alike R g (evaluate names forest env) (evaluate names' (forest.map (Expr.map f g)) env') := by
  induction forest generalizing env env' with
  | nil =>
    rw [List.map_nil, evaluate, evaluate]
    exact ⟨rfl, hR⟩
  | cons e rest ih =>
    have hshows : shows (e.map f g) = shows e := by
      funext v
      cases e <;> cases v <;> rfl
    rw [List.map_cons, evaluate, evaluate]
    refine (h.value (hf e List.mem_cons_self) hR).andThen ?_
    intro v env env' hR
    refine (ih (fun e he => hf e (List.mem_cons_of_mem _ he)) hR).andThen ?_
    intro outputs env env' hR
    rw [hshows]
    exact ⟨rfl, hR⟩

end Simulation

end Evaluation

end PrefixLang
