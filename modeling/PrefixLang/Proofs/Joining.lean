import PrefixLang.Proofs.History
import PrefixLang.Proofs.Seams
/-!
Two sources with a line feed between them run as if they were run one after the other: the second
part is scanned, read and evaluated as on its own, only at another place.
-/

namespace PrefixLang

theorem Token.internAll_map (names : NameTable) (g : Span → Span) (tokens : List (Token String)) :
    internAll names (tokens.map (Token.map id g))
      = ((internAll names tokens).1.map (Token.map id g), (internAll names tokens).2) := by
  induction tokens generalizing names with
  | nil => rfl
  | cons token rest ih =>
    have hone : internOne names (token.map id g)
        = ((internOne names token).1.map id g, (internOne names token).2) := by
      obtain ⟨kind, s⟩ := token
      cases kind <;> rfl
    rw [List.map_cons, internAll_cons, internAll_cons, hone, ih]
    rfl

open Evaluation in
theorem evaluate_append {ρ : Type} (names : NameTable) (forest more : List (Expr ρ))
    (env : Environment) :
    evaluate names (forest ++ more) env =
      andThen (evaluate names forest env) fun outputs env =>
        andThen (evaluate names more env) fun outputs' env => (.ok (outputs ++ outputs'), env) := by
  induction forest generalizing env with
  | nil =>
    rw [evaluate]
    exact (andThen_ok _).symm
  | cons e rest ih =>
    rw [List.cons_append, evaluate, evaluate, andThen_assoc]
    congr
    funext v env
    rw [ih, andThen_assoc, andThen_assoc]
    congr
    funext outputs env
    exact andThen_assoc _ _ _

theorem Evaluation.simulation_of_lookup {names names' : NameTable} {P : Name → Prop}
    (h : ∀ x, P x → names'.lookup x = names.lookup x) :
    Simulation names names' id P Eq where
  spelled := h
  bound := fun _ _ he => he ▸ rfl
  define := fun _ _ _ he => he ▸ rfl

theorem Format.render_append {outputs more : List Output} (format : Format) (h : outputs ≠ [])
    (hm : more ≠ []) :
    format.render (outputs ++ more)
      = format.render outputs ++ format.separator ++ format.render more := by
  rw [render, List.map_append, String.intercalate_append_of_ne_nil (by simpa) (by simpa)]
  rfl

namespace Session

open Evaluation

variable {s next : Session} {a : String} {outputs : List Output}

theorem tokens_line (names : NameTable) {n : ℕ} (hscan : (Lexeme.scan a).2 = .ok n) (b : String) :
    tokens names (a ++ "\n" ++ b) =
      ((tokens names a).1 ++ (tokens (tokens names a).2 b).1.map
          (Token.map id (Span.shift (a.utf8ByteSize + 1))),
        (tokens (tokens names a).2 b).2) := by
  have hshift : ∀ lexemes : List Lexeme,
      (lexemes.map (Lexeme.shift (a.utf8ByteSize + 1))).map Lexeme.token
        = (lexemes.map Lexeme.token).map (Token.map id (Span.shift (a.utf8ByteSize + 1))) := by
    intro lexemes
    rw [List.map_map, List.map_map]
    refine List.map_congr_left ?_
    rintro ⟨kind, text, place⟩ -
    cases kind <;> rfl
  rw [tokens, Lexeme.scan_line (Prod.ext rfl hscan), List.map_append, hshift,
    Token.internAll_append, Token.internAll_map]
  rfl

theorem no_assignment_of_scan {names : NameTable} {b : String} (hn : names.WellFormed)
    (hb : ∀ l ∈ (Lexeme.scan b).1.head?, l.kind ≠ .equals) :
    Forest.NoAssignment (tokens names b).1 := by
  obtain ⟨-, hspell⟩ := spell_tokens hn b
  intro hequals
  rcases ht : (tokens names b).1 with _ | ⟨t, rest⟩
  · simp [ht] at hequals
  rcases hl : (Lexeme.scan b).1 with _ | ⟨l, more⟩
  · simp [ht, hl] at hspell
  rw [ht, hl, List.map_cons, List.map_cons] at hspell
  have hkind : t.kind.map _ = l.kind := congrArg Token.kind (List.cons.inj hspell).1
  have ht' : t.kind = .equals := by simpa [ht] using hequals
  rw [ht'] at hkind
  exact hb l (by simp [hl]) hkind.symm

theorem evaluate_of_lookup {names names' : NameTable} {forest : Forest} {env : Environment}
    (h : ∀ e ∈ forest, ∀ x ∈ e.names, names'.lookup x = names.lookup x) :
    PrefixLang.evaluate names' forest env = PrefixLang.evaluate names forest env := by
  have hsim := simulation_of_lookup (P := fun x => names'.lookup x = names.lookup x) fun _ hx => hx
  obtain ⟨hresult, hrelated⟩ := hsim.evaluate (g := id) h (Eq.refl env)
  have hsame : forest.map (Expr.map id id) = forest := by
    rw [funext Expr.map_id]
    exact List.map_id' forest
  rw [hsame] at hresult hrelated
  refine Prod.ext ?_ hrelated.symm
  rw [hresult]
  rcases (PrefixLang.evaluate names forest env).1 with stop | outputs
  · rw [Except.mapError, Stop.map_id]
  · rfl

theorem evaluate_second (names : NameTable) (g : Span → Span) (forest : Forest)
    (env : Environment) :
    PrefixLang.evaluate names (forest.map (Expr.map id g)) env =
      ((PrefixLang.evaluate names forest env).1.mapError (Stop.map g),
        (PrefixLang.evaluate names forest env).2) := by
  have hsim : Simulation names names id (fun _ => True) Eq := simulation_of_lookup fun _ _ => rfl
  obtain ⟨hresult, hrelated⟩ := hsim.evaluate (g := g) (fun _ _ _ _ => trivial) (Eq.refl env)
  exact Prod.ext hresult hrelated.symm

theorem evaluate_line {b : String} (h : s.WellFormed) (ha : s.evaluate a = (.ok outputs, next))
    (hb : ∀ l ∈ (Lexeme.scan b).1.head?, l.kind ≠ .equals) :
    s.evaluate (a ++ "\n" ++ b) = match next.evaluate b with
      | (.ok more, last) => (.ok (outputs ++ more), last)
      | (.error failure, last) => (.error (failure.map (Span.shift (a.utf8ByteSize + 1))),
        { s with names := last.names }) := by
  obtain ⟨failure, he⟩ | ⟨n, forest, shown, env, hscan, hread, hrun, he⟩ := evaluate_cases h a
  · rw [ha] at he
    cases he
  rw [ha] at he
  obtain ⟨rfl, rfl⟩ : outputs = shown ∧ next = _ := by simpa using he
  have hnames := tokens_wellFormed h.names a
  -- An identifier that ends the first part looks one token ahead, into the second.
  have hseam : Forest.NoAssignment (tokens (tokens s.names a).2 b).1 :=
    no_assignment_of_scan hnames hb
  obtain ⟨parts, hparts⟩ := Forest.statements_ok_iff.1 hread
  rw [evaluate_eq, evaluate_eq, read_eq h.names, read_eq hnames, tokens_line s.names hscan,
    Lexeme.scan_line (Prod.ext rfl hscan)]
  rcases (Lexeme.scan b).2 with e | m
  · rfl
  have hstop : Span.point (m + (a.utf8ByteSize + 1))
      = (Span.point m).shift (a.utf8ByteSize + 1) := rfl
  simp only [Except.map, Except.mapError, bind, Except.bind]
  rw [Forest.statements_append hparts (Forest.noAssignment_map hseam).separate, hstop,
    Forest.statements_map (Span.coherent_shift _)]
  rcases Forest.statements (Span.point m) (tokens (tokens s.names a).2 b).1 with e | more
  · rfl
  -- The second part may name more texts, but the names of the first one keep theirs.
  have hfirst : ∀ e ∈ forest, ∀ x ∈ e.names,
      (tokens (tokens s.names a).2 b).2.lookup x = (tokens s.names a).2.lookup x := by
    intro e he x hx
    obtain ⟨u, hu, hc⟩ := Forest.names_of_statements hread e he x hx
    exact (tokens_extends _ b).lookup ((spell_tokens h.names a).1 u hu x hc)
  simp only [Except.map, Except.mapError]
  rw [evaluate_append, evaluate_of_lookup hfirst, hrun, andThen, evaluate_second]
  rcases PrefixLang.evaluate (tokens (tokens s.names a).2 b).2 more env with ⟨stop | shown, last⟩
  · cases stop with
    | error e => rfl
    | hole reason => exact reason.elim
  · rfl

/-- Running two sources joined by a line feed is running one after the other. If the second fails,
its error is the same at another place, and nothing is bound by either. -/
theorem joined_run_is_two_runs (calls : List Call) (a b : String) (outputs : List Output)
    (next : Session) (ha : (initial.after calls).evaluate a = (.ok outputs, next))
    (hb : ∀ l ∈ (Lexeme.scan b).1.head?, l.kind ≠ .equals) :
    (∀ more last, next.evaluate b = (.ok more, last) →
      (initial.after calls).evaluate (a ++ "\n" ++ b) = (.ok (outputs ++ more), last) ∧
      (outputs ≠ [] → more ≠ [] → ∀ format,
        ((initial.after calls).run format (a ++ "\n" ++ b)).1
          = .ok (format.render outputs ++ format.separator ++ format.render more))) ∧
    (∀ failure last, next.evaluate b = (.error failure, last) →
      (initial.after calls).evaluate (a ++ "\n" ++ b) =
        (.error (failure.map (Span.shift (a.utf8ByteSize + 1))),
          ⟨last.names, (initial.after calls).bindings⟩)) := by
  have hline := evaluate_line (initial_wellFormed.after calls) ha hb
  refine ⟨?_, ?_⟩
  · intro more last hmore
    rw [hmore] at hline
    refine ⟨hline, ?_⟩
    intro hne hne' format
    rw [run, hline]
    simp only [Except.map, Format.render_append format hne hne']
  · intro failure last hfailure
    rw [hfailure] at hline
    exact hline

/-- A comment at the end of the first source is no trap, and the second one finds the binding. -/
theorem joined_assignment_is_two_runs :
    ((initial.after [.evaluate "z = 3"]).evaluate "x = z // all").1 = .ok [.empty] ∧
    (∀ l ∈ (Lexeme.scan "print x").1.head?, l.kind ≠ .equals) ∧
    ((initial.after [.evaluate "z = 3"]).evaluate ("x = z // all" ++ "\n" ++ "print x")).1
      = .ok [.empty, .keyword "print" (.number (Binary64.ofNat 3))] := by
  obtain ⟨ha, hb, hnext⟩ :
      ((initial.after [.evaluate "z = 3"]).evaluate "x = z // all").1 = .ok [.empty] ∧
      (∀ l ∈ (Lexeme.scan "print x").1.head?, l.kind ≠ .equals) ∧
      (((initial.after [.evaluate "z = 3"]).evaluate "x = z // all").2.evaluate "print x").1
        = .ok [.keyword "print" (.number (Binary64.ofNat 3))] := by
    decide +kernel
  have hjoined := joined_run_is_two_runs _ _ "print x" _ _ (Prod.ext ha rfl) hb
  exact ⟨ha, hb, congrArg Prod.fst (hjoined.1 _ _ (Prod.ext hnext rfl)).1⟩

end Session

end PrefixLang
