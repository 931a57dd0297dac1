import PrefixLang.Proofs.Joining
import PrefixLang.Proofs.Places
import Mathlib.Order.MinMax
/-!
Sources with the same tokens at other places. Numbers can stand for the places of tokens while they
are read and evaluated, and the places be put in afterwards; what is done depends on the numbers
only. So two such sources give the same, up to the places of errors: `positions_do_not_matter`.
-/

namespace PrefixLang

/-- The place of a token with a number. Behind the last token there is only the end of the input. -/
def Token.placeAt (tokens : List (Token Name)) (stop : Span) (i : ℕ) : Span :=
  (tokens[i]?.map Token.span).getD stop

/-- A span of numbers as one of places: from the start of one token to the end of another. -/
def Span.across (tokens : List (Token Name)) (stop s : Span) : Span :=
  ⟨(Token.placeAt tokens stop s.start).start, (Token.placeAt tokens stop s.stop).stop⟩

/-- Tokens at numbers instead of places. -/
def TokenKind.numbered (kinds : List (TokenKind Name)) : List (Token Name) :=
  kinds.mapIdx fun i kind => ⟨kind, Span.point i⟩

/-- Tokens that stand one behind the other. -/
structure Token.Ordered (tokens : List (Token Name)) : Prop where
  le : ∀ t ∈ tokens, t.span.start ≤ t.span.stop
  pairwise : tokens.Pairwise fun t u => t.span.stop ≤ u.span.start

section

variable {tokens : List (Token Name)} {stop : Span} {i j : ℕ}

theorem Token.exists_placeAt (tokens : List (Token Name)) (stop : Span) (i : ℕ) :
    ∃ t, (tokens ++ [⟨.endOfInput, stop⟩])[min i tokens.length]? = some t ∧
      t.span = placeAt tokens stop i := by
  by_cases hi : i < tokens.length
  · refine ⟨tokens[i], ?_, ?_⟩
    · rw [Nat.min_eq_left hi.le, List.getElem?_append_left hi, List.getElem?_eq_getElem hi]
    · rw [placeAt, List.getElem?_eq_getElem hi]
      rfl
  · have hle : tokens.length ≤ i := Nat.le_of_not_lt hi
    refine ⟨⟨.endOfInput, stop⟩, ?_, ?_⟩
    · rw [Nat.min_eq_right hle, List.getElem?_append_right le_rfl, Nat.sub_self]
      rfl
    · rw [placeAt, List.getElem?_eq_none hle]
      rfl

theorem Token.Ordered.monotone (h : Ordered (tokens ++ [⟨.endOfInput, stop⟩])) (hij : i ≤ j) :
    (placeAt tokens stop i).start ≤ (placeAt tokens stop j).start ∧
      (placeAt tokens stop i).stop ≤ (placeAt tokens stop j).stop := by
  obtain ⟨t, ht, htspan⟩ := exists_placeAt tokens stop i
  obtain ⟨u, hu, huspan⟩ := exists_placeAt tokens stop j
  rw [← htspan, ← huspan]
  by_cases hmin : min i tokens.length = min j tokens.length
  · rw [hmin, hu] at ht
    cases ht
    exact ⟨le_rfl, le_rfl⟩
  · obtain ⟨hlt, rfl⟩ := List.getElem?_eq_some_iff.1 ht
    obtain ⟨hlt', rfl⟩ := List.getElem?_eq_some_iff.1 hu
    have hpair := List.pairwise_iff_getElem.1 h.pairwise _ _ hlt hlt' (by omega)
    have hle := h.le _ (List.getElem_mem hlt)
    have hle' := h.le _ (List.getElem_mem hlt')
    omega

theorem Token.Ordered.coherent (h : Ordered (tokens ++ [⟨.endOfInput, stop⟩])) :
    Span.Coherent (Span.across tokens stop) := by
  have hstart : Monotone fun i => (placeAt tokens stop i).start := fun _ _ hij => (h.monotone hij).1
  have hstop : Monotone fun i => (placeAt tokens stop i).stop := fun _ _ hij => (h.monotone hij).2
  intro s t
  exact congrArg₂ Span.mk hstart.map_min hstop.map_max

theorem TokenKind.numbered_map (tokens : List (Token Name)) (stop : Span) :
    (numbered (tokens.map Token.kind)).map (Token.map id (Span.across tokens stop)) = tokens := by
  apply List.ext_getElem?
  intro i
  rw [numbered, List.getElem?_map, List.getElem?_mapIdx, List.getElem?_map]
  rcases hi : tokens[i]? with _ | t
  · rfl
  · have hplace : Span.across tokens stop (Span.point i) = t.span := by
      rw [Span.across, Span.point, Token.placeAt, hi]
      rfl
    rw [Option.map_some, Option.map_some, Option.map_some, Token.map, hplace]
    obtain ⟨kind, s⟩ := t
    cases kind <;> rfl

theorem TokenKind.kind_mem_of_numbered {kinds : List (TokenKind Name)} {t : Token Name}
    (h : t ∈ numbered kinds) : t.kind ∈ kinds := by
  obtain ⟨i, hi, rfl⟩ := List.mem_mapIdx.1 h
  exact List.getElem_mem hi

theorem Span.across_end (tokens : List (Token Name)) (stop : Span) :
    across tokens stop (point tokens.length) = stop := by
  rw [across, point, Token.placeAt, List.getElem?_eq_none le_rfl]
  rfl

end

namespace Session

variable {source : String} {names names' : NameTable} {env : Environment}
  {kinds : List (TokenKind Name)} {n : ℕ}

/-- Reads and evaluates tokens that stand at their numbers. -/
def numberedRun (names : NameTable) (kinds : List (TokenKind Name)) (env : Environment) :
    Except Failure (List Output) :=
  (Forest.statements (Span.point kinds.length) (TokenKind.numbered kinds)).mapError Failure.parse
    >>= fun forest =>
      (PrefixLang.evaluate names forest env).1.mapError fun stop => .eval stop.toError

theorem ordered_closedTokens (hn : names.WellFormed) (source : String) :
    Token.Ordered (closedTokens names source) where
  le := by
    intro t ht
    rcases List.mem_append.1 ht with ht | ht
    · exact (sound_of_mem hn ht).le
    · obtain rfl := List.mem_singleton.1 ht
      exact le_rfl
  pairwise := pairwise_closedTokens hn source

/-- A source runs as its tokens do at their numbers, with the places put in afterwards. -/
theorem evaluate_eq_numberedRun {s : Session} (hs : s.WellFormed)
    (hscan : (Lexeme.scan source).2 = .ok n) :
    (s.evaluate source).1 = (numberedRun (tokens s.names source).2
      ((tokens s.names source).1.map Token.kind) s.bindings).mapError
        (Failure.map (Span.across (tokens s.names source).1 (Span.point source.utf8ByteSize))) := by
  obtain rfl := Lexeme.eq_size_of_scan hscan
  have hcoherent := (ordered_closedTokens hs.names source).coherent
  have hread : Forest.statements (Span.across _ _ (Span.point (tokens s.names source).1.length))
      _ = _ := Forest.statements_map (f := id) hcoherent
        (TokenKind.numbered ((tokens s.names source).1.map Token.kind))
  rw [TokenKind.numbered_map, Span.across_end] at hread
  rw [Session.evaluate_eq, read_eq hs.names, hscan, numberedRun, List.length_map]
  simp only [Except.mapError, bind, Except.bind, hread]
  rcases Forest.statements (Span.point (tokens s.names source).1.length)
    (TokenKind.numbered ((tokens s.names source).1.map Token.kind)) with e | forest
  · rfl
  · simp only [Except.map, evaluate_second]
    rcases PrefixLang.evaluate (tokens s.names source).2 forest s.bindings
      with ⟨stop | outputs, env⟩
    · cases stop with
      | error e => rfl
      | hole reason => exact reason.elim
    · rfl

theorem numberedRun_of_lookup (h : ∀ kind ∈ kinds, ∀ x, kind.contents? = some x →
      names'.lookup x = names.lookup x) :
    numberedRun names' kinds env = numberedRun names kinds env := by
  rw [numberedRun, numberedRun]
  rcases hread : Forest.statements (Span.point kinds.length) (TokenKind.numbered kinds)
    with e | forest
  · rfl
  have hnames : ∀ e ∈ forest, ∀ x ∈ e.names, names'.lookup x = names.lookup x := by
    intro e he x hx
    obtain ⟨t, ht, hc⟩ := Forest.names_of_statements hread e he x hx
    exact h t.kind (TokenKind.kind_mem_of_numbered ht) x hc
  simp only [Except.mapError, bind, Except.bind, evaluate_of_lookup hnames]

end Session

def Failure.placeless (failure : Failure) : Failure := failure.map fun _ => Span.nowhere

/-- The place of a failure, and that of what was found where a parenthesis should be closed. -/
def Failure.places : Failure → List Span
  | .parse ⟨.unclosedParen _ found, s⟩ => [s, found]
  | failure => [failure.span]

theorem Failure.placeless_map (g : Span → Span) (failure : Failure) :
    (failure.map g).placeless = failure.placeless := by
  cases failure with
  | lex e | eval e => rfl
  | parse e =>
    obtain ⟨kind, s⟩ := e
    cases kind <;> rfl

theorem Failure.places_map (g : Span → Span) (failure : Failure) :
    (failure.map g).places = failure.places.map g := by
  cases failure with
  | lex e | eval e => rfl
  | parse e =>
    obtain ⟨kind, s⟩ := e
    cases kind <;> rfl

theorem Forest.Blames.places_induction {motive : Span → Prop} {tokens : List (Token Name)}
    {error : ParseError} (htokens : ∀ t ∈ tokens, motive t.span) (h : Blames tokens error) :
    ∀ s ∈ (Failure.parse error).places, motive s := by
  intro s hs
  cases h with
  | @refused t kind ht hk =>
    have hplaces : (Failure.parse ⟨kind, t.span⟩).places = [t.span] := by
      cases kind with
      | unclosedParen found s =>
        obtain ⟨_, -, -, h⟩ | ⟨_, -, -, h⟩ | ⟨-, h⟩ := refusal?_cases NameTable.initial.lookup hk
        all_goals cases h
      | _ => rfl
    rw [hplaces] at hs
    obtain rfl := List.mem_singleton.1 hs
    exact htokens t ht
  | @unclosed paren found hpair hk =>
    have hparen := htokens _ (hpair.subset List.mem_cons_self)
    have hfound := htokens _ (hpair.subset (List.mem_cons_of_mem _ List.mem_cons_self))
    rcases List.mem_cons.1 hs with rfl | hs
    · exact hparen
    · obtain rfl := List.mem_singleton.1 hs
      exact hfound

namespace Session

variable {source : String} {names names' : NameTable} {env : Environment}
  {kinds : List (TokenKind Name)} {failure : Failure}

theorem start_le_of_numberedRun (h : numberedRun names kinds env = .error failure) :
    ∀ s ∈ failure.places, s.start ≤ s.stop := by
  have htokens : ∀ t ∈ TokenKind.numbered kinds, t.span.start ≤ t.span.stop := by
    intro t ht
    obtain ⟨i, hi, rfl⟩ := List.mem_mapIdx.1 ht
    exact le_rfl
  rw [numberedRun] at h
  rcases hread : Forest.statements (Span.point kinds.length) (TokenKind.numbered kinds)
    with e | forest
  · rw [hread] at h
    cases h
    refine (Forest.blames_of_statements hread).places_induction ?_
    intro t ht
    rcases List.mem_append.1 ht with ht | ht
    · exact htokens t ht
    · obtain rfl := List.mem_singleton.1 ht
      exact le_rfl
  · rw [hread] at h
    simp only [Except.mapError, bind, Except.bind] at h
    rcases hrun : (PrefixLang.evaluate names forest env).1 with stop | outputs
    · rw [hrun] at h
      cases h
      cases stop with
      | error e =>
        obtain ⟨tree, htree, hblames⟩ := Evaluation.blames_of_evaluate hrun
        obtain ⟨parts, hparts⟩ := Forest.statements_ok_iff.1 hread
        obtain ⟨us, hus, hderives⟩ := hparts.exists_derives htree
        have hmerge : ∀ s t : Span, s.start ≤ s.stop → t.start ≤ t.stop →
            (s.merge t).start ≤ (s.merge t).stop := by
          intro s t hs ht
          simp only [Span.merge]
          omega
        intro s hs
        obtain rfl := List.mem_singleton.1 hs
        exact hblames.span_induction hmerge (fun t ht => htokens t (hus.subset ht)) hderives
      | hole reason => exact reason.elim
    · rw [hrun] at h
      cases h

end Session

/-- A span that runs from the start of one token to the end of another, by their numbers. -/
def Span.Joins (tokens : List (Token Name)) (i j : ℕ) (s : Span) : Prop :=
  ∃ first last : Token Name, tokens[i]? = some first ∧ tokens[j]? = some last ∧
    s = ⟨first.span.start, last.span.stop⟩

/-- Spans that run from token to token, where the tokens have the same numbers in two lists. -/
def Span.Aligned (ts us : List (Token Name)) (s t : Span) : Prop :=
  ∃ i j, i ≤ j ∧ s.Joins ts i j ∧ t.Joins us i j

theorem Span.joins_across (tokens : List (Token Name)) (stop s : Span) :
    (across tokens stop s).Joins (tokens ++ [⟨.endOfInput, stop⟩])
      (min s.start tokens.length) (min s.stop tokens.length) := by
  obtain ⟨first, hfirst, hstart⟩ := Token.exists_placeAt tokens stop s.start
  obtain ⟨last, hlast, hstop⟩ := Token.exists_placeAt tokens stop s.stop
  refine ⟨first, last, hfirst, hlast, ?_⟩
  rw [hstart, hstop]
  rfl

theorem Span.aligned_across {tokens tokens' : List (Token Name)} {s : Span} (stop stop' : Span)
    (hlength : tokens'.length = tokens.length) (hs : s.start ≤ s.stop) :
    Aligned (tokens ++ [⟨.endOfInput, stop⟩]) (tokens' ++ [⟨.endOfInput, stop'⟩])
      (across tokens stop s) (across tokens' stop' s) := by
  have hjoins := joins_across tokens' stop' s
  rw [hlength] at hjoins
  exact ⟨_, _, by omega, joins_across tokens stop s, hjoins⟩

/-- Failures for the same reason, with places from token to token and the same tokens in two
lists. -/
structure Failure.Alike (ts us : List (Token Name)) (failure failure' : Failure) : Prop where
  placeless : failure.placeless = failure'.placeless
  message : failure.message = failure'.message
  code : failure.code = failure'.code
  phase : failure.phase = failure'.phase
  places : List.Forall₂ (Span.Aligned ts us) failure.places failure'.places

theorem Failure.alike_across {tokens tokens' : List (Token Name)} {failure : Failure}
    (stop stop' : Span) (hlength : tokens'.length = tokens.length)
    (h : ∀ s ∈ failure.places, s.start ≤ s.stop) :
    Alike (tokens ++ [⟨.endOfInput, stop⟩]) (tokens' ++ [⟨.endOfInput, stop'⟩])
      (failure.map (Span.across tokens stop)) (failure.map (Span.across tokens' stop')) := by
  obtain ⟨hmessage, hcode, hphase, -⟩ := failure.told_map (Span.across tokens stop)
  obtain ⟨hmessage', hcode', hphase', -⟩ := failure.told_map (Span.across tokens' stop')
  constructor
  case placeless => rw [placeless_map, placeless_map]
  case message => rw [hmessage, hmessage']
  case code => rw [hcode, hcode']
  case phase => rw [hphase, hphase']
  case places =>
    rw [places_map, places_map, List.forall₂_map_left_iff, List.forall₂_map_right_iff,
      List.forall₂_same]
    intro s hs
    exact Span.aligned_across stop stop' hlength (h s hs)

theorem Session.exists_of_lex {names names' : NameTable} {source : String} {ts : List (Token Name)}
    (h : lex names source = (.ok ts, names')) : ∃ n, (Lexeme.scan source).2 = .ok n ∧
      ts = closedTokens names source ∧ names' = (tokens names source).2 := by
  rw [lex_eq_tokens] at h
  rcases hscan : (Lexeme.scan source).2 with e | n
  · rw [hscan] at h
    cases h
  · rw [hscan] at h
    cases h
    obtain rfl := Lexeme.eq_size_of_scan hscan
    exact ⟨_, rfl, rfl, rfl⟩

/-- Sources with the same kinds of tokens, in which the names stand for the same texts, run alike
wherever their tokens stand. If they fail, they fail for the same reason, and each place that is
told runs from the start of a token to the end of the same or a later one, of the same two tokens in
both sources. -/
theorem positions_do_not_matter (format : Format) (a b : String) (ts us : List (Token Name))
    (na nb : NameTable) (ha : lex NameTable.initial a = (.ok ts, na))
    (hb : lex NameTable.initial b = (.ok us, nb))
    (hkinds : ts.map Token.kind = us.map Token.kind)
    (htexts : ∀ t ∈ ts, ∀ x, t.kind.contents? = some x → na.lookup x = nb.lookup x) :
    (∃ text, runSource format a = .ok text ∧ runSource format b = .ok text) ∨
    ∃ failure failure', runSource format a = .error failure ∧
      runSource format b = .error failure' ∧ failure.Alike ts us failure' := by
  obtain ⟨n, hscan, rfl, rfl⟩ := Session.exists_of_lex ha
  obtain ⟨m, hscan', rfl, rfl⟩ := Session.exists_of_lex hb
  rw [Session.closedTokens, Session.closedTokens, List.map_append, List.map_append] at hkinds
  have hkinds' := List.append_cancel_right hkinds
  have hlength := (congrArg List.length hkinds').symm
  rw [List.length_map, List.length_map] at hlength
  have htexts' : ∀ kind ∈ (Session.tokens NameTable.initial a).1.map Token.kind, ∀ x,
      kind.contents? = some x → (Session.tokens NameTable.initial b).2.lookup x
        = (Session.tokens NameTable.initial a).2.lookup x := by
    intro kind hkind x hx
    obtain ⟨t, ht, rfl⟩ := List.mem_map.1 hkind
    exact (htexts t (List.mem_append_left _ ht) x hx).symm
  have hrun : (Session.initial.evaluate a).1 = _ :=
    Session.evaluate_eq_numberedRun Session.initial_wellFormed hscan
  have hrun' : (Session.initial.evaluate b).1 = _ :=
    Session.evaluate_eq_numberedRun Session.initial_wellFormed hscan'
  have hinitial : Session.initial.names = NameTable.initial := rfl
  rw [hinitial] at hrun hrun'
  -- Both runs come from one run at numbers, to which only the places are added.
  rw [← hkinds', Session.numberedRun_of_lookup htexts'] at hrun'
  simp only [runSource, Session.run, hrun, hrun']
  rcases hresult : Session.numberedRun (Session.tokens NameTable.initial a).2
    ((Session.tokens NameTable.initial a).1.map Token.kind) Session.initial.bindings
    with failure | outputs
  · have hplaces := Session.start_le_of_numberedRun hresult
    exact .inr ⟨_, _, rfl, rfl, Failure.alike_across _ _ hlength hplaces⟩
  · exact .inl ⟨_, rfl, rfl⟩

/-- The tokens of `x ( / x 0` and the end of the input, at given places. -/
def openParen (places : List Span) : List (Token Name) :=
  List.zipWith Token.mk [.identifier ⟨6⟩, .leftParen, .operator .div, .identifier ⟨6⟩,
    .number (Binary64.ofNat 0), .endOfInput] places

/-- The operand is `00` in one source and `0` in the other, and a comment moves the parenthesis. -/
theorem openParens_are_told_alike :
    ∃ ts us na nb, lex NameTable.initial "x (/ x 00" = (.ok ts, na) ∧
      lex NameTable.initial "x //y\n( / x 0" = (.ok us, nb) ∧
      ts.map Token.kind = us.map Token.kind ∧
      (∀ t ∈ ts, ∀ x, t.kind.contents? = some x → na.lookup x = nb.lookup x) ∧
      ∃ failure failure', runSource .plain "x (/ x 00" = .error failure ∧
        runSource .plain "x //y\n( / x 0" = .error failure' ∧
        failure.places = [⟨2, 3⟩, ⟨9, 9⟩] ∧ failure'.places = [⟨6, 7⟩, ⟨13, 13⟩] ∧
        failure.Alike ts us failure' := by
  obtain ⟨ha, hb, htext⟩ :
      (lex NameTable.initial "x (/ x 00").1
        = .ok (openParen [⟨0, 1⟩, ⟨2, 3⟩, ⟨3, 4⟩, ⟨5, 6⟩, ⟨7, 9⟩, ⟨9, 9⟩]) ∧
      (lex NameTable.initial "x //y\n( / x 0").1
        = .ok (openParen [⟨0, 1⟩, ⟨6, 7⟩, ⟨8, 9⟩, ⟨10, 11⟩, ⟨12, 13⟩, ⟨13, 13⟩]) ∧
      (lex NameTable.initial "x (/ x 00").2.lookup ⟨6⟩
        = (lex NameTable.initial "x //y\n( / x 0").2.lookup ⟨6⟩ := by decide +kernel
  have hname : ∀ t ∈ openParen [⟨0, 1⟩, ⟨2, 3⟩, ⟨3, 4⟩, ⟨5, 6⟩, ⟨7, 9⟩, ⟨9, 9⟩],
      t.kind.contents? ∈ [none, some ⟨6⟩] := by decide
  have htexts : ∀ t ∈ openParen [⟨0, 1⟩, ⟨2, 3⟩, ⟨3, 4⟩, ⟨5, 6⟩, ⟨7, 9⟩, ⟨9, 9⟩], ∀ x,
      t.kind.contents? = some x → (lex NameTable.initial "x (/ x 00").2.lookup x
        = (lex NameTable.initial "x //y\n( / x 0").2.lookup x := by
    intro t ht x hx
    have hmem := hname t ht
    rw [hx] at hmem
    obtain rfl : x = ⟨6⟩ := by simpa using hmem
    exact htext
  obtain ⟨hrun, hrun'⟩ :
      runSource .plain "x (/ x 00"
        = .error (.parse ⟨.unclosedParen "end of input" ⟨9, 9⟩, ⟨2, 3⟩⟩) ∧
      runSource .plain "x //y\n( / x 0"
        = .error (.parse ⟨.unclosedParen "end of input" ⟨13, 13⟩, ⟨6, 7⟩⟩) := by decide +kernel
  refine ⟨_, _, _, _, Prod.ext ha rfl, Prod.ext hb rfl, rfl, htexts, _, _, hrun, hrun', rfl, rfl,
    ?_⟩
  obtain ⟨text, hshown, -⟩ | ⟨failure, failure', hfailure, hfailure', halike⟩ :=
    positions_do_not_matter .plain _ _ _ _ _ _ (Prod.ext ha rfl) (Prod.ext hb rfl) rfl htexts
  · rw [hrun] at hshown
    cases hshown
  · rw [hrun] at hfailure
    rw [hrun'] at hfailure'
    cases hfailure
    cases hfailure'
    exact halike

/-- A table without new texts gives its next name to any text. So sources with the same kinds of
tokens may show different texts, if the names in them stand for different ones. -/
theorem equal_kinds_show_different_texts :
    ∃ ts us na nb, lex NameTable.initial "\"x\"" = (.ok ts, na) ∧
      lex NameTable.initial "\"y\"" = (.ok us, nb) ∧ ts.map Token.kind = us.map Token.kind ∧
      ¬((∃ text, runSource .plain "\"x\"" = .ok text ∧ runSource .plain "\"y\"" = .ok text) ∨
        ∃ failure failure', runSource .plain "\"x\"" = .error failure ∧
          runSource .plain "\"y\"" = .error failure') := by
  obtain ⟨ha, hb⟩ :
      (lex NameTable.initial "\"x\"").1
        = .ok [⟨.string ⟨6⟩, ⟨0, 3⟩⟩, ⟨.endOfInput, ⟨3, 3⟩⟩] ∧
      (lex NameTable.initial "\"y\"").1
        = .ok [⟨.string ⟨6⟩, ⟨0, 3⟩⟩, ⟨.endOfInput, ⟨3, 3⟩⟩] := by decide +kernel
  obtain ⟨hrun, hrun'⟩ : runSource .plain "\"x\"" = .ok "\"x\"" ∧
      runSource .plain "\"y\"" = .ok "\"y\"" := by decide +kernel
  refine ⟨_, _, _, _, Prod.ext ha rfl, Prod.ext hb rfl, rfl, ?_⟩
  rw [hrun, hrun']
  rintro (⟨text, hx, hy⟩ | ⟨failure, -, hx, -⟩)
  · have htext := Except.ok.inj (hx.trans hy.symm)
    revert htext
    decide
  · cases hx

end PrefixLang
