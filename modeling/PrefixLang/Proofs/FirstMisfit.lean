import PrefixLang.Proofs.Parsing
import PrefixLang.Proofs.Stopping
/-!
Where reading fails. What can still be read goes on behind every token before the error, and nothing
that starts with these tokens and the one at the error can be read. What was awaited there, an
operand or the end of a parenthesis, tells the kind of the error:
`parse_fails_at_the_first_misfit`.
-/

namespace PrefixLang

/-- Behind these tokens an expression is required: a statement, or an operand of one that has
begun. -/
def Requires (before : List (Token Name)) : Prop :=
  ∃ done parts trees begun, Decomposition done parts trees ∧ Due begun ∧ before = done ++ begun

/-- Since this parenthesis was opened one complete expression has been read, and nothing else. -/
def Encloses (paren : Span) (before : List (Token Name)) : Prop :=
  ∃ outer us e, Derives us e ∧ before = outer ++ ⟨.leftParen, paren⟩ :: us

/-- The parentheses that are open behind a token, the innermost first. -/
def Token.track (opened : List Span) (t : Token Name) : List Span :=
  match t.kind with
  | .leftParen => t.span :: opened
  | .rightParen => opened.tail
  | _ => opened

def Token.openParens (tokens : List (Token Name)) : List Span := tokens.foldl track []

/-- Tokens that are the start of something that can be read. -/
def Continuable (before : List (Token Name)) : Prop :=
  ∃ more stop forest, (∀ t ∈ more, t.kind ≠ .endOfInput) ∧
    parse (before ++ more ++ [⟨.endOfInput, stop⟩]) = .ok forest

/-- The tokens before a place can be continued, but not so that the token there is the next one. -/
structure FirstMisfit (tokens : List (Token Name)) (p : ℕ) : Prop where
  within : p ≤ tokens.length
  continuable : Continuable (tokens.take p)
  misfit : p < tokens.length → ∀ rest forest, parse (tokens.take (p + 1) ++ rest) ≠ .ok forest

/-- What an error says of the tokens `before` it and of the one that was found at it. -/
inductive ParseError.Tells (before : List (Token Name)) (found : Token Name) :
    ParseError → Prop where
  | unclosed {paren} : Encloses paren before → (Token.openParens before).head? = some paren →
      found.kind ≠ .rightParen →
      Tells before found ⟨.unclosedParen found.kind.displayName found.span, paren⟩
  | ended : Requires before → found.kind = .endOfInput →
      Tells before found ⟨.unexpectedEnd, found.span⟩
  | reserved : Requires before → found.kind = .letWord ∨ found.kind = .arrow →
      Tells before found ⟨.reservedToken found.kind.displayName, found.span⟩
  | unexpected : Requires before → found.kind = .rightParen ∨ found.kind = .equals →
      Tells before found ⟨.unexpectedToken found.kind.displayName, found.span⟩

variable {us vs before rest ahead tokens : List (Token Name)} {e : Expr Empty} {stop paren : Span}
  {error : ParseError}

open Forest

theorem Derives.kind_ne_end (h : Derives us e) : ∀ t ∈ us, t.kind ≠ .endOfInput := by
  induction h with
  | number v s | string t s | identifier x s => simp
  | assign x s t _ ih | print s _ ih | wrap w s _ ih => simpa using ih
  | paren s t _ ih => simpa [or_imp, forall_and] using ih
  | binary op s _ _ ihl ihr =>
    simpa [or_imp, forall_and] using ⟨ihl, ihr⟩

theorem Due.exists_derives (h : Due us) (hv : Derives vs e) :
    ∃ more whole, Derives (us ++ (vs ++ more)) whole := by
  induction h with
  | whole => exact ⟨[], e, by simpa using hv⟩
  | assign x s t _ ih =>
    obtain ⟨more, whole, hd⟩ := ih
    exact ⟨more, _, .assign x s t hd⟩
  | print s _ ih =>
    obtain ⟨more, whole, hd⟩ := ih
    exact ⟨more, _, .print s hd⟩
  | wrap w s _ ih =>
    obtain ⟨more, whole, hd⟩ := ih
    exact ⟨more, _, .wrap w s hd⟩
  | paren s _ ih =>
    obtain ⟨more, whole, hd⟩ := ih
    refine ⟨more ++ [⟨.rightParen, Span.nowhere⟩], whole, ?_⟩
    simpa using Derives.paren s Span.nowhere hd
  | left op s _ ih =>
    -- The right operand is missing as well.
    obtain ⟨more, whole, hd⟩ := ih
    have hbinary := Derives.binary op s hd (.number .nan Span.nowhere)
    rw [List.append_assoc, List.append_assoc] at hbinary
    exact ⟨_, _, hbinary⟩
  | right op s hl _ ih =>
    obtain ⟨more, whole, hd⟩ := ih
    have hbinary := Derives.binary op s hl hd
    rw [← List.append_assoc] at hbinary
    exact ⟨more, _, hbinary⟩

theorem Decomposition.concat {done : List (Token Name)} {parts : List (List (Token Name))}
    {trees : Forest} (h : Decomposition done parts trees) (hu : Derives us e) :
    Decomposition (done ++ us) (parts ++ [us]) (trees ++ [e]) := by
  obtain ⟨rfl, h⟩ := h
  refine ⟨by simp, List.rel_append h ?_⟩
  exact .cons hu .nil

theorem continuable_of_due {done : List (Token Name)} {parts : List (List (Token Name))}
    {trees : Forest} (hd : Decomposition done parts trees) (hdue : Due us) (hv : Derives vs e)
    (hend : ∀ t ∈ done, t.kind ≠ .endOfInput) : Continuable (done ++ (us ++ vs)) := by
  obtain ⟨more, whole, hwhole⟩ := hdue.exists_derives hv
  have hkinds := hwhole.kind_ne_end
  have hmore : ∀ t ∈ more, t.kind ≠ .endOfInput := by
    intro t ht
    apply hkinds
    simp [ht]
  have htokens : ∀ t ∈ done ++ (us ++ vs) ++ more, t.kind ≠ .endOfInput := by
    intro t ht
    rw [List.append_assoc, List.append_assoc, List.mem_append] at ht
    exact ht.elim (hend t) (hkinds t)
  refine ⟨more, Span.nowhere, trees ++ [whole], hmore, ?_⟩
  rw [parse_append_end _ htokens, statements_ok_iff]
  refine ⟨parts ++ [us ++ (vs ++ more)], ?_⟩
  rw [List.append_assoc, List.append_assoc]
  exact hd.concat hwhole

namespace Program

theorem exists_closed_of_complete {nodes : Array Node} {id : NodeId} {pending : List Pending}
    {progress : Progress} (h : complete stop nodes id pending ahead = .ok progress) :
    ∃ closed, ahead = closed ++ progress.rest ∧ ∀ t ∈ closed, t.kind ≠ .leftParen := by
  fun_induction complete stop nodes id pending ahead with
  | case1 => cases h; exact ⟨[], rfl, by simp⟩
  | case2 _ _ _ _ _ _ _ _ _ ih | case3 _ _ _ _ _ _ _ _ ih | case4 _ _ _ _ _ _ _ _ _ ih
  | case6 _ _ _ _ _ _ _ _ _ _ ih => exact ih h
  | case5 => cases h; exact ⟨[], rfl, by simp⟩
  | case7 => cases h
  | case8 _ _ _ _ token rest hk ih =>
    obtain ⟨closed, rfl, hclosed⟩ := ih h
    refine ⟨token :: closed, rfl, ?_⟩
    intro t ht
    rcases List.mem_cons.1 ht with rfl | ht
    · simp [hk]
    · exact hclosed t ht
  | case9 => cases h

theorem exists_taken_of_start {nodes : Array Node} {pending : List Pending} {token : Token Name}
    {progress : Progress} (h : start stop nodes pending token ahead = .ok progress) :
    ∃ taken, ahead = taken ++ progress.rest ∧ ∀ t ∈ taken, t.kind ≠ .leftParen := by
  unfold start at h
  split at h
  case h_3 =>
    split at h
    · next t rest =>
      cases h
      exact ⟨[⟨.equals, t⟩], rfl, by simp⟩
    · exact exists_closed_of_complete h
  all_goals first
    | exact exists_closed_of_complete h
    | (cases h; done)
    | (cases h; exact ⟨[], rfl, by simp⟩)

/-- A parenthesis starts an operand wherever it stands, so the machine comes to it with its inside
due next. -/
theorem exists_pending_of_paren {outer : List (Token Name)} {nodes : Array Node}
    {body : Array NodeId} {pending : List Pending} {p : Program}
    (h : readFrom stop nodes body pending (outer ++ ⟨.leftParen, paren⟩ :: ahead) = .ok p) :
    ∃ nodes' body' pending',
      readFrom stop nodes' body' (.paren paren :: pending') ahead = .ok p := by
  induction hl : outer.length using Nat.strongRecOn generalizing outer nodes body pending with
  | ind n ih =>
    rcases outer with _ | ⟨token, outer⟩
    · rw [List.nil_append, readFrom_cons] at h
      exact ⟨nodes, body, pending, h⟩
    rw [List.cons_append, readFrom_cons] at h
    rcases hstart : start stop nodes pending token (outer ++ ⟨.leftParen, paren⟩ :: ahead)
      with error | progress
    · rw [hstart] at h
      cases h
    -- What the token takes with it ends before the parenthesis.
    obtain ⟨taken, hsplit, htaken⟩ := exists_taken_of_start hstart
    obtain ⟨outer', houter, hrest⟩ : ∃ outer', outer = taken ++ outer' ∧
        progress.rest = outer' ++ ⟨.leftParen, paren⟩ :: ahead := by
      rcases List.append_eq_append_iff.1 hsplit with ⟨mid, rfl, hmid⟩ | ⟨mid, rfl, hmid⟩
      · rcases mid with _ | ⟨first, mid⟩
        · exact ⟨[], by simp, by simpa using hmid.symm⟩
        · obtain ⟨rfl, -⟩ := List.cons.inj hmid
          exact absurd rfl (htaken ⟨.leftParen, paren⟩ (by simp))
      · exact ⟨mid, rfl, hmid⟩
    have hlt : outer'.length < n := by
      rw [houter] at hl
      simp at hl
      omega
    rw [hstart] at h
    cases progress with
    | statement nodes root rest =>
      obtain rfl : rest = _ := hrest
      exact ih _ hlt h rfl
    | operand nodes pending rest =>
      obtain rfl : rest = _ := hrest
      exact ih _ hlt h rfl

end Program

namespace Forest

open Program (readFrom_eq_node readFrom_eq_statements)

theorem closed_of_statements {outer : List (Token Name)} {forest : Forest}
    (h : statements stop (outer ++ ⟨.leftParen, paren⟩ :: (us ++ ahead)) = .ok forest)
    (hu : Derives us e) (hs : Separate us ahead) :
    ahead.head?.map Token.kind = some .rightParen := by
  have hread : Program.readFrom stop #[] #[] [] (outer ++ ⟨.leftParen, paren⟩ :: (us ++ ahead))
      = _ := readFrom_eq_statements #[] #[] _
  rw [h] at hread
  obtain ⟨nodes, body, pending, hinside⟩ := Program.exists_pending_of_paren hread
  rw [readFrom_eq_node _ _ _ (.inr (List.cons_ne_nil _ _)), node_of_derives hu hs] at hinside
  simp only [bind, Except.bind, List.drop_left] at hinside
  rcases ahead with _ | ⟨close, more⟩
  · cases hinside
  · by_cases hk : close.kind = .rightParen
    · simp [hk]
    · simp [Program.complete, hk, Program.resume] at hinside

end Forest

theorem Derives.foldl_track (h : Derives us e) (opened : List Span) :
    us.foldl Token.track opened = opened := by
  induction h generalizing opened with
  | number v s | string t s | identifier x s => rfl
  | assign x s t _ ih => exact ih opened
  | print s _ ih | wrap w s _ ih => exact ih opened
  | paren s t _ ih =>
    rw [List.foldl_cons, List.foldl_append, ih]
    rfl
  | binary op s _ _ ihl ihr =>
    rw [List.foldl_cons, List.foldl_append, ihl, ihr]
    rfl

theorem Encloses.head?_openParens (h : Encloses paren before) :
    (Token.openParens before).head? = some paren := by
  obtain ⟨outer, us, e, hu, rfl⟩ := h
  rw [Token.openParens, List.foldl_append, List.foldl_cons, hu.foldl_track]
  rfl

theorem exists_statements_of_parse (hend : ∀ t ∈ us, t.kind ≠ .endOfInput)
    (more : List (Token Name)) :
    ∃ stop rest, parse (us ++ more) = statements stop (us ++ rest) := by
  have hkeep : ∀ t ∈ us, (!t.kind.isEnd) = true := by
    intro t ht
    have hk := hend t ht
    cases hkind : t.kind <;> simp_all [TokenKind.isEnd]
  rw [parse, Cursor.ofTokens, List.takeWhile_append_of_pos hkeep]
  exact ⟨_, _, rfl⟩

theorem Continuable.of_append (h : Continuable (us ++ vs)) (hv : ∀ t ∈ vs, t.kind ≠ .endOfInput) :
    Continuable us := by
  obtain ⟨more, stop, forest, hmore, hparse⟩ := h
  refine ⟨vs ++ more, stop, forest, List.forall_mem_append.2 ⟨hv, hmore⟩, ?_⟩
  rwa [← List.append_assoc]

theorem Requires.not_encloses (h : Requires before) (hend : ∀ t ∈ before, t.kind ≠ .endOfInput) :
    ¬Encloses paren before := by
  rintro ⟨outer, us, e, hu, hsplit⟩
  obtain ⟨done, parts, trees, begun, hd, hdue, rfl⟩ := h
  have hdone : ∀ t ∈ done, t.kind ≠ .endOfInput := fun t ht => hend t (List.mem_append_left _ ht)
  -- A number can come next, where only the end of the parenthesis could.
  have hnumber : ∀ t ∈ done ++ begun ++ [⟨.number .nan, Span.nowhere⟩], t.kind ≠ .endOfInput := by
    refine List.forall_mem_append.2 ⟨hend, ?_⟩
    simp
  obtain ⟨more, stop, forest, -, hparse⟩ :=
    continuable_of_due hd hdue (.number .nan Span.nowhere) hdone
  rw [← List.append_assoc, List.append_assoc] at hparse
  obtain ⟨stop', rest, hread⟩ :=
    exists_statements_of_parse hnumber (more ++ [⟨.endOfInput, stop⟩])
  rw [hparse, hsplit, List.append_assoc, List.append_assoc, List.cons_append] at hread
  have hclosed := closed_of_statements hread.symm hu (by simp [Separate, NoAssignment])
  simp at hclosed

theorem FirstMisfit.le_of_continuable {p q : ℕ} (h : FirstMisfit tokens p)
    (hq : Continuable (tokens.take q)) (hle : q ≤ tokens.length) : q ≤ p := by
  by_contra hlt
  have hpq : p + 1 ≤ q := by omega
  obtain ⟨more, stop, forest, -, hparse⟩ := hq
  obtain ⟨between, hbetween⟩ : tokens.take (p + 1) <+: tokens.take q :=
    List.take_prefix_take_left hpq
  rw [← hbetween, List.append_assoc, List.append_assoc] at hparse
  exact h.misfit (by omega) _ _ hparse

theorem FirstMisfit.unique {p q : ℕ} (h : FirstMisfit tokens p) (k : FirstMisfit tokens q) :
    q = p :=
  Nat.le_antisymm (h.le_of_continuable k.continuable k.within)
    (k.le_of_continuable h.continuable h.within)

theorem tells_of_refusal? {found : Token Name} {kind : ParseErrorKind} (h : Requires before)
    (hk : refusal? found.kind = some kind) : ParseError.Tells before found ⟨kind, found.span⟩ := by
  obtain ⟨k, s⟩ := found
  cases k <;> simp only [refusal?, Option.some.injEq, reduceCtorEq] at hk <;> subst hk
  case letWord => exact .reserved h (.inl rfl)
  case arrow => exact .reserved h (.inr rfl)
  case equals => exact .unexpected h (.inr rfl)
  case rightParen => exact .unexpected h (.inl rfl)
  case endOfInput => exact .ended h rfl

section

variable {done : List (Token Name)} {parts : List (List (Token Name))} {trees : Forest}

theorem Forest.Stops.tells (h : Stops stop before ahead error)
    (hd : Decomposition done parts trees) :
    error.Tells (done ++ before) (Cursor.mk ahead stop).current := by
  cases h with
  | refused hdue _ hk => exact tells_of_refusal? ⟨done, parts, trees, before, hd, hdue, rfl⟩ hk
  | @unclosed outer us e paren hsplit hdue hu hs hk =>
    have hencloses : Encloses paren (done ++ before) := by
      refine ⟨done ++ outer, us, e, hu, ?_⟩
      rw [hsplit, List.append_assoc]
    exact .unclosed hencloses hencloses.head?_openParens hk

theorem Forest.Stops.continuable (h : Stops stop before ahead error)
    (hd : Decomposition done parts trees) (hend : ∀ t ∈ done, t.kind ≠ .endOfInput) :
    Continuable (done ++ before) := by
  cases h with
  | refused hdue _ _ =>
    have hnumber := continuable_of_due hd hdue (.number .nan Span.nowhere) hend
    rw [← List.append_assoc] at hnumber
    exact hnumber.of_append (by simp)
  | @unclosed outer us e paren hsplit hdue hu hs hk =>
    have hinside := continuable_of_due hd (hdue.append (.paren paren .whole)) hu hend
    rw [List.append_assoc] at hinside
    rwa [hsplit]

theorem firstMisfit_of_stops (hd : Decomposition done parts trees)
    (hs : Separate done (before ++ ahead)) (h : Stops stop before ahead error)
    (hend : ∀ t ∈ done ++ (before ++ ahead), t.kind ≠ .endOfInput) :
    FirstMisfit (done ++ (before ++ ahead)) (done ++ before).length := by
  have htake : (done ++ (before ++ ahead)).take (done ++ before).length = done ++ before := by
    rw [← List.append_assoc, List.take_left]
  constructor
  case within => simp
  case continuable =>
    rw [htake]
    exact h.continuable hd fun t ht => hend t (List.mem_append_left _ ht)
  case misfit =>
    intro hlt more forest hparse
    rcases ahead with _ | ⟨t, rest⟩
    · simp at hlt
    have htake : (done ++ (before ++ t :: rest)).take ((done ++ before).length + 1)
        = done ++ before ++ [t] := by
      rw [← List.append_assoc, List.append_cons, List.take_left']
      rw [List.length_append, List.length_singleton]
    have hkinds : ∀ u ∈ done ++ before ++ [t], u.kind ≠ .endOfInput := by
      rw [← htake]
      exact fun u hu => hend u (List.mem_of_mem_take hu)
    obtain ⟨stop', rest', hread⟩ := exists_statements_of_parse hkinds more
    rw [htake, hread, List.append_assoc, List.append_assoc, List.singleton_append,
      statements_of_stops hd hs h] at hparse
    cases hparse

end

/-- An error is found at the first token that cannot be the next one: the tokens before it are the
start of something that can be read, and together with it they are not. It tells an unclosed
parenthesis exactly if an expression has just been completed in one, and then the innermost one
that is open; in all other cases an expression was required, and the kind of the token decides. -/
theorem parse_fails_at_the_first_misfit (tokens : List (Token Name)) (stop : Span)
    (error : ParseError) (hend : ∀ t ∈ tokens, t.kind ≠ .endOfInput)
    (h : parse (tokens ++ [⟨.endOfInput, stop⟩]) = .error error) :
    ∃ p found, (tokens ++ [⟨.endOfInput, stop⟩])[p]? = some found ∧ FirstMisfit tokens p ∧
      (∀ q, FirstMisfit tokens q → q = p) ∧ error.Tells (tokens.take p) found ∧
      ((∃ text s, error.kind = .unclosedParen text s) ↔
        ∃ paren, Encloses paren (tokens.take p)) := by
  rw [parse_append_end stop hend] at h
  obtain ⟨done, parts, trees, before, ahead, rfl, hd, hs, hstops⟩ := stops_of_statements h
  have hmisfit := firstMisfit_of_stops hd hs hstops hend
  have htells := hstops.tells hd
  have htake : (done ++ (before ++ ahead)).take (done ++ before).length = done ++ before := by
    rw [← List.append_assoc, List.take_left]
  refine ⟨(done ++ before).length, (Cursor.mk ahead stop).current, ?_, hmisfit,
    fun q hq => hmisfit.unique hq, ?_⟩
  · rw [← List.append_assoc, List.append_assoc, List.getElem?_append_right (Nat.le_refl _),
      Nat.sub_self]
    cases ahead <;> rfl
  rw [htake]
  refine ⟨htells, ?_⟩
  have hbefore : ∀ t ∈ done ++ before, t.kind ≠ .endOfInput := by
    rw [← htake]
    exact fun t ht => hend t (List.mem_of_mem_take ht)
  constructor
  · rintro ⟨text, s, hk⟩
    cases htells with
    | unclosed hencloses => exact ⟨_, hencloses⟩
    | ended | reserved | unexpected => cases hk
  · rintro ⟨paren, hencloses⟩
    cases htells with
    | unclosed => exact ⟨_, _, rfl⟩
    | ended hrequires | reserved hrequires | unexpected hrequires =>
      exact absurd hencloses (hrequires.not_encloses hbefore)

/-- `print ( ( x ) = 1` as tokens. -/
def unclosedGroup : List (Token Name) :=
  [⟨.printWord, ⟨0, 5⟩⟩, ⟨.leftParen, ⟨6, 7⟩⟩, ⟨.leftParen, ⟨8, 9⟩⟩, ⟨.identifier ⟨6⟩, ⟨10, 11⟩⟩,
    ⟨.rightParen, ⟨12, 13⟩⟩, ⟨.equals, ⟨14, 15⟩⟩, ⟨.number ⟨0x3ff0000000000000⟩, ⟨16, 17⟩⟩]

/-- The inner parenthesis is closed, so `=` makes no assignment, and it is the outer one that is
told to be open. -/
theorem unclosedGroup_fails_at_equals :
    (∀ t ∈ unclosedGroup, t.kind ≠ .endOfInput) ∧
    parse (unclosedGroup ++ [⟨.endOfInput, ⟨17, 17⟩⟩])
      = .error ⟨.unclosedParen "`=`" ⟨14, 15⟩, ⟨6, 7⟩⟩ ∧
    FirstMisfit unclosedGroup 5 ∧ Encloses ⟨6, 7⟩ (unclosedGroup.take 5) := by
  have hend : ∀ t ∈ unclosedGroup, t.kind ≠ .endOfInput := by decide
  have hparse : parse (unclosedGroup ++ [⟨.endOfInput, ⟨17, 17⟩⟩])
      = .error ⟨.unclosedParen "`=`" ⟨14, 15⟩, ⟨6, 7⟩⟩ := by decide +kernel
  have hplace : ∀ p < 8, (unclosedGroup ++ [⟨.endOfInput, ⟨17, 17⟩⟩])[p]?.map Token.span
      = some ⟨14, 15⟩ → p = 5 := by decide
  refine ⟨hend, hparse, ?_⟩
  obtain ⟨p, found, hfound, hmisfit, -, htells, -⟩ :=
    parse_fails_at_the_first_misfit _ _ _ hend hparse
  obtain ⟨hlt, -⟩ := List.getElem?_eq_some_iff.1 hfound
  -- Only the place of the token found is needed of what the error tells.
  generalize hs : (⟨14, 15⟩ : Span) = s at htells
  generalize "`=`" = text at htells
  cases htells with
  | unclosed hencloses _ _ =>
    obtain rfl : p = 5 := by
      apply hplace p hlt
      rw [hfound, Option.map_some, hs]
    exact ⟨hmisfit, hencloses⟩

end PrefixLang
