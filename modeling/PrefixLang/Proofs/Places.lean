import PrefixLang.Proofs.Blame
import PrefixLang.Proofs.Bindings
/-!
Where errors point. Spans begin and end between characters when tokens are cut from a source, and
merging keeps it so; what an error says about the text at its place is what stands there.
-/

namespace PrefixLang

namespace Span

/-- An offset at which a character starts or the text ends. -/
def Boundary (source : List Char) (n : ℕ) : Prop := ∃ before, before <+: source ∧ bytes before = n

/-- A span that begins and ends between characters. -/
structure Sound (source : List Char) (s : Span) : Prop where
  start : Boundary source s.start
  stop : Boundary source s.stop
  le : s.start ≤ s.stop

variable {source text a b : List Char} {s t : Span}

theorem prefix_of_bytes_le (ha : a <+: source) (hb : b <+: source) (h : bytes a ≤ bytes b) :
    a <+: b := by
  rcases List.prefix_or_prefix_of_prefix ha hb with hab | ⟨more, rfl⟩
  · exact hab
  · have hmore : more = [] := by
      by_contra hne
      have hpos := bytes_pos hne
      rw [bytes_append] at h
      omega
    rw [hmore, List.append_nil]

theorem eq_of_bytes_eq (ha : a <+: source) (hb : b <+: source) (h : bytes a = bytes b) : a = b := by
  have hab := prefix_of_bytes_le ha hb h.le
  have hba := prefix_of_bytes_le hb ha h.ge
  exact hab.eq_of_length (Nat.le_antisymm hab.length_le hba.length_le)

theorem Covers.wide (h : s.Covers source text) (hne : text ≠ []) : s.start < s.stop := by
  obtain ⟨before, after, -, rfl⟩ := h
  have hpos := bytes_pos hne
  simp only
  omega

theorem Covers.unique (ha : s.Covers source a) (hb : s.Covers source b) : a = b := by
  obtain ⟨before, after, hsource, rfl⟩ := ha
  obtain ⟨before', after', hsource', hs⟩ := hb
  obtain ⟨hstart, hstop⟩ := Span.mk.inj hs
  have hfront : before <+: source := ⟨_, hsource.symm⟩
  have hfront' : before' <+: source := ⟨_, hsource'.symm⟩
  obtain rfl := eq_of_bytes_eq hfront hfront' hstart
  rw [hsource] at hsource'
  have hrest := List.append_cancel_left hsource'
  have htext : b <+: a ++ after := ⟨_, hrest.symm⟩
  apply eq_of_bytes_eq (List.prefix_append a after) htext
  omega

theorem Covers.sound (h : s.Covers source text) : s.Sound source := by
  obtain ⟨before, after, rfl, rfl⟩ := h
  have hfront : before ++ text <+: before ++ (text ++ after) := by
    rw [← List.append_assoc]
    exact List.prefix_append _ _
  exact ⟨⟨before, List.prefix_append _ _, rfl⟩, ⟨_, hfront, bytes_append _ _⟩, Nat.le_add_right _ _⟩

theorem Boundary.le {n : ℕ} (h : Boundary source n) : n ≤ bytes source := by
  obtain ⟨before, ⟨after, rfl⟩, rfl⟩ := h
  rw [bytes_append]
  exact Nat.le_add_right _ _

theorem Sound.covers (h : s.Sound source) : ∃ text, s.Covers source text := by
  obtain ⟨⟨a, ha, hstart⟩, ⟨b, hb, hstop⟩, hle⟩ := h
  have hab : a <+: b := prefix_of_bytes_le ha hb (by omega)
  obtain ⟨text, rfl⟩ := hab
  obtain ⟨after, rfl⟩ := hb
  refine ⟨text, a, after, List.append_assoc _ _ _, ?_⟩
  rw [← bytes_append, hstop, hstart]

theorem Sound.merge (hs : s.Sound source) (ht : t.Sound source) : (s.merge t).Sound source where
  start := by
    rw [Span.merge]
    rcases min_choice s.start t.start with h | h
    · rw [h]; exact hs.start
    · rw [h]; exact ht.start
  stop := by
    rw [Span.merge]
    rcases max_choice s.stop t.stop with h | h
    · rw [h]; exact hs.stop
    · rw [h]; exact ht.stop
  le := (Nat.min_le_left _ _).trans (hs.le.trans (Nat.le_max_left _ _))

theorem sound_point {n : ℕ} (h : Boundary source n) : (point n).Sound source :=
  ⟨h, h, Nat.le_refl n⟩

theorem sound_end (source : String) : (point source.utf8ByteSize).Sound source.toList := by
  rw [← bytes_toList]
  exact sound_point ⟨source.toList, List.prefix_rfl, rfl⟩

end Span

private theorem displayName_of_fixed : ∀ p ∈ Pattern.fixed,
    p.2.displayName ∉ ["number", "string", "identifier"] := by decide

theorem Matches.eq_of_fixed {text : List Char} {word : String} {kind : TokenKind String}
    (h : Matches text (.token kind)) (hw : (word, kind) ∈ Pattern.fixed) : text = word.toList := by
  have hsame : ∀ p ∈ Pattern.fixed, ∀ q ∈ Pattern.fixed, p.2 = q.2 → p.1 = q.1 := by decide
  have hplain := displayName_of_fixed _ hw
  cases h with
  | fixed hmem => exact congrArg String.toList (hsame _ hmem _ hw rfl)
  | number _ => exact absurd (by simp [Piece.ofDigits, TokenKind.displayName]) hplain
  | string _ | identifier _ _ => exact absurd (by simp [TokenKind.displayName]) hplain

theorem Matches.eq_of_identifier {text : List Char} {word : String}
    (h : Matches text (.token (.identifier word))) : text = word.toList := by
  generalize hk : TokenKind.identifier word = kind at h
  cases h with
  | fixed hmem =>
    have hplain := displayName_of_fixed _ hmem
    rw [← hk] at hplain
    exact absurd (by simp [TokenKind.displayName]) hplain
  | number _ => cases hk
  | string _ => cases hk
  | identifier _ _ =>
    obtain rfl := TokenKind.identifier.inj hk
    exact String.toList_ofList.symm

theorem Matches.eq_of_string {text : List Char} {word : String}
    (h : Matches text (.token (.string word))) : text = '"' :: (word.toList ++ ['"']) := by
  generalize hk : TokenKind.string word = kind at h
  cases h with
  | fixed hmem =>
    have hplain := displayName_of_fixed _ hmem
    rw [← hk] at hplain
    exact absurd (by simp [TokenKind.displayName]) hplain
  | number _ => cases hk
  | string _ =>
    obtain rfl := TokenKind.string.inj hk
    rw [String.toList_ofList]
  | identifier _ _ => cases hk

namespace Lexeme

variable {source : String} {l : Lexeme}

theorem covers_text (hl : l ∈ (scan source).1) :
    Matches l.text.toList (.token l.kind) ∧ l.span.Covers source.toList l.text.toList := by
  obtain ⟨pieces, remainder, hm⟩ := Munch.exists_munch source.toList
  rw [scan_eq_scanList, hm.scanList_of_munch] at hl
  have hplace : source.toList = [] ++ (textOf pieces ++ remainder) := hm.text_append
  exact covers_of_mem hplace hm.matches_of_mem hl

theorem pairwise_scan (source : String) :
    (scan source).1.Pairwise fun l m => l.span.stop ≤ m.span.start := by
  obtain ⟨pieces, remainder, hm⟩ := Munch.exists_munch source.toList
  rw [scan_eq_scanList, hm.scanList_of_munch]
  exact pairwise_lexemesFrom 0 pieces

theorem eq_size_of_scan {n : ℕ} (h : (scan source).2 = .ok n) : n = source.utf8ByteSize := by
  obtain ⟨pieces, remainder, hm⟩ := Munch.exists_munch source.toList
  rw [scan_eq_scanList, hm.scanList_of_munch] at h
  cases remainder with
  | nil =>
    cases h
    rw [Nat.zero_add, ← bytes_toList, hm.text_append, List.append_nil]
  | cons c more => cases h

end Lexeme

namespace Session

variable {names : NameTable} {source : String} {t : Token Name}

/-- The tokens of a source with the end of the input. -/
def closedTokens (names : NameTable) (source : String) : List (Token Name) :=
  (tokens names source).1 ++ [⟨.endOfInput, Span.point source.utf8ByteSize⟩]

theorem exists_lexeme (hn : names.WellFormed) (ht : t ∈ (tokens names source).1) :
    ∃ l ∈ (Lexeme.scan source).1, l.kind = t.kind.map (tokens names source).2.lookup ∧
      l.span = t.span := exists_lexeme_of_spelled (spell_tokens hn source).2 ht

theorem sound_of_mem (hn : names.WellFormed) (ht : t ∈ (tokens names source).1) :
    t.span.Sound source.toList := by
  obtain ⟨l, hl, -, hspan⟩ := exists_lexeme hn ht
  rw [← hspan]
  exact (Lexeme.covers_text hl).2.sound

theorem covers_of_fixed (hn : names.WellFormed) (ht : t ∈ (tokens names source).1) {word : String}
    (hw : (word, t.kind.map (tokens names source).2.lookup) ∈ Pattern.fixed) :
    t.span.Covers source.toList word.toList := by
  obtain ⟨l, hl, hkind, hspan⟩ := exists_lexeme hn ht
  obtain ⟨hmatch, hcovers⟩ := Lexeme.covers_text hl
  rw [← hkind] at hw
  rwa [← hspan, ← hmatch.eq_of_fixed hw]

theorem pairwise_closedTokens (hn : names.WellFormed) (source : String) :
    (closedTokens names source).Pairwise fun t u => t.span.stop ≤ u.span.start := by
  have hspans := spans_of_spelled (spell_tokens hn source).2
  have hlexemes : ((Lexeme.scan source).1.map Lexeme.span).Pairwise fun s t => s.stop ≤ t.start :=
    List.pairwise_map.2 (Lexeme.pairwise_scan source)
  rw [← hspans] at hlexemes
  refine List.pairwise_append.2 ⟨List.pairwise_map.1 hlexemes, List.pairwise_singleton _ _, ?_⟩
  intro t ht u hu
  rw [List.mem_singleton.1 hu, ← bytes_toList]
  exact (sound_of_mem hn ht).stop.le

end Session

/-- What an error says of the text at its place is what stands there. -/
def Failure.PointsAt (source : String) : Failure → Prop
  | .lex ⟨.invalidCharacter found, s⟩ => s.Covers source.toList [found]
  | .lex ⟨.unterminatedString, s⟩ =>
    (∃ rest, s.Covers source.toList ('"' :: rest)) ∧ s.stop = source.utf8ByteSize
  | .parse ⟨.unexpectedToken found, s⟩ =>
    ∃ word ∈ [")", "="], found = "`" ++ word ++ "`" ∧ s.Covers source.toList word.toList
  | .parse ⟨.reservedToken found, s⟩ =>
    ∃ word ∈ ["let", "=>"], found = "`" ++ word ++ "`" ∧ s.Covers source.toList word.toList
  | .parse ⟨.unexpectedEnd, s⟩ => s = Span.point source.utf8ByteSize
  | .parse ⟨.unclosedParen found foundSpan, s⟩ =>
    s.Covers source.toList ['('] ∧ s.stop ≤ foundSpan.start ∧
      (found = "end of input" ∧ foundSpan = Span.point source.utf8ByteSize ∨
        ∃ l ∈ (Lexeme.scan source).1, l.kind ≠ .rightParen ∧ found = l.kind.displayName ∧
          foundSpan = l.span ∧ l.span.Covers source.toList l.text.toList)
  | .eval ⟨.undefinedIdentifier name, s⟩ =>
    s.Covers source.toList name.toList ∧
      ∃ l ∈ (Lexeme.scan source).1, l.kind = .identifier name ∧ l.span = s
  | .eval ⟨.operand error, s⟩ =>
    ∃ forest, (Session.read NameTable.initial source).1 = .ok forest ∧
      (Program.ofForest forest).HasOperand error.operator error.side s

section

variable {names : NameTable} {source : String}

theorem Forest.refusal?_cases {k : TokenKind Name} {kind : ParseErrorKind} (f : Name → String)
    (h : refusal? k = some kind) :
    (∃ word ∈ [")", "="], (word, k.map f) ∈ Pattern.fixed ∧
      kind = .unexpectedToken ("`" ++ word ++ "`")) ∨
    (∃ word ∈ ["let", "=>"], (word, k.map f) ∈ Pattern.fixed ∧
      kind = .reservedToken ("`" ++ word ++ "`")) ∨
    k = .endOfInput ∧ kind = .unexpectedEnd := by
  cases k <;> simp only [refusal?, Option.some.injEq, reduceCtorEq] at h <;> subst h
  case letWord =>
    have hw : ("let", TokenKind.letWord) ∈ Pattern.fixed := by decide
    exact .inr (.inl ⟨"let", by decide, hw, by decide⟩)
  case arrow =>
    have hw : ("=>", TokenKind.arrow) ∈ Pattern.fixed := by decide
    exact .inr (.inl ⟨"=>", by decide, hw, by decide⟩)
  case equals =>
    have hw : ("=", TokenKind.equals) ∈ Pattern.fixed := by decide
    exact .inl ⟨"=", by decide, hw, by decide⟩
  case rightParen =>
    have hw : (")", TokenKind.rightParen) ∈ Pattern.fixed := by decide
    exact .inl ⟨")", by decide, hw, by decide⟩
  case endOfInput => exact .inr (.inr ⟨rfl, rfl⟩)

theorem TokenKind.map_eq_rightParen {τ σ : Type} {f : τ → σ} {kind : TokenKind τ}
    (h : kind.map f = .rightParen) : kind = .rightParen := by
  cases kind <;> first | rfl | cases h

theorem pointsAt_of_scan {e : LexError} (h : (Lexeme.scan source).2 = .error e) :
    e.span.Sound source.toList ∧ (Failure.lex e).PointsAt source := by
  obtain ⟨pieces, remainder, hm⟩ := Munch.exists_munch source.toList
  rw [Lexeme.scan_eq_scanList, hm.scanList_of_munch] at h
  have htext := hm.text_append
  cases remainder with
  | nil => cases h
  | cons c more =>
    rw [Munch.ending, Nat.zero_add] at h
    obtain rfl := Except.error.inj h
    by_cases hc : c = '"'
    · subst hc
      have hcovers : Span.Covers
          ⟨bytes (textOf pieces), bytes (textOf pieces) + bytes ('"' :: more)⟩
          source.toList ('"' :: more) := ⟨_, [], by rw [List.append_nil]; exact htext, rfl⟩
      have hstop : bytes (textOf pieces) + bytes ('"' :: more) = source.utf8ByteSize := by
        rw [← bytes_toList, htext, bytes_append]
      rw [LexError.at, if_pos rfl]
      exact ⟨hcovers.sound, ⟨more, hcovers⟩, hstop⟩
    · have hcovers : Span.Covers ⟨bytes (textOf pieces), bytes (textOf pieces) + c.utf8Size⟩
          source.toList [c] := ⟨_, more, htext, by rw [bytes_singleton]⟩
      rw [LexError.at, if_neg hc]
      exact ⟨hcovers.sound, hcovers⟩

theorem pointsAt_of_blames (hn : names.WellFormed) {e : ParseError}
    (h : Forest.Blames (Session.closedTokens names source) e) :
    e.span.Sound source.toList ∧ (Failure.parse e).PointsAt source := by
  cases h with
  | @refused t kind ht hk =>
    rcases List.mem_append.1 ht with ht | ht
    · rcases Forest.refusal?_cases (Session.tokens names source).2.lookup hk with
        ⟨word, hmem, hw, rfl⟩ | ⟨word, hmem, hw, rfl⟩ | ⟨hk, -⟩
      · exact ⟨Session.sound_of_mem hn ht, word, hmem, rfl, Session.covers_of_fixed hn ht hw⟩
      · exact ⟨Session.sound_of_mem hn ht, word, hmem, rfl, Session.covers_of_fixed hn ht hw⟩
      · exact absurd hk (Session.kind_ne_end hn source t ht)
    · obtain rfl := List.mem_singleton.1 ht
      obtain rfl := Option.some.inj hk
      exact ⟨Span.sound_end source, rfl⟩
  | @unclosed paren found hpair hk =>
    have hparen : ⟨.leftParen, paren⟩ ∈ (Session.tokens names source).1 := by
      rcases List.mem_append.1 (hpair.subset List.mem_cons_self) with hm | hm
      · exact hm
      · cases List.mem_singleton.1 hm
    have hword : ("(", TokenKind.leftParen) ∈ Pattern.fixed := by decide
    have hcovers : paren.Covers source.toList "(".toList := Session.covers_of_fixed hn hparen hword
    have hle : paren.stop ≤ found.span.start :=
      (Session.pairwise_closedTokens hn source).forall_sublist hpair
    refine ⟨hcovers.sound, hcovers, hle, ?_⟩
    have hfound := hpair.subset (List.mem_cons_of_mem _ List.mem_cons_self)
    rcases List.mem_append.1 hfound with hm | hm
    · obtain ⟨l, hl, hkind, hspan⟩ := Session.exists_lexeme hn hm
      refine .inr ⟨l, hl, ?_, ?_, hspan.symm, (Lexeme.covers_text hl).2⟩
      · intro hright
        exact hk (TokenKind.map_eq_rightParen (hkind.symm.trans hright))
      · rw [hkind, TokenKind.displayName_map]
    · obtain rfl := List.mem_singleton.1 hm
      exact .inl ⟨rfl, rfl⟩

theorem pointsAt_of_evaluate {forest : Forest} {env : Environment} {e : EvalError}
    (hread : (Session.read NameTable.initial source).1 = .ok forest)
    (hd : ∃ parts, Decomposition (Session.tokens NameTable.initial source).1 parts forest)
    (h : (evaluate (Session.tokens NameTable.initial source).2 forest env).1 = .error (.error e)) :
    e.span.Sound source.toList ∧ (Failure.eval e).PointsAt source := by
  have hn := NameTable.initial_wellFormed
  obtain ⟨tree, htree, hblames⟩ := Evaluation.blames_of_evaluate h
  obtain ⟨parts, hd⟩ := hd
  obtain ⟨us, hus, htokens⟩ := hd.exists_derives htree
  have hsound : e.span.Sound source.toList :=
    hblames.span_induction (fun _ _ => Span.Sound.merge)
      (fun _ ht => Session.sound_of_mem hn (hus.subset ht)) htokens
  cases hblames with
  | @undefined x s hx =>
    obtain ⟨vs, hvs, hv⟩ := htokens.of_mem_subtrees hx
    have hmem := hus.subset (hvs.subset hv.identifier_mem)
    obtain ⟨l, hl, hkind, hspan⟩ := Session.exists_lexeme hn hmem
    obtain ⟨hmatch, hcovers⟩ := Lexeme.covers_text hl
    rw [hkind] at hmatch
    rw [hspan, hmatch.eq_of_identifier] at hcovers
    exact ⟨hsound, hcovers, l, hl, hkind, hspan⟩
  | @operand l r s error ho =>
    exact ⟨hsound, forest, hread, Program.hasOperand_ofForest htree ho error.side⟩

theorem pointsAt_of_run {format : Format} {failure : Failure}
    (h : runSource format source = .error failure) :
    failure.span.Sound source.toList ∧ failure.PointsAt source := by
  have hn := NameTable.initial_wellFormed
  rw [runSource, Session.run, Session.evaluate_eq] at h
  have hread := Session.read_eq hn source
  have hinitial : Session.initial.names = NameTable.initial := rfl
  rw [hinitial, hread] at h
  rcases hscan : (Lexeme.scan source).2 with e | n
  · rw [hscan] at h
    cases h
    exact pointsAt_of_scan hscan
  rw [hscan] at h hread
  obtain rfl := Lexeme.eq_size_of_scan hscan
  simp only [Except.mapError, bind, Except.bind] at h hread
  rcases hforest : Forest.statements (Span.point source.utf8ByteSize)
    (Session.tokens NameTable.initial source).1 with e | forest
  · rw [hforest] at h
    cases h
    exact pointsAt_of_blames hn (Forest.blames_of_statements hforest)
  rw [hforest] at h hread
  simp only at h
  rcases hrun : evaluate (Session.tokens NameTable.initial source).2 forest
    Session.initial.bindings with ⟨stop | outputs, env⟩
  · rw [hrun] at h
    cases h
    cases stop with
    | error e =>
      have hresult := congrArg Prod.fst hrun
      exact pointsAt_of_evaluate (congrArg Prod.fst hread) (Forest.statements_ok_iff.1 hforest)
        hresult
    | hole reason => exact reason.elim
  · rw [hrun] at h
    cases h

/-- Every error of a run points at the text it talks about: its span lies in the source, between
characters, is one that offsets can hold, and covers what the error says of it. -/
theorem errors_point_at_their_text (format : Format) (source : String) (failure : Failure)
    (hrun : runSource format source = .error failure)
    (hsize : source.utf8ByteSize ≤ Span.maxOffset) :
    failure.span.start ≤ failure.span.stop ∧ failure.span.stop ≤ source.utf8ByteSize ∧
      Span.ofRange failure.span.start failure.span.stop = .ok failure.span ∧
      (∃ text, failure.span.Covers source.toList text) ∧ failure.PointsAt source := by
  obtain ⟨hsound, hpoints⟩ := pointsAt_of_run hrun
  have hstop := hsound.stop.le
  rw [bytes_toList] at hstop
  have hrange := Span.ofRange_eq_ok hsound.le (hstop.trans hsize)
  exact ⟨hsound.le, hstop, hrange, hsound.covers, hpoints⟩

/-- The operand that is no number stands in parentheses, with characters of two bytes before it and
in it. -/
theorem quotient_points_at_its_operand :
    ∃ failure, runSource .plain "// ü\n/ 6 (\"ß\")" = .error failure ∧
      "// ü\n/ 6 (\"ß\")".utf8ByteSize ≤ Span.maxOffset ∧ failure.span = ⟨11, 15⟩ ∧
      failure.PointsAt "// ü\n/ 6 (\"ß\")" := by
  have hrun : runSource .plain "// ü\n/ 6 (\"ß\")"
      = .error (.eval ⟨.operand (.notNumeric .div .right "string"), ⟨11, 15⟩⟩) := by decide +kernel
  have hsize : "// ü\n/ 6 (\"ß\")".utf8ByteSize ≤ Span.maxOffset := by decide
  obtain ⟨-, -, -, -, hpoints⟩ := errors_point_at_their_text .plain _ _ hrun hsize
  exact ⟨_, hrun, hsize, rfl, hpoints⟩

end

end PrefixLang
