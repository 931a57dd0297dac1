import PrefixLang.Proofs.NameTable
import PrefixLang.Proofs.Scanning
/-!
What the lexer makes of a source: the tokens among its longest matches and where they stand, or the
error at the first place where nothing matches.
-/

namespace PrefixLang

open Computability

def Pattern.trivia : Language Char := (Pattern.separator + Pattern.comment)∗

/-- A span covers a text: its ends are between characters, and the text is what lies there. -/
def Span.Covers (s : Span) (source text : List Char) : Prop :=
  ∃ before after, source = before ++ (text ++ after) ∧ s = ⟨bytes before, bytes before + bytes text⟩

/-- Nothing but white space and comments lies between two spans. -/
def Span.Gap (source : List Char) (s t : Span) : Prop :=
  ∃ gap ∈ Pattern.trivia, Span.Covers ⟨s.stop, t.start⟩ source gap

theorem Span.ofRange_eq_ok {s : Span} (h : s.start ≤ s.stop) (hs : s.stop ≤ Span.maxOffset) :
    Span.ofRange s.start s.stop = .ok s := by
  rw [ofRange, if_neg (by omega), if_neg (by omega)]

theorem trivia_append {gap text : List Char} (hg : gap ∈ Pattern.trivia)
    (ht : text ∈ Pattern.separator ∨ text ∈ Pattern.comment) : gap ++ text ∈ Pattern.trivia := by
  obtain ⟨parts, rfl, h⟩ := Language.mem_kstar.1 hg
  refine Language.mem_kstar.2 ⟨parts ++ [text], by simp, fun y hy => ?_⟩
  rcases List.mem_append.1 hy with hy | hy
  · exact h y hy
  · rwa [List.mem_singleton.1 hy]

theorem Matches.ne_nil {text : List Char} {piece : Piece} (h : Matches text piece) : text ≠ [] := by
  rintro rfl
  obtain ⟨piece', text', rest', hread, -⟩ := Piece.read?_of_matches h []
  simp [Piece.read?] at hread

section Places

variable {source before remainder : List Char} {pieces : List (Piece × List Char)}

theorem covers_of_mem (hsource : source = before ++ (textOf pieces ++ remainder))
    (hm : ∀ p ∈ pieces, Matches p.2 p.1) {l : Lexeme} (hl : l ∈ lexemesFrom (bytes before) pieces) :
    Matches l.text.toList (.token l.kind) ∧ l.span.Covers source l.text.toList := by
  induction pieces generalizing before with
  | nil => cases hl
  | cons first rest ih =>
    obtain ⟨piece, text⟩ := first
    have hrest : source = (before ++ text) ++ (textOf rest ++ remainder) := by
      rw [hsource]; simp [textOf]
    rw [lexemesFrom] at hl
    rcases List.mem_append.1 hl with hl | hl
    · cases piece with
      | separator | comment => cases hl
      | token kind =>
        obtain rfl := List.mem_singleton.1 hl
        simp only [String.toList_ofList]
        exact ⟨hm _ List.mem_cons_self, before, textOf rest ++ remainder,
          by rw [hrest, List.append_assoc], rfl⟩
    · rw [← bytes_append] at hl
      exact ih hrest (fun p hp => hm p (List.mem_cons_of_mem _ hp)) hl

theorem start_le_of_mem {offset : ℕ} {l : Lexeme} (hl : l ∈ lexemesFrom offset pieces) :
    offset ≤ l.span.start := by
  induction pieces generalizing offset with
  | nil => cases hl
  | cons first rest ih =>
    obtain ⟨piece, text⟩ := first
    rw [lexemesFrom] at hl
    rcases List.mem_append.1 hl with hl | hl
    · cases piece with
      | separator | comment => cases hl
      | token kind => obtain rfl := List.mem_singleton.1 hl; exact le_rfl
    · exact (Nat.le_add_right _ _).trans (ih hl)

theorem pairwise_lexemesFrom (offset : ℕ) (pieces : List (Piece × List Char)) :
    (lexemesFrom offset pieces).Pairwise (fun l m => l.span.stop ≤ m.span.start) := by
  induction pieces generalizing offset with
  | nil => exact .nil
  | cons first rest ih =>
    obtain ⟨piece, text⟩ := first
    cases piece with
    | separator | comment => exact ih _
    | token kind => exact .cons (fun m hm => start_le_of_mem hm) (ih _)

/-- From the span of the last token on, past a gap already seen, the pieces leave only gaps between
the tokens and before the place that follows them. -/
theorem chain_lexemesFrom {last : Span} {gap before' : List Char}
    (hsource : source = before ++ (textOf pieces ++ remainder))
    (hbefore : before = before' ++ gap) (hlast : last.stop = bytes before')
    (hgap : gap ∈ Pattern.trivia) (hm : ∀ p ∈ pieces, Matches p.2 p.1) :
    List.IsChain (Span.Gap source) (last :: ((lexemesFrom (bytes before) pieces).map Lexeme.span
      ++ [Span.point (bytes before + bytes (textOf pieces))])) := by
  induction pieces generalizing last gap before before' with
  | nil =>
    refine .cons_cons ⟨gap, hgap, before', textOf [] ++ remainder, ?_, ?_⟩ (.singleton _)
    · rw [hsource, hbefore, List.append_assoc]
    · simp [hlast, hbefore, Span.point, textOf]
  | cons first rest ih =>
    obtain ⟨piece, text⟩ := first
    have hmatch := hm _ List.mem_cons_self
    have hm' : ∀ p ∈ rest, Matches p.2 p.1 := fun p hp => hm p (List.mem_cons_of_mem _ hp)
    have hrest : source = (before ++ text) ++ (textOf rest ++ remainder) := by
      rw [hsource]; simp [textOf]
    have hend : bytes before + bytes (textOf ((piece, text) :: rest))
        = bytes (before ++ text) + bytes (textOf rest) := by simp [textOf, Nat.add_assoc]
    rw [lexemesFrom, ← bytes_append, hend]
    cases piece with
    | separator | comment =>
      have ht : text ∈ Pattern.separator ∨ text ∈ Pattern.comment := by cases hmatch; tauto
      exact ih hrest (by rw [hbefore, List.append_assoc]) hlast (trivia_append hgap ht) hm'
    | token kind =>
      refine .cons_cons ⟨gap, hgap, before', text ++ (textOf rest ++ remainder), ?_, ?_⟩ ?_
      · rw [hrest, hbefore]; simp
      · simp [hlast, hbefore]
      · exact ih hrest (List.append_nil _).symm (bytes_append before text).symm
          (Language.nil_mem_kstar _) hm'

end Places

theorem Munch.matches_of_mem {s remainder : List Char} {pieces : List (Piece × List Char)}
    (h : Munch s pieces remainder) : ∀ p ∈ pieces, Matches p.2 p.1 := by
  induction h with
  | stop _ => intro p hp; cases hp
  | piece hl _ ih =>
    intro p hp
    rcases List.mem_cons.1 hp with rfl | hp
    · exact hl.matched
    · exact ih p hp

theorem lex_eq (names : NameTable) {source : String} {pieces : List (Piece × List Char)}
    {remainder : List Char} (h : Munch source.toList pieces remainder) :
    lex names source = ((Munch.ending 0 pieces remainder).map fun n =>
        (Token.internAll names ((lexemesFrom 0 pieces).map Lexeme.token)).1
          ++ [⟨.endOfInput, Span.point n⟩],
      (Token.internAll names ((lexemesFrom 0 pieces).map Lexeme.token)).2) := by
  rw [lex, Lexeme.scan_eq_scanList, h.scanList_of_munch]

theorem spans_of_spelled {names : NameTable} {tokens : List (Token Name)} {lexemes : List Lexeme}
    (h : tokens.map (Token.spell names) = lexemes.map Lexeme.token) :
    tokens.map Token.span = lexemes.map Lexeme.span := by
  have hspans := congrArg (List.map Token.span) h
  simpa only [List.map_map, Function.comp_def, Token.spell, Token.map, Lexeme.token, id]
    using hspans

theorem exists_lexeme_of_spelled {names : NameTable} {tokens : List (Token Name)}
    {lexemes : List Lexeme} (h : tokens.map (Token.spell names) = lexemes.map Lexeme.token)
    {t : Token Name} (ht : t ∈ tokens) :
    ∃ l ∈ lexemes, l.kind = t.kind.map names.lookup ∧ l.span = t.span := by
  have hmem : t.spell names ∈ lexemes.map Lexeme.token := by
    rw [← h]
    exact List.mem_map_of_mem ht
  obtain ⟨l, hl, htoken⟩ := List.mem_map.1 hmem
  exact ⟨l, hl, congrArg Token.kind htoken, congrArg Token.span htoken⟩

theorem places_of_spelled {names : NameTable} {source : List Char} {tokens : List (Token Name)}
    {pieces : List (Piece × List Char)} (hsource : source = textOf pieces)
    (hm : ∀ p ∈ pieces, Matches p.2 p.1) (hsize : bytes source ≤ Span.maxOffset)
    (h : tokens.map (Token.spell names) = (lexemesFrom 0 pieces).map Lexeme.token) :
    (∀ t ∈ tokens, t.span.start < t.span.stop ∧ Span.ofRange t.span.start t.span.stop = .ok t.span ∧
      ∃ text, Matches text (.token (t.spell names).kind) ∧ t.span.Covers source text) ∧
    tokens.Pairwise (fun t u => t.span.stop ≤ u.span.start) ∧
    List.IsChain (Span.Gap source)
      (Span.point 0 :: (tokens.map Token.span ++ [Span.point (bytes source)])) := by
  have hplace : source = [] ++ (textOf pieces ++ []) := by rw [hsource]; simp
  have hspans := spans_of_spelled h
  refine ⟨?_, ?_, ?_⟩
  · intro t ht
    obtain ⟨l, hl, hlkind, hlspan⟩ := exists_lexeme_of_spelled h ht
    obtain ⟨hmatch, hcover⟩ := covers_of_mem hplace hm hl
    have hkind : (t.spell names).kind = l.kind := hlkind.symm
    rw [← hlspan, hkind]
    obtain ⟨before, after, hsplit, hs⟩ := id hcover
    have hpos := bytes_pos hmatch.ne_nil
    have hle : bytes before + (bytes l.text.toList + bytes after) = bytes source := by
      rw [hsplit, bytes_append, bytes_append]
    refine ⟨?_, Span.ofRange_eq_ok ?_ ?_, _, hmatch, hcover⟩
    all_goals simp only [hs]; omega
  · have hpair : ((lexemesFrom 0 pieces).map Lexeme.span).Pairwise (fun s t => s.stop ≤ t.start) :=
      List.pairwise_map.2 (pairwise_lexemesFrom 0 pieces)
    rw [← hspans] at hpair
    exact List.pairwise_map.1 hpair
  · have hstart : (Span.point 0).stop = bytes [] := rfl
    have hchain := chain_lexemesFrom hplace (List.append_nil _).symm hstart
      (Language.nil_mem_kstar _) hm
    rwa [bytes_nil, ← hspans, Nat.zero_add, ← hsource] at hchain

theorem LexError.at_places {source before more : List Char} {c : Char}
    (hsource : source = before ++ c :: more) (hsize : bytes source ≤ Span.maxOffset) :
    ∃ e, LexError.at (bytes before) c more = e ∧ e.span.start = bytes before ∧
      Span.ofRange e.span.start e.span.stop = .ok e.span ∧
      (c = '"' → e.kind = .unterminatedString ∧ e.span.stop = bytes source) ∧
      (c ≠ '"' → e.kind = .invalidCharacter c ∧ e.span.Covers source [c]) := by
  refine ⟨_, rfl, ?_⟩
  have hbytes : bytes source = bytes before + bytes (c :: more) := by rw [hsource, bytes_append]
  by_cases hc : c = '"'
  · have hat : LexError.at (bytes before) c more
        = ⟨.unterminatedString, ⟨bytes before, bytes before + bytes (c :: more)⟩⟩ := if_pos hc
    rw [hat, ← hbytes]
    refine ⟨rfl, Span.ofRange_eq_ok (s := ⟨_, _⟩) ?_ hsize, fun _ => ⟨rfl, rfl⟩,
      fun h => absurd hc h⟩
    show bytes before ≤ bytes source
    omega
  · have hat : LexError.at (bytes before) c more
        = ⟨.invalidCharacter c, ⟨bytes before, bytes before + c.utf8Size⟩⟩ := if_neg hc
    have hcons := bytes_cons c more
    rw [hat]
    refine ⟨rfl, Span.ofRange_eq_ok (s := ⟨_, _⟩) ?_ ?_, fun h => absurd h hc,
      fun _ => ⟨rfl, before, more, hsource, by rw [bytes_singleton]⟩⟩
    · show bytes before ≤ bytes before + c.utf8Size
      omega
    · show bytes before + c.utf8Size ≤ Span.maxOffset
      omega

/-- Reading a source takes the longest match again and again, which can be done in one way only. If
nothing remains, the tokens are the matches that are no white space and no comments, each of the
kind and at the place of its text, with gaps of white space and comments between them and the end of
the source behind them. Else the error is at the first place where nothing matches. -/
theorem lex_is_maximal_munch (names : NameTable) (source : String) (hn : names.WellFormed)
    (hsize : source.utf8ByteSize ≤ Span.maxOffset) :
    ∃ pieces remainder, Munch source.toList pieces remainder ∧
      (∀ pieces' remainder', Munch source.toList pieces' remainder' →
        pieces' = pieces ∧ remainder' = remainder) ∧
      match remainder with
      | [] => ∃ tokens, (lex names source).1
            = .ok (tokens ++ [⟨.endOfInput, Span.point source.utf8ByteSize⟩]) ∧
          tokens.map (Token.spell (lex names source).2)
            = (lexemesFrom 0 pieces).map Lexeme.token ∧
          (∀ t ∈ tokens, t.span.start < t.span.stop ∧
            Span.ofRange t.span.start t.span.stop = .ok t.span ∧
            ∃ text, Matches text (.token (t.spell (lex names source).2).kind) ∧
              t.span.Covers source.toList text) ∧
          tokens.Pairwise (fun t u => t.span.stop ≤ u.span.start) ∧
          List.IsChain (Span.Gap source.toList)
            (Span.point 0 :: (tokens.map Token.span ++ [Span.point source.utf8ByteSize]))
      | c :: _ => ∃ e, (lex names source).1 = .error e ∧
          e.span.start = bytes (textOf pieces) ∧
          Span.ofRange e.span.start e.span.stop = .ok e.span ∧
          (c = '"' → e.kind = .unterminatedString ∧ e.span.stop = source.utf8ByteSize) ∧
          (c ≠ '"' → e.kind = .invalidCharacter c ∧ e.span.Covers source.toList [c]) := by
  obtain ⟨pieces, remainder, hm⟩ := Munch.exists_munch source.toList
  refine ⟨pieces, remainder, hm, fun _ _ hm' => hm.unique hm', ?_⟩
  have hlex := lex_eq names hm
  have htext := hm.text_append
  cases remainder with
  | nil =>
    obtain ⟨-, hspell⟩ := Token.spell_internAll hn ((lexemesFrom 0 pieces).map Lexeme.token)
    have hsource : source.toList = textOf pieces := by rw [htext, List.append_nil]
    have hplaces := places_of_spelled hsource hm.matches_of_mem (by rwa [bytes_toList]) hspell
    rw [bytes_toList] at hplaces
    have hend : 0 + bytes (textOf pieces) = source.utf8ByteSize := by
      rw [Nat.zero_add, ← hsource, bytes_toList]
    rw [hlex]
    exact ⟨_, by rw [Munch.ending, hend]; rfl, hspell, hplaces⟩
  | cons c _ =>
    obtain ⟨e, he, hplaces⟩ := LexError.at_places htext (by rwa [bytes_toList])
    refine ⟨e, ?_, ?_⟩
    · rw [hlex, ← he, Munch.ending, Nat.zero_add]
      rfl
    · rwa [bytes_toList] at hplaces

/-- The quote of `x "é` is the first place where nothing matches, and it is where the error is. -/
theorem lex_finds_open_string :
    NameTable.initial.WellFormed ∧ "x \"é".utf8ByteSize ≤ Span.maxOffset ∧
    ∃ e, (lex NameTable.initial "x \"é").1 = .error e ∧ e.kind = .unterminatedString ∧
      e.span = ⟨2, 5⟩ := by
  have hsize : "x \"é".utf8ByteSize ≤ Span.maxOffset := by decide
  refine ⟨NameTable.initial_wellFormed, hsize, ?_⟩
  obtain ⟨pieces, remainder, -, hunique, hlex⟩ :=
    lex_is_maximal_munch NameTable.initial "x \"é" NameTable.initial_wellFormed hsize
  have hopen : Piece.read? ['"', 'é'] = none := by decide
  have hm : Munch ['x', ' ', '"', 'é']
      [(.token (.identifier "x"), ['x']), (.separator, [' '])] ['"', 'é'] :=
    .of_read? rfl (.of_read? rfl (.stop (read?_eq_none_iff.1 hopen)))
  obtain ⟨rfl, rfl⟩ := hunique _ _ hm
  obtain ⟨e, he, hstart, -, hquote, -⟩ := hlex
  obtain ⟨hkind, hstop⟩ := hquote rfl
  exact ⟨e, he, hkind, by cases hs : e.span; simp_all; decide⟩

end PrefixLang
