import PrefixLang.Proofs.Numbering
import PrefixLang.Proofs.Positions
/-!
The names that reading a source gives. They go by the texts that stand in the source, and the table
grows by the new ones among these texts, also if the source ends with an error: `lex_names_texts`.
-/

namespace PrefixLang

/-- What a piece of source has a name for: an identifier as it stands there, a string without its
quotes. -/
def Piece.named? : Piece × List Char → Option String
  | (.token (.identifier _), text) => some (String.ofList text)
  | (.token (.string _), text) => some (String.ofList text.tail.dropLast)
  | _ => none

/-- The text that a token has a name for, as it stands at the place of the token. -/
def Token.Writes (source : List Char) (t : Token Name) (text : String) : Prop :=
  match t.kind with
  | .identifier _ => t.span.Covers source text.toList
  | .string _ => t.span.Covers source ('"' :: (text.toList ++ ['"']))
  | _ => False

theorem Matches.named?_eq {piece : Piece} {text : List Char} (h : Matches text piece) :
    Piece.named? (piece, text) = match piece with
      | .token kind => kind.contents?
      | _ => none := by
  cases piece with
  | separator | comment => rfl
  | token kind =>
    cases kind with
    | identifier word =>
      obtain rfl := h.eq_of_identifier
      simp [Piece.named?, TokenKind.contents?]
    | string word =>
      obtain rfl := h.eq_of_string
      simp [Piece.named?, TokenKind.contents?]
    | _ => rfl

theorem contents_lexemesFrom {pieces : List (Piece × List Char)}
    (hm : ∀ p ∈ pieces, Matches p.2 p.1) (offset : ℕ) :
    (lexemesFrom offset pieces).filterMap (fun l => l.kind.contents?)
      = pieces.filterMap Piece.named? := by
  induction pieces generalizing offset with
  | nil => rfl
  | cons first rest ih =>
    obtain ⟨piece, text⟩ := first
    obtain ⟨hfirst, hrest⟩ := List.forall_mem_cons.1 hm
    have hnamed := hfirst.named?_eq
    rw [lexemesFrom, List.filterMap_append, ih hrest, List.filterMap_cons, hnamed]
    cases piece with
    | separator | comment => rfl
    | token kind => cases kind <;> rfl

theorem Token.Writes.unique {t : Token Name} {source : List Char} {a b : String}
    (ha : t.Writes source a) (hb : t.Writes source b) : a = b := by
  obtain ⟨kind, s⟩ := t
  cases kind with
  | identifier x => exact String.toList_injective (Span.Covers.unique ha hb)
  | string x =>
    have hquoted := List.cons.inj (Span.Covers.unique ha hb)
    exact String.toList_injective (List.append_cancel_right hquoted.2)
  | _ => exact ha.elim

namespace NameTable

variable {t u : NameTable} {texts : List String}

theorem eraseDups_of_nodup (h : texts.Nodup) : texts.eraseDups = texts := by
  induction texts using List.reverseRecOn with
  | nil => rfl
  | append_singleton texts s ih =>
    obtain ⟨hnodup, -, hnew⟩ := List.nodup_append.1 h
    have hs : s ∉ texts := fun hs => hnew s hs s List.mem_cons_self rfl
    rw [eraseDups_concat, ih hnodup, if_neg hs]

theorem WellFormed.numbered (h : t.WellFormed) : Numbered t.texts.toList t where
  texts := (eraseDups_of_nodup h.nodup).symm
  numbers := h

theorem WellFormed.respond (h : t.WellFormed) (call : Call) : (t.respond call).2.WellFormed := by
  cases call with
  | intern s => exact intern_wellFormed h s
  | lookup x => exact h
  | tryIntern s =>
    by_cases hroom : t.name? s = none → t.texts.size ≤ Name.maxIndex
    · rw [NameTable.respond, tryIntern_of_room hroom]
      exact intern_wellFormed h s
    · obtain ⟨hnew, hfull⟩ := Classical.not_imp.1 hroom
      rw [NameTable.respond, tryIntern_of_full hnew (by omega)]
      exact h

theorem after_wellFormed (calls : List Call) : (after calls).WellFormed := by
  induction calls using List.reverseRecOn with
  | nil => exact initial_wellFormed
  | append_singleton calls call ih =>
    rw [after_concat]
    exact ih.respond call

/-- A table to which more texts were told. The new ones stand behind the old ones, each once and in
the order in which they come first, and a text is numbered by where it stands. -/
structure Learns (t u : NameTable) (texts : List String) : Prop where
  texts : u.texts.toList
    = t.texts.toList ++ (texts.filter fun s => s ∉ t.texts.toList).eraseDups
  numbers : u.WellFormed
  kept : ∀ s x, t.name? s = some x → u.name? s = some x
  lookup : ∀ x, t.Knows x → u.lookup x = t.lookup x

theorem learns_of_numbered (h : t.WellFormed) (hu : Numbered (t.texts.toList ++ texts) u) :
    t.Learns u texts := by
  have hextends := h.numbered.extends hu
  constructor
  case texts =>
    have hremove : texts.removeAll t.texts.toList = texts.filter fun s => s ∉ t.texts.toList := by
      simp [List.removeAll]
    rw [hu.texts, List.eraseDups_append, eraseDups_of_nodup h.nodup, hremove]
  case numbers => exact hu.numbers
  case kept =>
    intro s x hx
    exact hextends.name? h hu.numbers hx
  case lookup =>
    intro x hx
    exact hextends.lookup hx

end NameTable

theorem Token.numbered_internAll {names : NameTable} {texts : List String}
    (h : NameTable.Numbered texts names) (tokens : List (Token String)) :
    NameTable.Numbered (texts ++ tokens.filterMap fun t => t.kind.contents?)
      (internAll names tokens).2 := by
  induction tokens generalizing names texts with
  | nil => rwa [List.filterMap_nil, List.append_nil]
  | cons token rest ih =>
    rw [internAll_cons]
    obtain ⟨kind, s⟩ := token
    cases kind with
    | string text | identifier text =>
      have hrest := ih (h.intern text)
      rwa [List.append_assoc] at hrest
    | _ => exact ih h

/-- Tokens whose names stand for what is written at their places. -/
structure Token.NameTexts (names : NameTable) (source : List Char) (tokens : List (Token Name)) :
    Prop where
  lookup : ∀ t ∈ tokens, ∀ x, t.kind.contents? = some x →
    ∀ text, t.Writes source text ↔ names.lookup x = text
  same : ∀ t ∈ tokens, ∀ u ∈ tokens, ∀ x y, t.kind.contents? = some x →
    u.kind.contents? = some y → ∀ text text', t.Writes source text → u.Writes source text' →
      (x = y ↔ text = text')

namespace Session

variable {names : NameTable} {source : String} {t : Token Name} {x : Name}

theorem writes_lookup (hn : names.WellFormed) (ht : t ∈ (tokens names source).1)
    (hx : t.kind.contents? = some x) :
    t.Writes source.toList ((tokens names source).2.lookup x) := by
  obtain ⟨l, hl, hkind, hspan⟩ := exists_lexeme hn ht
  obtain ⟨hmatch, hcovers⟩ := Lexeme.covers_text hl
  obtain ⟨kind, s⟩ := t
  cases kind with
  | identifier y =>
    cases hx
    rw [hkind] at hmatch
    rw [hspan, hmatch.eq_of_identifier] at hcovers
    exact hcovers
  | string y =>
    cases hx
    rw [hkind] at hmatch
    rw [hspan, hmatch.eq_of_string] at hcovers
    exact hcovers
  | _ => cases hx

theorem nameTexts_tokens (hn : names.WellFormed) (source : String) :
    Token.NameTexts (tokens names source).2 source.toList (closedTokens names source) := by
  have hmem : ∀ t ∈ closedTokens names source, ∀ x, t.kind.contents? = some x →
      t ∈ (tokens names source).1 := by
    intro t ht x hx
    rcases List.mem_append.1 ht with ht | ht
    · exact ht
    · obtain rfl := List.mem_singleton.1 ht
      cases hx
  have hwrites : ∀ t ∈ closedTokens names source, ∀ x, t.kind.contents? = some x →
      ∀ text, t.Writes source.toList text ↔ (tokens names source).2.lookup x = text := by
    intro t ht x hx text
    have hlookup := writes_lookup hn (hmem t ht x hx) hx
    constructor
    · exact hlookup.unique
    · rintro rfl
      exact hlookup
  constructor
  case lookup => exact hwrites
  case same =>
    intro t ht u hu x y hx hy text text' htext htext'
    obtain ⟨hnamed, -⟩ := spell_tokens hn source
    obtain rfl := (hwrites t ht x hx text).1 htext
    obtain rfl := (hwrites u hu y hy text').1 htext'
    constructor
    · rintro rfl
      rfl
    · exact NameTable.lookup_injective (Token.internAll_wellFormed hn _)
        (hnamed t (hmem t ht x hx) x hx) (hnamed u (hmem u hu y hy) y hy)

theorem contents_tokens (hn : names.WellFormed) (source : String) :
    (closedTokens names source).filterMap
        (fun t => t.kind.contents?.map (tokens names source).2.lookup)
      = (Lexeme.scan source).1.filterMap fun l => l.kind.contents? := by
  have hspell := congrArg (List.filterMap fun t : Token String => t.kind.contents?)
    (spell_tokens hn source).2
  rw [List.filterMap_map, List.filterMap_map] at hspell
  have hcontents : (fun t : Token Name => t.kind.contents?.map (tokens names source).2.lookup)
      = (fun t : Token String => t.kind.contents?) ∘ Token.spell (tokens names source).2 := by
    funext t
    exact (TokenKind.contents?_map _ t.kind).symm
  rw [closedTokens, List.filterMap_append, hcontents, hspell]
  exact List.append_nil _

end Session

theorem LexError.start_at (offset : ℕ) (c : Char) (more : List Char) :
    (LexError.at offset c more).span.start = offset := by
  by_cases hc : c = '"'
  · rw [LexError.at, if_pos hc]
  · rw [LexError.at, if_neg hc]

/-- Reading a source cuts it into pieces, up to its end or to an error, and the table learns the
texts of the identifiers and strings among them, wherever it has its names from. Names of tokens
stand for what is written at their places, and two tokens have one name if the same is written
there. -/
theorem lex_names_texts (calls : List NameTable.Call) (source : String) :
    ∃ pieces remainder, Munch source.toList pieces remainder ∧
      (NameTable.after calls).Learns (lex (NameTable.after calls) source).2
        (pieces.filterMap Piece.named?) ∧
      match (lex (NameTable.after calls) source).1 with
      | .ok tokens => remainder = [] ∧
        Token.NameTexts (lex (NameTable.after calls) source).2 source.toList tokens ∧
        tokens.filterMap (fun t =>
            t.kind.contents?.map (lex (NameTable.after calls) source).2.lookup)
          = pieces.filterMap Piece.named?
      | .error e => remainder ≠ [] ∧ e.span.start = bytes (textOf pieces) := by
  have hn := NameTable.after_wellFormed calls
  obtain ⟨pieces, remainder, hm⟩ := Munch.exists_munch source.toList
  have hscan : Lexeme.scan source = (lexemesFrom 0 pieces, Munch.ending 0 pieces remainder) := by
    rw [Lexeme.scan_eq_scanList, hm.scanList_of_munch]
  have hcontents := contents_lexemesFrom hm.matches_of_mem 0
  refine ⟨pieces, remainder, hm, ?_, ?_⟩
  · apply NameTable.learns_of_numbered hn
    have hnumbered := Token.numbered_internAll hn.numbered ((lexemesFrom 0 pieces).map Lexeme.token)
    rw [List.filterMap_map] at hnumbered
    rw [lex_eq _ hm, ← hcontents]
    exact hnumbered
  · rcases hlex : lex (NameTable.after calls) source with ⟨error | tokens, names⟩
    · rw [lex_eq_tokens, hscan] at hlex
      cases remainder with
      | nil => cases hlex
      | cons c more =>
        cases hlex
        refine ⟨List.cons_ne_nil c more, ?_⟩
        rw [LexError.start_at, Nat.zero_add]
    · obtain ⟨n, hend, rfl, rfl⟩ := Session.exists_of_lex hlex
      rw [hscan] at hend
      cases remainder with
      | nil =>
        refine ⟨rfl, Session.nameTexts_tokens hn source, ?_⟩
        rw [Session.contents_tokens hn, hscan, hcontents]
      | cons c more => cases hend

end PrefixLang
