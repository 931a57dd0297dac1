import PrefixLang.Proofs.Places
import PrefixLang.Proofs.Seams
/-!
Tokens that are written apart from each other. White space ends every token, also where a comment
follows it, so what is read from such a source is what was written: `lex_undoes_spacing`.
-/

namespace PrefixLang

open Computability

namespace Pattern

def line : Language Char := comment * exactly "\n"

/-- White space and lines of comment, in any order. -/
def layout : Language Char := (one (isSeparator ·) + line)∗

/-- What parts two tokens: layout that begins with white space. -/
def gap : Language Char := one (isSeparator ·) * layout

variable {rest : List Char}

theorem nil_mem_layout : [] ∈ layout := Language.nil_mem_kstar _

theorem line_mem_layout (text : List Char) (htext : ∀ c ∈ text, c ≠ '\n')
    (hrest : rest ∈ layout) :
    '/' :: '/' :: (text ++ '\n' :: rest) ∈ layout := by
  have hcomment : '/' :: '/' :: text ∈ comment := mem_comment.2 ⟨text, rfl, htext⟩
  have hline : '/' :: '/' :: text ++ ['\n'] ∈ line := ⟨_, hcomment, _, rfl, rfl⟩
  have hmem : _ ∈ layout := append_mem_kstar (.inr hline) hrest
  rwa [List.append_assoc] at hmem

theorem mem_gap {c : Char} (hc : isSeparator c = true) (hrest : rest ∈ layout) : c :: rest ∈ gap :=
  ⟨[c], ⟨c, hc, rfl⟩, rest, hrest, rfl⟩

theorem mem_layout_of_mem_gap : ∀ s ∈ gap, s ∈ layout := by
  rintro s ⟨front, hfront, rest, hrest, rfl⟩
  exact append_mem_kstar (.inl hfront) hrest

end Pattern

/-- A token as it is written: what stands in front of it, and its text. -/
structure WrittenToken where
  gap : List Char
  text : List Char
  kind : TokenKind String

namespace WrittenToken

/-- The source that consists of these tokens and of what follows the last one. -/
def print (tokens : List WrittenToken) (trail : List Char) : List Char :=
  (tokens.flatMap fun t => t.gap ++ t.text) ++ trail

def place (offset : ℕ) : List WrittenToken → List (Token String)
  | [] => []
  | t :: rest =>
    let start := offset + bytes t.gap
    ⟨t.kind, start, start + bytes t.text⟩ :: place (start + bytes t.text) rest

/-- Tokens that are written apart, each with a text of its kind. What may stand in front of the
first one is given. The last one may be followed by white space and comments, the last of them
without its line feed. -/
def Apart (front : Language Char) : List WrittenToken → List Char → Prop
  | [], trail => trail = [] ∨ trail ∈ front * (1 + Pattern.comment)
  | t :: rest, trail =>
    t.gap ∈ front ∧ Matches t.text (.token t.kind) ∧ Apart Pattern.gap rest trail

end WrittenToken

namespace Piece

variable {text rest : List Char} {kind : TokenKind String}

theorem read?_comment (h : text ∈ Pattern.comment) (hrest : ∀ c ∈ rest.head?, c = '\n') :
    read? (text ++ rest) = some (.comment, text, rest) := by
  obtain ⟨tail, rfl, ht⟩ := Pattern.mem_comment.1 h
  obtain ⟨htake, hdrop⟩ := run_ends (p := fun c => decide (c ≠ '\n')) (by simpa using ht)
    fun c hc => by simp [hrest c hc]
  rw [List.cons_append, List.cons_append, read?, htake, hdrop]

theorem read?_word_append (h : text ∈ Pattern.word)
    (hrest : ∀ c ∈ rest.head?, isWordPart c = false) :
    read? (text ++ rest) = some (.token (ofWord text), text, rest) := by
  obtain ⟨c, tail, rfl, hc, ht⟩ := Pattern.mem_run.1 h
  obtain ⟨htake, hdrop⟩ := run_ends ht hrest
  rw [List.cons_append, read?_word _ hc, htake, hdrop]

private theorem head_not {p : Char → Bool} (hrest : ∀ c ∈ rest.head?, isSeparator c = true)
    (hp : ∀ c, p c = true → isSeparator c = false) : ∀ c ∈ rest.head?, p c = false := by
  intro c hc
  by_contra hpc
  have hs := hp c (Bool.eq_true_of_not_eq_false hpc)
  rw [hrest c hc] at hs
  cases hs

theorem read?_token (h : Matches text (.token kind))
    (hrest : ∀ c ∈ rest.head?, isSeparator c = true) :
    read? (text ++ rest) = some (.token kind, text, rest) := by
  have hpart := head_not hrest fun c => not_separator_of_wordPart
  have hdigit := head_not hrest fun c hc => not_separator_of_wordPart (wordPart_of_digit hc)
  have hnext : ∀ d, isSeparator d = false → rest.head? ≠ some d := by
    intro d hd hc
    rw [hrest d hc] at hd
    cases hd
  have hsymbol : ∀ {c kind}, symbol? c = some kind →
      read? (c :: rest) = some (.token kind, [c], rest) := by
    intro c kind hc
    apply read?_symbol hc
    · exact fun h => hnext '>' (by decide) h.2
    · exact fun h => hnext '/' (by decide) h.2
  cases h with
  | fixed h =>
    rcases List.mem_append.1 h with h | h
    · simp only [List.mem_cons, Prod.mk.injEq, List.not_mem_nil, or_false] at h
      rcases h with ⟨rfl, rfl⟩ | ⟨rfl, rfl⟩ | ⟨rfl, rfl⟩ | ⟨rfl, rfl⟩ | ⟨rfl, rfl⟩ | ⟨rfl, rfl⟩ |
        ⟨rfl, rfl⟩ | ⟨rfl, rfl⟩
      · rfl
      all_goals exact hsymbol rfl
    · obtain ⟨hw, rfl⟩ := keyword_word h
      exact read?_word_append hw hpart
  | number h =>
    obtain ⟨c, tail, rfl, hc, ht⟩ := Pattern.mem_run.1 h
    obtain ⟨htake, hdrop⟩ := run_ends ht hdigit
    rw [List.cons_append, read?_digits _ hc, htake, hdrop]
  | @string body h =>
    obtain ⟨body', hb, he⟩ := Pattern.mem_string.1 h
    obtain rfl : body = body' := by simpa using he
    rw [List.cons_append, List.append_assoc, read?_string]
    simp [Pattern.closeString_append hb]
  | identifier h hk =>
    rw [← ofWord_identifier hk]
    exact read?_word_append h hpart

end Piece

namespace Lexeme

theorem scanList_commentLine {front : List Char} (h : front ∈ Pattern.line) (offset : ℕ)
    (s : List Char) : scanList offset (front ++ s) = scanList (offset + bytes front) s := by
  obtain ⟨text, htext, _, rfl, rfl⟩ := h
  have hread : Piece.read? (text ++ '\n' :: s) = some (.comment, text, '\n' :: s) :=
    Piece.read?_comment htext fun c hc => (Option.some.inj hc).symm
  have hnone : ofPiece offset .comment text = [] := rfl
  show scanList offset (text ++ ['\n'] ++ s) = scanList (offset + bytes (text ++ ['\n'])) s
  rw [List.append_assoc, List.singleton_append, scanList_some hread, hnone, List.nil_append,
    scanList_separator (by decide), bytes_append, bytes_singleton, Nat.add_assoc]

theorem scanList_layout {front : List Char} (h : front ∈ Pattern.layout) (offset : ℕ)
    (s : List Char) : scanList offset (front ++ s) = scanList (offset + bytes front) s := by
  revert offset
  refine Pattern.kstar_induction (motive := fun front => ∀ offset,
    scanList offset (front ++ s) = scanList (offset + bytes front) s) ?nil ?append h
  case nil =>
    intro offset
    rfl
  case append =>
    intro part rest hpart ih offset
    rw [List.append_assoc, bytes_append, ← Nat.add_assoc, ← ih]
    rcases hpart with ⟨c, hc, rfl⟩ | hline
    · rw [List.singleton_append, scanList_separator hc, bytes_singleton]
    · exact scanList_commentLine hline offset _

end Lexeme

namespace WrittenToken

variable {tokens : List WrittenToken} {trail : List Char} {front : Language Char}

@[simp] theorem print_nil (trail : List Char) : print [] trail = trail := rfl

theorem print_cons (t : WrittenToken) (rest : List WrittenToken) (trail : List Char) :
    print (t :: rest) trail = t.gap ++ (t.text ++ print rest trail) := by
  simp [print]

theorem Apart.head_print (h : Apart Pattern.gap tokens trail) :
    ∀ c ∈ (print tokens trail).head?, isSeparator c = true := by
  have hgap : ∀ s ∈ Pattern.gap, ∀ more, ∀ c ∈ (s ++ more).head?, isSeparator c = true := by
    rintro _ ⟨_, ⟨c, hc, rfl⟩, rest, -, rfl⟩ more d hd
    obtain rfl := Option.some.inj hd
    exact hc
  cases tokens with
  | nil =>
    rcases h with rfl | ⟨s, hs, rest, -, rfl⟩
    · intro c hc
      cases hc
    · exact hgap s hs rest
  | cons t rest =>
    rw [print_cons]
    exact hgap t.gap h.1 _

theorem scanList_trail (hfront : ∀ s ∈ front, s ∈ Pattern.layout) (h : Apart front [] trail)
    (offset : ℕ) : Lexeme.scanList offset trail = ([], .ok (offset + bytes trail)) := by
  rcases h with rfl | ⟨s, hs, rest, hrest, rfl⟩
  · exact Lexeme.scanList_nil offset
  · show Lexeme.scanList offset (s ++ rest) = ([], .ok (offset + bytes (s ++ rest)))
    rw [Lexeme.scanList_layout (hfront s hs)]
    rcases hrest with rfl | hcomment
    · rw [Lexeme.scanList_nil, List.append_nil]
    · have hread : Piece.read? (rest ++ []) = some (.comment, rest, []) :=
        Piece.read?_comment hcomment fun c hc => nomatch hc
      rw [List.append_nil] at hread
      rw [Lexeme.scanList_some hread, Lexeme.scanList_nil, bytes_append, Nat.add_assoc]
      rfl

/-- What is scanned is what was written. -/
theorem scanList_print (hfront : ∀ s ∈ front, s ∈ Pattern.layout) (h : Apart front tokens trail)
    (offset : ℕ) :
    (Lexeme.scanList offset (print tokens trail)).1.map Lexeme.token = place offset tokens ∧
      (Lexeme.scanList offset (print tokens trail)).2
        = .ok (offset + bytes (print tokens trail)) := by
  induction tokens generalizing front offset with
  | nil =>
    rw [print_nil, scanList_trail hfront h]
    exact ⟨rfl, rfl⟩
  | cons t rest ih =>
    obtain ⟨hgap, hmatch, hrest⟩ := h
    have hread := Piece.read?_token hmatch hrest.head_print
    obtain ⟨htokens, hstop⟩ := ih Pattern.mem_layout_of_mem_gap hrest
      (offset + bytes t.gap + bytes t.text)
    rw [print_cons, Lexeme.scanList_layout (hfront _ hgap), Lexeme.scanList_some hread, hstop]
    refine ⟨congrArg _ htokens, ?_⟩
    rw [bytes_append, bytes_append, ← Nat.add_assoc, ← Nat.add_assoc]

theorem covers_place {before source : List Char} (h : source = before ++ print tokens trail) :
    List.Forall₂ (fun w t => t.span.Covers source w.text) tokens (place (bytes before) tokens) := by
  induction tokens generalizing before with
  | nil => exact .nil
  | cons t rest ih =>
    have hstart : bytes before + bytes t.gap = bytes (before ++ t.gap) := (bytes_append _ _).symm
    have hnext : bytes (before ++ t.gap) + bytes t.text = bytes (before ++ t.gap ++ t.text) :=
      (bytes_append _ _).symm
    have hsource : source = before ++ t.gap ++ (t.text ++ print rest trail) := by
      rw [h, print_cons, List.append_assoc]
    rw [place]
    simp only [hstart]
    refine .cons ⟨before ++ t.gap, print rest trail, hsource, rfl⟩ ?_
    rw [hnext]
    apply ih
    rw [hsource, List.append_assoc (before ++ t.gap)]

end WrittenToken

open WrittenToken (Apart print place)

/-- Reading a source of tokens that are written apart gives just these tokens, each of its kind and
at the place of its text, and the end of the source behind them. -/
theorem lex_undoes_spacing (names : NameTable) (written : List WrittenToken) (trail : List Char)
    (hn : names.WellFormed) (happart : Apart Pattern.layout written trail)
    (hsize : bytes (print written trail) ≤ Span.maxOffset) :
    ∃ tokens names', lex names (String.ofList (print written trail))
        = (.ok (tokens ++ [⟨.endOfInput, Span.point (bytes (print written trail))⟩]), names') ∧
      tokens.map (Token.spell names') = place 0 written ∧
      (∀ t ∈ tokens, t.NamedBy names') ∧
      List.Forall₂ (fun w t => t.span.Covers (print written trail) w.text ∧
        Span.ofRange t.span.start t.span.stop = .ok t.span) written tokens := by
  obtain ⟨htokens, hstop⟩ := WrittenToken.scanList_print (fun _ h => h) happart 0
  obtain ⟨hnamed, hspell⟩ := Token.spell_internAll hn
    ((Lexeme.scanList 0 (print written trail)).1.map Lexeme.token)
  rw [htokens] at hspell hnamed
  refine ⟨_, _, ?_, hspell, hnamed, ?_⟩
  · rw [lex_eq_tokens, Session.tokens, Lexeme.scan_eq_scanList, String.toList_ofList, hstop,
      htokens, Nat.zero_add]
    rfl
  · have hsource : print written trail = [] ++ print written trail := rfl
    have hcovers : List.Forall₂ _ written (place 0 written) := WrittenToken.covers_place hsource
    rw [← hspell, List.forall₂_map_right_iff] at hcovers
    refine hcovers.imp ?_
    intro w t h
    exact ⟨h, Span.ofRange_eq_ok h.sound.le (h.sound.stop.le.trans hsize)⟩

/-- `/ 12 "\""` with a comment in front of each token but the last one. -/
def commentedTokens : List WrittenToken :=
  [⟨['/', '/', 'a', '\n'], ['/'], .operator .div⟩,
    ⟨[' ', '/', '/', '\n'], ['1', '2'], .number (Binary64.ofNat 12)⟩,
    ⟨['\ufeff'], ['"', '\\', '"', '"'], .string "\\\""⟩]

/-- Neither the operator nor the number grows into the comment behind it, and the escaped quote does
not close the string. -/
theorem commentedTokens_are_read :
    NameTable.initial.WellFormed ∧ Apart Pattern.layout commentedTokens [' ', '/', '/', 'c'] ∧
    bytes (print commentedTokens [' ', '/', '/', 'c']) ≤ Span.maxOffset ∧
    ∃ tokens names', lex NameTable.initial "//a\n/ //\n12\ufeff\"\\\"\" //c"
        = (.ok (tokens ++ [⟨.endOfInput, ⟨22, 22⟩⟩]), names') ∧
      tokens.map (Token.spell names') = [⟨.operator .div, ⟨4, 5⟩⟩,
        ⟨.number (Binary64.ofNat 12), ⟨9, 11⟩⟩, ⟨.string "\\\"", ⟨14, 18⟩⟩] := by
  have hdiv : Matches ['/'] (.token (.operator .div)) := @Matches.fixed "/" _ (by decide)
  have hdigits : ['1', '2'] ∈ Pattern.digits :=
    Pattern.mem_run.2 ⟨'1', ['2'], rfl, by decide, by simp⟩
  have hquote : '"' :: (['\\', '"'] ++ ['"']) ∈ Pattern.string := Pattern.mem_string.2
    ⟨_, Pattern.escape_mem_contents (by decide) Pattern.nil_mem_contents, rfl⟩
  have hcomment : ['/', '/', 'c'] ∈ Pattern.comment := Pattern.mem_comment.2 ⟨['c'], rfl, by simp⟩
  have happart : Apart Pattern.layout commentedTokens [' ', '/', '/', 'c'] := by
    refine ⟨Pattern.line_mem_layout ['a'] (by simp) Pattern.nil_mem_layout, hdiv,
      Pattern.mem_gap (by decide) (Pattern.line_mem_layout [] (by simp)
        Pattern.nil_mem_layout), .number hdigits,
      Pattern.mem_gap (by decide) Pattern.nil_mem_layout, .string hquote, .inr ?_⟩
    exact ⟨[' '], Pattern.mem_gap (by decide) Pattern.nil_mem_layout, _, .inr hcomment, rfl⟩
  have hsize : bytes (print commentedTokens [' ', '/', '/', 'c']) ≤ Span.maxOffset := by decide
  obtain ⟨tokens, names', hlex, hspell, -⟩ :=
    lex_undoes_spacing _ _ _ NameTable.initial_wellFormed happart hsize
  exact ⟨NameTable.initial_wellFormed, happart, hsize, tokens, names', hlex, hspell⟩

end PrefixLang
