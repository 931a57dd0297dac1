import PrefixLang.Proofs.Renaming
import PrefixLang.Proofs.Scanning
/-!
Sources that are joined by a line feed. A line feed ends every piece but white space, and white
space leaves no lexeme, so the lexemes of the parts are those of the whole, each at its place.
-/

namespace PrefixLang

variable {s text rest : List Char} {piece : Piece}

namespace Piece

theorem closeString_more {seen found : List Char} (h : closeString seen s = some (found, rest))
    (t : List Char) : closeString seen (s ++ t) = some (found, rest ++ t) := by
  have happend := append_of_closeString h
  obtain ⟨body, hb, rfl⟩ := Pattern.mem_contents_of_closeString h
  rw [List.append_assoc] at happend
  obtain rfl := List.append_cancel_left happend
  rw [List.append_assoc, List.cons_append]
  exact Pattern.closeString_append hb seen (rest ++ t)

theorem separator_of_read? {c : Char} {more : List Char}
    (h : read? (c :: more) = some (.separator, text, rest)) : isSeparator c = true := by
  cases matches_of_read? h with
  | separator hm =>
    obtain ⟨d, tail, rfl, hd, -⟩ := Pattern.mem_run.1 hm
    obtain ⟨happend, -⟩ := append_of_read? h
    obtain ⟨rfl, -⟩ := List.cons.inj happend
    exact hd

theorem read?_line (h : read? s = some (piece, text, rest)) (hp : piece ≠ .separator)
    (t : List Char) : read? (s ++ '\n' :: t) = some (piece, text, rest ++ '\n' :: t) := by
  have hline : ∀ {p : Char → Bool}, p '\n' = false → ∀ c ∈ ('\n' :: t).head?, p c = false := by
    rintro p hp c ⟨rfl⟩
    exact hp
  have hread := h
  unfold read? at h
  split at h
  · simp at h
  · obtain ⟨rfl, rfl, rfl⟩ := by simpa using h
    rfl
  · next more =>
    obtain ⟨rfl, rfl, rfl⟩ := by simpa using h
    obtain ⟨htake, hdrop⟩ := run_append (p := fun c => !decide (c = '\n')) (hline (by decide)) more
    rw [List.cons_append, List.cons_append, read?]
    simp only [ne_eq, decide_not, htake, hdrop]
  · next more =>
    obtain ⟨⟨contents, rest⟩, hc, he⟩ := Option.map_eq_some_iff.1 h
    obtain ⟨rfl, rfl, rfl⟩ := by simpa using he
    rw [List.cons_append, read?_string, closeString_more hc]
    rfl
  · next c more harrow hcomment _ =>
    by_cases hs : isSeparator c
    · rw [read?_separator more hs] at hread
      obtain ⟨rfl, -⟩ := by simpa using hread
      exact absurd rfl hp
    by_cases hw : isWordStart c
    · obtain ⟨rfl, rfl, rfl⟩ := by simpa [read?_word more hw] using hread
      obtain ⟨htake, hdrop⟩ := run_append (p := isWordPart) (hline (by decide)) more
      rw [List.cons_append, read?_word _ hw, htake, hdrop]
    by_cases hd : c.isDigit
    · obtain ⟨rfl, rfl, rfl⟩ := by simpa [read?_digits more hd] using hread
      obtain ⟨htake, hdrop⟩ := run_append (p := Char.isDigit) (hline (by decide)) more
      rw [List.cons_append, read?_digits _ hd, htake, hdrop]
    rw [if_neg hs, if_neg hw, if_neg hd] at h
    obtain ⟨kind, hk, he⟩ := Option.map_eq_some_iff.1 h
    obtain ⟨rfl, rfl, rfl⟩ := by simpa using he
    have hhead : ∀ {d : Char}, d ≠ '\n' → (more ++ '\n' :: t).head? = some d →
        more.head? = some d := by
      intro d hd
      cases more with
      | nil => simp [Ne.symm hd]
      | cons e _ => exact id
    refine read?_symbol hk ?_ ?_
    · rintro ⟨rfl, hnext⟩
      obtain ⟨more', rfl⟩ := List.head?_eq_some_iff.1 (hhead (by decide) hnext)
      exact harrow more' rfl rfl
    · rintro ⟨rfl, hnext⟩
      obtain ⟨more', rfl⟩ := List.head?_eq_some_iff.1 (hhead (by decide) hnext)
      exact hcomment more' rfl rfl

end Piece

namespace Lexeme

theorem scanList_separator {c : Char} (h : isSeparator c = true) (offset : ℕ) (s : List Char) :
    scanList offset (c :: s) = scanList (offset + c.utf8Size) s := by
  have hnone : ∀ offset text, ofPiece offset .separator text = [] := fun _ _ => rfl
  rw [scanList_some (Piece.read?_separator s h), hnone, List.nil_append, bytes_cons]
  rcases s with _ | ⟨d, more⟩
  · simp
  by_cases hd : isSeparator d
  · rw [scanList_some (Piece.read?_separator more hd), hnone, List.nil_append]
    simp [hd, Nat.add_assoc]
  · simp [hd]

/-- What is scanned after a line feed does not depend on what stands before it. -/
theorem scanList_line {offset stop : ℕ} {lexemes : List Lexeme}
    (h : scanList offset s = (lexemes, .ok stop)) (t : List Char) :
    scanList offset (s ++ '\n' :: t)
      = (lexemes ++ (scanList (stop + 1) t).1, (scanList (stop + 1) t).2) := by
  -- White space is passed one character at a time, since only a run of it may grow over the seam.
  induction hl : s.length using Nat.strong_induction_on generalizing offset s lexemes with
  | h n ih =>
    rcases s with _ | ⟨c, more⟩
    · rw [scanList_nil] at h
      obtain ⟨rfl, rfl⟩ := by simpa using h
      rw [List.nil_append, scanList_separator (by decide)]
      rfl
    by_cases hc : isSeparator c
    · rw [scanList_separator hc] at h
      rw [List.cons_append, scanList_separator hc]
      exact ih more.length (by simp [← hl]) h rfl
    rcases hr : Piece.read? (c :: more) with _ | ⟨piece, text, rest⟩
    · rw [scanList_none hr] at h
      cases h
    have hlt := Piece.length_lt_of_read? hr
    have hp : piece ≠ .separator := by
      rintro rfl
      exact hc (Piece.separator_of_read? hr)
    rw [scanList_some hr] at h
    obtain ⟨hfront, hstop⟩ := Prod.mk.inj h
    rw [scanList_some (Piece.read?_line hr hp t),
      ih rest.length (by omega) (Prod.ext rfl hstop) rfl, ← hfront, List.append_assoc]

def shift (k : ℕ) (l : Lexeme) : Lexeme := { l with span := l.span.shift k }

theorem at_shift (offset k : ℕ) (c : Char) (more : List Char) :
    LexError.at (offset + k) c more = (LexError.at offset c more).map (Span.shift k) := by
  by_cases hc : c = '"'
  · simp only [LexError.at, hc, ↓reduceIte, LexError.map, Span.shift, Nat.add_right_comm]
  · simp only [LexError.at, hc, ↓reduceIte, LexError.map, Span.shift, Nat.add_right_comm]

theorem scanList_shift (offset k : ℕ) (s : List Char) :
    scanList (offset + k) s = ((scanList offset s).1.map (shift k),
      ((scanList offset s).2.map (· + k)).mapError (LexError.map (Span.shift k))) := by
  induction s using Piece.read?_induction generalizing offset with
  | nil =>
    rw [scanList_nil, scanList_nil]
    rfl
  | none c more hr =>
    rw [scanList_none hr, scanList_none hr, at_shift]
    rfl
  | some s piece text rest hr ih =>
    have hpiece : ofPiece (offset + k) piece text = (ofPiece offset piece text).map (shift k) := by
      cases piece <;> simp [ofPiece, shift, Span.shift, Nat.add_right_comm]
    rw [scanList_some hr, scanList_some hr, Nat.add_right_comm, ih, hpiece, List.map_append]

theorem scanList_stop {offset stop : ℕ} {lexemes : List Lexeme}
    (h : scanList offset s = (lexemes, .ok stop)) : stop = offset + bytes s := by
  obtain ⟨pieces, remainder, hm⟩ := Munch.exists_munch s
  rw [hm.scanList_of_munch] at h
  cases remainder with
  | cons c more => cases h
  | nil =>
    rw [hm.text_append, List.append_nil]
    cases h
    rfl

theorem scan_line {a : String} {lexemes : List Lexeme} {stop : ℕ}
    (h : scan a = (lexemes, .ok stop)) (b : String) :
    scan (a ++ "\n" ++ b) = (lexemes ++ (scan b).1.map (shift (a.utf8ByteSize + 1)),
      ((scan b).2.map (· + (a.utf8ByteSize + 1))).mapError
        (LexError.map (Span.shift (a.utf8ByteSize + 1)))) := by
  have hlist : (a ++ "\n" ++ b).toList = a.toList ++ '\n' :: b.toList := by simp
  have hstop := scanList_stop h
  rw [Nat.zero_add, bytes_toList] at hstop
  subst hstop
  have hshift := scanList_shift 0 (a.utf8ByteSize + 1) b.toList
  rw [Nat.zero_add] at hshift
  rw [scan_eq_scanList, hlist, scanList_line h, hshift, ← scan_eq_scanList]

end Lexeme

end PrefixLang
