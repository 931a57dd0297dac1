import PrefixLang.Proofs.Patterns
/-!
Scanning as longest match after longest match. `Munch` says what the pieces of a text are without
mentioning the scanner, and `scanList_of_munch` what the scanner makes of them.
-/

namespace PrefixLang

def bytes (text : List Char) : ℕ := (String.ofList text).utf8ByteSize

@[simp] theorem bytes_nil : bytes [] = 0 := rfl

@[simp] theorem bytes_append (text more : List Char) :
    bytes (text ++ more) = bytes text + bytes more := by
  simp [bytes, String.ofList_append, String.utf8ByteSize_append]

@[simp] theorem bytes_singleton (c : Char) : bytes [c] = c.utf8Size := by
  rw [bytes, ← String.singleton_eq_ofList, String.utf8ByteSize_singleton]

theorem bytes_cons (c : Char) (text : List Char) : bytes (c :: text) = c.utf8Size + bytes text := by
  rw [← List.singleton_append, bytes_append, bytes_singleton]

theorem bytes_pos {text : List Char} (h : text ≠ []) : 0 < bytes text := by
  obtain ⟨c, rest, rfl⟩ := List.exists_cons_of_ne_nil h
  have := c.utf8Size_pos
  rw [bytes_cons]
  omega

theorem bytes_toList (source : String) : bytes source.toList = source.utf8ByteSize := by
  rw [bytes, String.ofList_toList]

@[elab_as_elim]
theorem Piece.read?_induction {motive : List Char → Prop} (nil : motive [])
    (none : ∀ c more, read? (c :: more) = none → motive (c :: more))
    (some : ∀ s piece text rest, read? s = some (piece, text, rest) → motive rest → motive s)
    (s : List Char) : motive s := by
  induction hl : s.length using Nat.strong_induction_on generalizing s with
  | h n ih =>
    rcases s with _ | ⟨c, more⟩
    · exact nil
    rcases hr : read? (c :: more) with _ | ⟨piece, text, rest⟩
    · exact none c more hr
    · have hlt := length_lt_of_read? hr
      exact some _ piece text rest hr (ih _ (by omega) rest rfl)

namespace Lexeme

def ofPiece (offset : ℕ) (piece : Piece) (text : List Char) : List Lexeme :=
  match piece with
  | .token kind => [⟨kind, String.ofList text, ⟨offset, offset + bytes text⟩⟩]
  | _ => []

/-- The lexemes of a text that starts at an offset, and how its scan ends. -/
def scanList (offset : ℕ) (source : List Char) : List Lexeme × Except LexError ℕ :=
  ((scanFrom offset source #[]).1.toList, (scanFrom offset source #[]).2)

theorem scanFrom_none {offset : ℕ} {c : Char} {more : List Char} (found : Array Lexeme)
    (h : Piece.read? (c :: more) = none) :
    scanFrom offset (c :: more) found = (found, .error (LexError.at offset c more)) := by
  rw [scanFrom]
  split
  · rfl
  · next hs => rw [h] at hs; cases hs

theorem scanFrom_some {offset : ℕ} {s text rest : List Char} {piece : Piece} (found : Array Lexeme)
    (h : Piece.read? s = some (piece, text, rest)) :
    scanFrom offset s found
      = scanFrom (offset + bytes text) rest (found ++ (ofPiece offset piece text).toArray) := by
  obtain ⟨c, more, rfl⟩ : ∃ c more, s = c :: more := by
    cases s with
    | nil => simp [Piece.read?] at h
    | cons c more => exact ⟨c, more, rfl⟩
  rw [scanFrom]
  split
  · next hn => rw [h] at hn; cases hn
  · next hs =>
    obtain ⟨rfl, rfl, rfl⟩ := by simpa [h] using hs
    cases piece <;> simp [ofPiece, bytes]

theorem scanFrom_eq_scanList (offset : ℕ) (s : List Char) (found : Array Lexeme) :
    scanFrom offset s found = (found ++ (scanList offset s).1.toArray, (scanList offset s).2) := by
  induction s using Piece.read?_induction generalizing offset found with
  | nil => simp [scanList, scanFrom]
  | none c more hr => simp [scanList, scanFrom_none _ hr]
  | some s piece text rest hr ih =>
    rw [scanList, scanFrom_some _ hr, scanFrom_some _ hr, ih,
      ih _ (#[] ++ (ofPiece offset piece text).toArray)]
    simp

theorem scanList_nil (offset : ℕ) : scanList offset [] = ([], .ok offset) := by
  simp [scanList, scanFrom]

theorem scanList_none {offset : ℕ} {c : Char} {more : List Char}
    (h : Piece.read? (c :: more) = none) :
    scanList offset (c :: more) = ([], .error (LexError.at offset c more)) := by
  simp [scanList, scanFrom_none _ h]

theorem scanList_some {offset : ℕ} {s text rest : List Char} {piece : Piece}
    (h : Piece.read? s = some (piece, text, rest)) :
    scanList offset s = (ofPiece offset piece text ++ (scanList (offset + bytes text) rest).1,
      (scanList (offset + bytes text) rest).2) := by
  rw [scanList, scanFrom_some _ h, scanFrom_eq_scanList]
  simp

/-- No piece is empty, so a text has no more lexemes than bytes. -/
theorem length_scanList_le (offset : ℕ) (s : List Char) :
    (scanList offset s).1.length ≤ bytes s := by
  induction s using Piece.read?_induction generalizing offset with
  | nil => rw [scanList_nil, List.length_nil, bytes_nil]
  | none c more hr =>
    rw [scanList_none hr]
    exact Nat.zero_le _
  | some s piece text rest hr ih =>
    obtain ⟨rfl, hne⟩ := Piece.append_of_read? hr
    have hone : (ofPiece offset piece text).length ≤ 1 := by cases piece <;> simp [ofPiece]
    have hpos := bytes_pos hne
    have hrest := ih (offset + bytes text)
    rw [scanList_some hr, List.length_append, bytes_append]
    omega

theorem scan_eq_scanList (source : String) : scan source = scanList 0 source.toList := rfl

end Lexeme

/-- The pieces cut off a text, each the longest at its place, and what remains when no front of it
is matched any more. -/
inductive Munch : List Char → List (Piece × List Char) → List Char → Prop where
  | stop {s} : (∀ text piece, Matches text piece → ¬ text <+: s) → Munch s [] s
  | piece {text rest piece pieces remainder} : Longest (text ++ rest) text piece →
      Munch rest pieces remainder → Munch (text ++ rest) ((piece, text) :: pieces) remainder

/-- The lexemes among pieces that stand one after the other from an offset on. -/
def lexemesFrom (offset : ℕ) : List (Piece × List Char) → List Lexeme
  | [] => []
  | (piece, text) :: rest =>
    Lexeme.ofPiece offset piece text ++ lexemesFrom (offset + bytes text) rest

def textOf (pieces : List (Piece × List Char)) : List Char := (pieces.map Prod.snd).flatten

namespace Munch

variable {s remainder : List Char} {pieces : List (Piece × List Char)}

theorem text_append (h : Munch s pieces remainder) : s = textOf pieces ++ remainder := by
  induction h with
  | stop _ => rfl
  | piece _ _ ih => rw [ih]; simp [textOf]

theorem of_read? {text rest : List Char} {piece : Piece}
    (hr : Piece.read? s = some (piece, text, rest)) (h : Munch rest pieces remainder) :
    Munch s ((piece, text) :: pieces) remainder := by
  have hlong := longest_iff_read?.2 ⟨rest, hr⟩
  rw [(Piece.append_of_read? hr).1] at hlong ⊢
  exact .piece hlong h

theorem exists_munch (s : List Char) : ∃ pieces remainder, Munch s pieces remainder := by
  induction s using Piece.read?_induction with
  | nil => exact ⟨[], [], .stop (read?_eq_none_iff.1 rfl)⟩
  | none c more hr => exact ⟨[], c :: more, .stop (read?_eq_none_iff.1 hr)⟩
  | some s piece text rest hr ih =>
    obtain ⟨pieces, remainder, hm⟩ := ih
    exact ⟨_, remainder, of_read? hr hm⟩

theorem read? {text rest : List Char} {piece : Piece} (h : Longest (text ++ rest) text piece) :
    Piece.read? (text ++ rest) = some (piece, text, rest) := by
  obtain ⟨rest', hr⟩ := longest_iff_read?.1 h
  obtain rfl := List.append_cancel_left (Piece.append_of_read? hr).1
  exact hr

theorem unique {pieces' : List (Piece × List Char)} {remainder' : List Char}
    (h : Munch s pieces remainder) (h' : Munch s pieces' remainder') :
    pieces' = pieces ∧ remainder' = remainder := by
  induction h generalizing pieces' with
  | stop hs =>
    cases h' with
    | stop _ => exact ⟨rfl, rfl⟩
    | piece hl _ => exact absurd hl.front (hs _ _ hl.matched)
  | @piece text rest piece pieces remainder hl _ ih =>
    generalize hs : text ++ rest = s at h'
    cases h' with
    | stop hn => exact absurd hl.front (hs ▸ hn _ _ hl.matched)
    | @piece text' rest' piece' pieces' _ hl' hm' =>
      have hr := read? hl'
      rw [← hs, read? hl] at hr
      obtain ⟨rfl, rfl, rfl⟩ := by simpa using hr
      obtain ⟨rfl, rfl⟩ := ih hm'
      exact ⟨rfl, rfl⟩

def ending (offset : ℕ) (pieces : List (Piece × List Char)) : List Char → Except LexError ℕ
  | [] => .ok (offset + bytes (textOf pieces))
  | c :: more => .error (LexError.at (offset + bytes (textOf pieces)) c more)

theorem scanList_of_munch (h : Munch s pieces remainder) (offset : ℕ) :
    Lexeme.scanList offset s = (lexemesFrom offset pieces, ending offset pieces remainder) := by
  induction h generalizing offset with
  | @stop s hs =>
    rcases s with _ | ⟨c, more⟩
    · exact Lexeme.scanList_nil offset
    · exact Lexeme.scanList_none (read?_eq_none_iff.2 hs)
  | @piece text rest piece pieces remainder hl _ ih =>
    rw [Lexeme.scanList_some (read? hl), ih]
    cases remainder <;> simp [lexemesFrom, ending, textOf, Nat.add_assoc]

end Munch

end PrefixLang
