import PrefixLang.Lexeme
/-!
Whether the spans of a source can be made. The ends of its pieces are found without taking the
pieces out, so a source of any size needs no more memory than itself. `checkSpans_eq` says that
these are the ends of the pieces that are read.
-/

namespace PrefixLang

namespace Piece

variable {s : String}

@[specialize] def skipWhile (p : Char → Bool) (pos : s.Pos) : s.Pos :=
  if h : pos = s.endPos then pos
  else if p (pos.get h) then skipWhile p (pos.next h)
  else pos
termination_by pos

def skipString (pos : s.Pos) : Option s.Pos :=
  if h : pos = s.endPos then none
  else
    let next := pos.next h
    match pos.get h with
    | '"' => some next
    | '\\' =>
      if h' : next = s.endPos then none
      else if next.get h' = '\n' then none
      else skipString (next.next h')
    | _ => skipString next
termination_by pos

def step? (pos : s.Pos) : Option (Char × s.Pos) :=
  if h : pos = s.endPos then none else some (pos.get h, pos.next h)

/-- The end of the piece at a place, and whether the piece is a separator. -/
def end? (pos : s.Pos) : Option (Bool × s.Pos) :=
  match step? pos with
  | none => none
  | some (c, next) =>
    match c, step? next with
    | '=', some ('>', last) => some (false, last)
    | '/', some ('/', body) => some (false, skipWhile (· ≠ '\n') body)
    | '"', _ => (skipString next).map fun last => (false, last)
    | c, _ =>
      if isSeparator c then some (true, skipWhile isSeparator next)
      else if isWordStart c then some (false, skipWhile isWordPart next)
      else if c.isDigit then some (false, skipWhile Char.isDigit next)
      else (symbol? c).map fun _ => (false, next)

def ahead (pos : s.Pos) : List Char := (s.sliceFrom pos).copy.toList

theorem ahead_endPos : ahead s.endPos = [] := by
  simp [ahead]

theorem ahead_startPos : ahead s.startPos = s.toList := by
  simp [ahead]

theorem ahead_of_ne {pos : s.Pos} (h : pos ≠ s.endPos) :
    ahead pos = pos.get h :: ahead (pos.next h) := by
  rw [ahead, pos.splits.eq_right (pos.splits_next_right h)]
  simp [ahead]

theorem ahead_skipWhile (p : Char → Bool) (pos : s.Pos) :
    ahead (skipWhile p pos) = (ahead pos).dropWhile p := by
  induction pos using String.Pos.next_induction with
  | endPos => rw [skipWhile, dif_pos rfl, ahead_endPos, List.dropWhile_nil]
  | next pos h ih =>
    rw [skipWhile, dif_neg h, ahead_of_ne h]
    by_cases hp : p (pos.get h) = true
    · rw [if_pos hp, ih, List.dropWhile_cons_of_pos hp]
    · rw [if_neg hp, List.dropWhile_cons_of_neg hp, ahead_of_ne h]

theorem ahead_skipString (pos : s.Pos) (seen : List Char) :
    (skipString pos).map ahead = (closeString seen (ahead pos)).map Prod.snd := by
  fun_induction skipString pos generalizing seen with
  | case1 => rw [ahead_endPos, closeString, Option.map_none, Option.map_none]
  | case2 pos h next hc =>
    rw [ahead_of_ne h, hc, closeString, Option.map_some, Option.map_some]
  | case3 pos h next hc h' =>
    have hnext : pos.next h = s.endPos := h'
    rw [ahead_of_ne h, hc, hnext, ahead_endPos, closeString, Option.map_none, Option.map_none]
  | case4 pos h next hc h' hd =>
    rw [ahead_of_ne h, ahead_of_ne h', hc, closeString, if_pos hd, Option.map_none, Option.map_none]
  | case5 pos h next hc h' hd ih =>
    rw [ahead_of_ne h, ahead_of_ne h', hc, closeString, if_neg hd, ih]
  | case6 pos h next hq hb ih =>
    rw [ahead_of_ne h, closeString, ih]
    · exact hq
    · exact fun _ _ hc => absurd hc hb
    · exact fun hc => absurd hc hb

theorem ahead_eq (pos : s.Pos) :
    ahead pos = match step? pos with
      | none => []
      | some (c, next) => c :: ahead next := by
  by_cases h : pos = s.endPos
  · rw [step?, dif_pos h, h, ahead_endPos]
  · rw [step?, dif_neg h, ahead_of_ne h]

theorem ahead_end? (pos : s.Pos) :
    (end? pos).map (fun found => (found.1, ahead found.2))
      = (read? (ahead pos)).map fun read => (decide (read.1 = .separator), read.2.2) := by
  rw [ahead_eq pos, end?]
  rcases step? pos with _ | ⟨c, next⟩
  · rfl
  have hahead := ahead_eq next
  simp only
  split
  · simp_all [read?]
  · simp_all [read?, ahead_skipWhile]
  · have hstring := ahead_skipString next []
    rw [read?]
    generalize skipString next = last? at hstring
    generalize closeString [] (ahead next) = read at hstring
    rcases last? with _ | last <;> rcases read with _ | ⟨contents, rest⟩ <;>
      simp only [Option.map_none, Option.map_some, reduceCtorEq, Option.some.injEq] at hstring
    · rfl
    · simp [hstring]
  · next hquote harrow hcomment =>
    have hsecond (d : Char) (rest : List Char) (h : ahead next = d :: rest) :
        ∃ last, step? next = some (d, last) := by
      rw [hahead] at h
      rcases hstep : step? next with _ | ⟨d', last⟩ <;> simp_all
    rw [read?]
    · split
      · simp [ahead_skipWhile]
      split
      · simp [ahead_skipWhile]
      split
      · simp [ahead_skipWhile]
      · rw [Option.map_map, Option.map_map]
        rfl
    · intro rest hc h
      obtain ⟨last, hlast⟩ := hsecond _ _ h
      exact harrow last hc hlast
    · intro rest hc h
      obtain ⟨last, hlast⟩ := hsecond _ _ h
      exact hcomment last hc hlast
    · exact hquote

theorem offset_add (pos : s.Pos) :
    pos.offset.byteIdx + (String.ofList (ahead pos)).utf8ByteSize = s.utf8ByteSize := by
  have hbytes := congrArg String.utf8ByteSize pos.splits.eq_append
  rw [String.utf8ByteSize_append] at hbytes
  rw [ahead, String.ofList_toList, pos.splits.offset_eq_rawEndPos, hbytes]
  rfl

theorem read?_of_end? {pos last : s.Pos} {separates : Bool}
    (h : end? pos = some (separates, last)) :
    ∃ piece text, read? (ahead pos) = some (piece, text, ahead last) ∧
      separates = decide (piece = .separator) ∧
      last.offset.byteIdx = pos.offset.byteIdx + (String.ofList text).utf8ByteSize := by
  have hread := ahead_end? pos
  rw [h] at hread
  obtain ⟨⟨piece, text, rest⟩, hread, hends⟩ := Option.map_eq_some_iff.1 hread.symm
  simp only [Prod.mk.injEq] at hends
  obtain ⟨hpiece, rfl⟩ := hends
  refine ⟨piece, text, hread, hpiece.symm, ?_⟩
  have hpos := offset_add pos
  have hlast := offset_add last
  rw [(append_of_read? hread).1, String.ofList_append, String.utf8ByteSize_append] at hpos
  omega

theorem read?_of_end?_eq_none {pos : s.Pos} (h : end? pos = none) : read? (ahead pos) = none := by
  have hread := ahead_end? pos
  rw [h] at hread
  exact Option.map_eq_none_iff.1 hread.symm

end Piece

namespace Lexeme

variable {s : String}

/-- Makes the spans of a source from a place on, one after the other: those of its pieces but
separators, and that of its end or its first error. -/
def checkAt (pos : s.Pos) : Except Span.RangeError Unit :=
  let offset := pos.offset.byteIdx
  if h : pos = s.endPos then (Span.ofRange offset offset).map fun _ => ()
  else
    match _found : Piece.end? pos with
    | none =>
      let stop := if pos.get h = '"' then s.utf8ByteSize else (pos.next h).offset.byteIdx
      (Span.ofRange offset stop).map fun _ => ()
    | some (true, last) => checkAt last
    | some (false, last) =>
      match Span.ofRange offset last.offset.byteIdx with
      | .error e => .error e
      | .ok _ => checkAt last
termination_by (Piece.ahead pos).length
decreasing_by
  all_goals
    obtain ⟨piece, text, hread, -⟩ := Piece.read?_of_end? _found
    exact Piece.length_lt_of_read? hread

def checkSpans (source : String) : Except Span.RangeError Unit := checkAt source.startPos

/-- The spans that `checkAt` makes, from the characters still to be read. -/
def checkFrom (offset : Nat) (source : List Char) : Except Span.RangeError Unit :=
  match source with
  | [] => (Span.ofRange offset offset).map fun _ => ()
  | c :: more =>
    match _read : Piece.read? (c :: more) with
    | none =>
      let span := (LexError.at offset c more).span
      (Span.ofRange span.start span.stop).map fun _ => ()
    | some (piece, text, rest) =>
      let stop := offset + (String.ofList text).utf8ByteSize
      if piece = .separator then checkFrom stop rest
      else Span.ofRange offset stop >>= fun _ => checkFrom stop rest
termination_by source.length
decreasing_by all_goals exact Piece.length_lt_of_read? _read

theorem checkFrom_some {offset : Nat} {source text rest : List Char} {piece : Piece}
    (h : Piece.read? source = some (piece, text, rest)) :
    checkFrom offset source =
      if piece = .separator then checkFrom (offset + (String.ofList text).utf8ByteSize) rest
      else Span.ofRange offset (offset + (String.ofList text).utf8ByteSize) >>= fun _ =>
        checkFrom (offset + (String.ofList text).utf8ByteSize) rest := by
  rcases source with _ | ⟨c, more⟩
  · cases h
  · rw [checkFrom]
    split
    · next hnone => cases hnone.symm.trans h
    · next hsome =>
      cases hsome.symm.trans h
      rfl

theorem checkFrom_none {offset : Nat} {c : Char} {more : List Char}
    (h : Piece.read? (c :: more) = none) :
    checkFrom offset (c :: more) =
      (Span.ofRange (LexError.at offset c more).span.start
        (LexError.at offset c more).span.stop).map fun _ => () := by
  rw [checkFrom]
  split
  · rfl
  · next hsome => cases h.symm.trans hsome

theorem checkAt_eq (pos : s.Pos) :
    checkAt pos = checkFrom pos.offset.byteIdx (Piece.ahead pos) := by
  fun_induction checkAt pos with
  | case1 offset => rw [Piece.ahead_endPos, checkFrom]
  | case2 pos offset h hend stop =>
    have hread := Piece.read?_of_end?_eq_none hend
    have hstop := Piece.offset_add pos
    rw [Piece.ahead_of_ne h] at hread hstop
    rw [Piece.ahead_of_ne h, checkFrom_none hread, LexError.at]
    by_cases hquote : pos.get h = '"'
    · rw [if_pos hquote, hstop, show stop = s.utf8ByteSize from dif_pos hquote]
    · rw [if_neg hquote, show stop = (pos.next h).offset.byteIdx from dif_neg hquote,
        String.Pos.byteIdx_offset_next]
  | case3 pos h last hend ih =>
    obtain ⟨piece, text, hread, hpiece, hlast⟩ := Piece.read?_of_end? hend
    rw [checkFrom_some hread, if_pos (of_decide_eq_true hpiece.symm), ← hlast, ih]
  | case4 pos offset h last hend e herror =>
    obtain ⟨piece, text, hread, hpiece, hlast⟩ := Piece.read?_of_end? hend
    rw [checkFrom_some hread, if_neg (of_decide_eq_false hpiece.symm), ← hlast, herror]
    rfl
  | case5 pos offset h last hend span hspan ih =>
    obtain ⟨piece, text, hread, hpiece, hlast⟩ := Piece.read?_of_end? hend
    rw [checkFrom_some hread, if_neg (of_decide_eq_false hpiece.symm), ← hlast, hspan, ih]
    rfl

theorem checkSpans_eq (source : String) : checkSpans source = checkFrom 0 source.toList := by
  rw [checkSpans, checkAt_eq, Piece.ahead_startPos]
  rfl

theorem checkAt_of_le (h : s.utf8ByteSize ≤ Span.maxOffset) (pos : s.Pos) :
    checkAt pos = .ok () := by
  have hrange (start stop : Nat) (hstart : start ≤ s.utf8ByteSize)
      (hstop : stop ≤ s.utf8ByteSize) : Span.ofRange start stop = .ok ⟨start, stop⟩ := by
    rw [Span.ofRange, if_neg (by omega), if_neg (by omega)]
  have hoffset (pos : s.Pos) : pos.offset.byteIdx ≤ s.utf8ByteSize := by
    have := Piece.offset_add pos
    omega
  fun_induction checkAt pos with
  | case1 offset =>
    rw [hrange _ _ (hoffset _) (hoffset _)]
    rfl
  | case2 pos offset hne hend stop =>
    have hstop : stop ≤ s.utf8ByteSize := by
      by_cases hquote : pos.get hne = '"'
      · exact Nat.le_of_eq (dif_pos hquote)
      · exact Nat.le_trans (Nat.le_of_eq (dif_neg hquote)) (hoffset _)
    rw [hrange _ _ (hoffset _) hstop]
    rfl
  | case3 pos hne last hend ih => exact ih
  | case4 pos offset hne last hend e herror =>
    rw [hrange _ _ (hoffset _) (hoffset _)] at herror
    cases herror
  | case5 pos offset hne last hend span hspan ih => exact ih

theorem checkSpans_of_le {source : String} (h : source.utf8ByteSize ≤ Span.maxOffset) :
    checkSpans source = .ok () := checkAt_of_le h _

end Lexeme

def lexBounded (names : NameTable) (source : String) :
    Except Span.RangeError (Except LexError (List (Token Name)) × NameTable) :=
  (Lexeme.checkSpans source).map fun _ => lex names source

theorem lexBounded_of_le {source : String} (names : NameTable)
    (h : source.utf8ByteSize ≤ Span.maxOffset) :
    lexBounded names source = .ok (lex names source) := by
  rw [lexBounded, Lexeme.checkSpans_of_le h]
  rfl

end PrefixLang
