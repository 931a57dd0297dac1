import PrefixLang.Report
import PrefixLang.Proofs.Places
/-!
What is drawn under a source. A label between characters is always drawn, an empty one under one
character, and all labels of an error are such labels.
-/

namespace PrefixLang

namespace Report

/-- What is drawn of a label: some characters of the source, all that the label holds, and under an
empty label one character. -/
structure Underlines (source : List Char) (label range : Span) : Prop where
  sound : range.Sound source
  nonempty : range.start < range.stop
  holds : label.start < label.stop → range.start ≤ label.start ∧ label.stop ≤ range.stop
  single : label.start = label.stop → ∃ c, range.Covers source [c]

theorem cutAt?_append (before behind after : List Char) :
    cutAt? (bytes before) behind (before ++ after) = some (before.reverse ++ behind, after) := by
  induction before generalizing behind with
  | nil => cases after <;> simp [cutAt?]
  | cons c before ih =>
    have hpos := c.utf8Size_pos
    rw [List.cons_append, cutAt?, bytes_cons, if_neg (by omega), if_neg (by omega),
      Nat.add_sub_cancel_left, ih]
    simp

variable {source : String} {s : Span}

theorem underlines_of_lt (h : s.Sound source.toList) (hlt : s.start < s.stop) :
    labelSpan? s source = some s ∧ Underlines source.toList s s := by
  have hstop : s.stop ≤ source.utf8ByteSize := by
    rw [← bytes_toList]
    exact h.stop.le
  constructor
  · rw [labelSpan?]
    simp only [Nat.min_eq_left hstop, Nat.min_eq_left h.le, if_pos hlt]
  · exact ⟨h, hlt, fun _ => ⟨Nat.le_refl _, Nat.le_refl _⟩,
      fun heq => absurd heq (Nat.ne_of_lt hlt)⟩

theorem labelSpan?_point {before after : List Char} (hsource : before ++ after = source.toList) :
    labelSpan? (Span.point (bytes before)) source
      = some (characterAt (bytes before) before.reverse after) := by
  have hle : bytes before ≤ source.utf8ByteSize := by
    rw [← bytes_toList, ← hsource, bytes_append]
    exact Nat.le_add_right _ _
  rw [labelSpan?, Span.point]
  simp only [Nat.min_eq_left hle, Nat.min_self, Nat.lt_irrefl, if_false]
  rw [← hsource, cutAt?_append, Option.map_some, List.append_nil]

theorem labelSpan?_covers (h : Span.Boundary source.toList s.start) (heq : s.start = s.stop)
    (hne : source.toList ≠ []) :
    ∃ range c, labelSpan? s source = some range ∧ range.Covers source.toList [c] := by
  obtain ⟨before, ⟨after, hsource⟩, hbefore⟩ := h
  have hpoint : s = Span.point (bytes before) := by
    obtain ⟨start, stop⟩ := s
    obtain rfl : start = stop := heq
    rw [hbefore]
    rfl
  rw [hpoint, labelSpan?_point hsource]
  cases after with
  | cons c after =>
    exact ⟨_, c, rfl, before, after, hsource.symm, by rw [characterAt, bytes_singleton]⟩
  | nil =>
    rw [List.append_nil] at hsource
    rcases List.eq_nil_or_concat before with rfl | ⟨front, c, rfl⟩
    · exact absurd hsource.symm hne
    · rw [List.concat_eq_append, List.reverse_append]
      rw [List.concat_eq_append] at hsource
      refine ⟨_, c, rfl, front, [], hsource.symm, ?_⟩
      rw [bytes_append, bytes_singleton]
      exact congrArg (Span.mk · (bytes front + c.utf8Size)) (Nat.add_sub_cancel _ _)

theorem underlines_of_covers {range : Span} {c : Char} (heq : s.start = s.stop)
    (h : range.Covers source.toList [c]) : Underlines source.toList s range := by
  obtain ⟨before, after, -, hrange⟩ := id h
  refine ⟨h.sound, ?_, fun hlt => absurd heq (Nat.ne_of_lt hlt), fun _ => ⟨c, h⟩⟩
  rw [hrange, bytes_singleton]
  exact Nat.lt_add_of_pos_right c.utf8Size_pos

theorem exists_underlines (h : s.Sound source.toList) (hne : source.toList ≠ []) :
    ∃ range, labelSpan? s source = some range ∧ Underlines source.toList s range := by
  rcases Nat.lt_or_eq_of_le h.le with hlt | heq
  · exact ⟨s, underlines_of_lt h hlt⟩
  · obtain ⟨range, c, hrange, hcovers⟩ := labelSpan?_covers h.start heq hne
    exact ⟨range, hrange, underlines_of_covers heq hcovers⟩

end Report

namespace Failure

variable {source : String} {failure : Failure}

theorem labels_sound (hs : failure.span.Sound source.toList) (hp : failure.PointsAt source) :
    ∀ label ∈ failure.diagnostic.labels, label.span.Sound source.toList := by
  have hat {message : String} {isPrimary : Bool} :
      ∀ label ∈ [Label.mk failure.span message isPrimary], label.span.Sound source.toList := by
    intro label hl
    rw [List.mem_singleton.1 hl]
    exact hs
  cases failure with
  | lex e =>
    obtain ⟨kind, s⟩ := e
    cases kind with
    | invalidCharacter found => exact hat
    | unterminatedString =>
      intro label hl
      rw [List.mem_singleton.1 hl]
      exact Span.sound_point hs.start
  | parse e =>
    obtain ⟨kind, s⟩ := e
    cases kind with
    | unexpectedToken found => exact hat
    | unexpectedEnd => exact hat
    | reservedToken found => exact hat
    | unclosedParen found foundSpan =>
      obtain ⟨-, -, hfound⟩ := hp
      intro label hl
      rcases List.mem_cons.1 hl with rfl | hl
      · exact hs
      rw [List.mem_singleton.1 hl]
      rcases hfound with ⟨-, rfl⟩ | ⟨l, -, -, -, rfl, hcovers⟩
      · exact Span.sound_end source
      · exact hcovers.sound
  | eval e =>
    obtain ⟨kind, s⟩ := e
    cases kind with
    | undefinedIdentifier name => exact hat
    | operand error => cases error <;> exact hat

theorem exists_primary (failure : Failure) : ∃ label ∈ failure.diagnostic.labels,
    label.isPrimary = true ∧ failure.diagnostic.primarySpan? = some label.span ∧
      label.span.start = failure.span.start := by
  cases failure with
  | lex e =>
    obtain ⟨kind, s⟩ := e
    cases kind <;> exact ⟨_, List.mem_cons_self, rfl, rfl, rfl⟩
  | parse e =>
    obtain ⟨kind, s⟩ := e
    cases kind <;> exact ⟨_, List.mem_cons_self, rfl, rfl, rfl⟩
  | eval e =>
    obtain ⟨kind, s⟩ := e
    cases kind with
    | undefinedIdentifier name => exact ⟨_, List.mem_cons_self, rfl, rfl, rfl⟩
    | operand error => cases error <;> exact ⟨_, List.mem_cons_self, rfl, rfl, rfl⟩

end Failure

theorem ne_nil_of_run {format : Format} {source : String} {failure : Failure}
    (h : runSource format source = .error failure) : source.toList ≠ [] := by
  intro hnil
  obtain rfl : source = "" := String.toList_inj.1 hnil
  have hempty : ∀ format, (runSource format "").toOption = some "" := by
    intro format
    cases format <;> decide +kernel
  have hrun := hempty format
  rw [h] at hrun
  cases hrun

/-- Every label of the error of a run is drawn: no offset inside a character is met, and what is
drawn are characters of the source, all that the label holds, or one where it is empty. One label
stands where the error is, and the report names its place. -/
theorem labels_are_drawn_on_characters (format : Format) (source : String) (failure : Failure)
    (hrun : runSource format source = .error failure)
    (hsize : source.utf8ByteSize ≤ Span.maxOffset) :
    (∀ label ∈ failure.diagnostic.labels,
      Span.ofRange label.span.start label.span.stop = .ok label.span ∧
      ∃ range, Report.labelSpan? label.span source = some range ∧
        range.stop ≤ source.utf8ByteSize ∧
        Report.Underlines source.toList label.span range) ∧
    ∃ label ∈ failure.diagnostic.labels, label.isPrimary = true ∧
      failure.diagnostic.primarySpan? = some label.span ∧
      label.span.start = failure.span.start := by
  refine ⟨?_, failure.exists_primary⟩
  intro label hl
  obtain ⟨hsound, hpoints⟩ := pointsAt_of_run hrun
  have hlabel := Failure.labels_sound hsound hpoints label hl
  have hstop := hlabel.stop.le
  rw [bytes_toList] at hstop
  refine ⟨Span.ofRange_eq_ok hlabel.le (hstop.trans hsize), ?_⟩
  obtain ⟨range, hrange, hunder⟩ := Report.exists_underlines hlabel (ne_nil_of_run hrun)
  have hle := hunder.sound.stop.le
  rw [bytes_toList] at hle
  exact ⟨range, hrange, hle, hunder⟩

/-- Two labels: the parenthesis, and the end of the source, drawn under a last character of two
bytes. -/
theorem openParen_is_drawn_on_characters :
    ∃ failure, runSource .plain "(1//é" = .error failure ∧
      "(1//é".utf8ByteSize ≤ Span.maxOffset ∧
      failure.diagnostic.labels.map Label.span = [⟨0, 1⟩, ⟨6, 6⟩] ∧
      ∀ label ∈ failure.diagnostic.labels, ∃ range,
        Report.labelSpan? label.span "(1//é" = some range ∧
        Report.Underlines "(1//é".toList label.span range := by
  have hrun : runSource .plain "(1//é"
      = .error (.parse ⟨.unclosedParen "end of input" ⟨6, 6⟩, ⟨0, 1⟩⟩) := by decide +kernel
  have hsize : "(1//é".utf8ByteSize ≤ Span.maxOffset := by decide
  obtain ⟨hlabels, -⟩ := labels_are_drawn_on_characters .plain _ _ hrun hsize
  refine ⟨_, hrun, hsize, rfl, fun label hl => ?_⟩
  obtain ⟨-, range, hrange, -, hunder⟩ := hlabels label hl
  exact ⟨range, hrange, hunder⟩

end PrefixLang
