import PrefixLang.Render
import PrefixLang.Proofs.Markup
import PrefixLang.Proofs.Numerals
import Mathlib.Data.List.Forall2
/-!
Results as markup. What is shown of an output is a row of marks, and between two outputs stands a
line break that no output can show by itself, so the text cannot be taken for markup that was not
meant and the outputs can be told from it, up to what the markup does not show.
-/

namespace PrefixLang

namespace Markup

/-- A text that markup can be read from without a doubt: what could be taken for a tag or an entity
is one, and spans do not stand in spans. -/
structure WellFormed (text : List Char) : Prop where
  tagBegins : ∀ before after, text = before ++ '<' :: after → ∃ t : Tag, t.text <+: '<' :: after
  tagEnds : ∀ before after, text = before ++ '>' :: after → ∃ t : Tag, t.text <:+ before ++ ['>']
  entityBegins : ∀ before after, text = before ++ '&' :: after →
    ∃ entity ∈ entities, entity <+: '&' :: after
  balanced : Balanced text

theorem wellFormed_spell {marks : List Mark} (h : Balanced (spell marks)) :
    WellFormed (spell marks) where
  tagBegins _ _ := tag_begins
  tagEnds _ _ := tag_ends
  entityBegins _ _ := entity_begins
  balanced := h

theorem encode_eq_self {s : List Char} (h : Plain s) : Text.Entity.encode s = s := by
  induction s with
  | nil => rfl
  | cons c s ih =>
    have hc : Text.Entity.encodeChar c = [c] := by
      rcases encodeChar_cases c with ⟨-, he⟩ | ⟨hc, -⟩
      · exact he
      · exact absurd hc (h c List.mem_cons_self)
    have hs := ih fun d hd => h d (List.mem_cons_of_mem _ hd)
    rw [Text.Entity.encode] at hs ⊢
    rw [List.flatMap_cons, hc, hs, List.singleton_append]

theorem chars_append_inj {a b : List Char} {t u : Tag} {r s : List Mark}
    (h : a.map Mark.char ++ .tag t :: r = b.map Mark.char ++ .tag u :: s) : a = b ∧ r = s := by
  induction a generalizing b with
  | nil =>
    cases b with
    | nil => exact ⟨rfl, (List.cons.inj h).2⟩
    | cons d b => exact absurd (List.cons.inj h).1 (by simp)
  | cons c a ih =>
    cases b with
    | nil => exact absurd (List.cons.inj h).1 (by simp)
    | cons d b =>
      obtain ⟨hcd, hrest⟩ := List.cons.inj h
      obtain ⟨rfl, rfl⟩ := ih hrest
      obtain rfl := Mark.char.inj hcd
      exact ⟨rfl, rfl⟩

theorem span_append_inj {t u : Tag} {a b : List Char} {r s : List Mark}
    (h : span t a ++ r = span u b ++ s) : t = u ∧ a = b ∧ r = s := by
  simp only [span, List.cons_append, List.append_assoc, List.nil_append] at h
  obtain ⟨htag, hrest⟩ := List.cons.inj h
  exact ⟨Mark.tag.inj htag, chars_append_inj hrest⟩

theorem lineBreak_notMem_span {t : Tag} (h : t.opensSpan = true) (text : List Char) :
    Mark.tag .lineBreak ∉ span t text := by
  intro hm
  simp only [span, List.mem_cons, List.mem_append, List.mem_map] at hm
  rcases hm with hm | ⟨c, -, hc⟩ | hm | hm
  · rw [← Mark.tag.inj hm] at h
    exact absurd h (by decide)
  · cases hc
  · cases hm
  · cases hm

def lines (pieces : List (List Mark)) : List Mark := [Mark.tag .lineBreak].intercalate pieces

theorem count_lines {pieces : List (List Mark)} (h : ∀ p ∈ pieces, Mark.tag .lineBreak ∉ p) :
    (lines pieces).count (.tag .lineBreak) = pieces.length - 1 := by
  induction pieces with
  | nil => rfl
  | cons p pieces ih =>
    have hp : p.count (.tag .lineBreak) = 0 := List.count_eq_zero.2 (h p List.mem_cons_self)
    cases pieces with
    | nil => rw [lines, List.intercalate_singleton, hp, List.length_singleton]
    | cons q rest =>
      have hrest := ih fun r hr => h r (List.mem_cons_of_mem _ hr)
      rw [lines] at hrest
      rw [lines, List.intercalate_cons_cons, List.count_append, List.count_append, hp, hrest,
        List.count_singleton_self]
      simp only [List.length_cons]
      omega

theorem balanced_lines {pieces : List (List Mark)} (h : ∀ p ∈ pieces, Balanced (spell p)) :
    Balanced (spell (lines pieces)) := by
  induction pieces with
  | nil => exact .nil
  | cons p pieces ih =>
    have hp := h p List.mem_cons_self
    cases pieces with
    | nil =>
      rw [lines, List.intercalate_singleton]
      exact hp
    | cons q rest =>
      have hrest := ih fun r hr => h r (List.mem_cons_of_mem _ hr)
      rw [lines, List.intercalate_cons_cons, spell_append, spell_append, List.append_assoc]
      exact hp.append (.lineBreak hrest)

theorem lines_inj {pieces more : List (List Mark)} (hp : pieces ≠ []) (hm : more ≠ [])
    (hpn : ∀ p ∈ pieces, Mark.tag .lineBreak ∉ p) (hmn : ∀ p ∈ more, Mark.tag .lineBreak ∉ p)
    (h : lines pieces = lines more) : pieces = more := by
  rw [← List.splitOn_intercalate (.tag .lineBreak) hpn hp, ← lines, h, lines,
    List.splitOn_intercalate (.tag .lineBreak) hmn hm]

end Markup

open Markup

def Value.marks : Value → List Mark
  | .number n => span .number n.resultText.toList
  | .string s => span .string ('"' :: (s.toList ++ ['"']))
  | .empty => []

def Output.marks : Output → List Mark
  | .empty => []
  | .value v => v.marks
  | .keyword word v => span .keyword word.toList ++ .char ' ' :: v.marks

theorem Value.lineBreak_notMem_marks (v : Value) : Mark.tag .lineBreak ∉ v.marks := by
  cases v with
  | number n => exact lineBreak_notMem_span rfl _
  | string s => exact lineBreak_notMem_span rfl _
  | empty => exact List.not_mem_nil

theorem Output.lineBreak_notMem_marks (output : Output) : Mark.tag .lineBreak ∉ output.marks := by
  cases output with
  | empty => exact List.not_mem_nil
  | value v => exact v.lineBreak_notMem_marks
  | keyword word v =>
    rw [Output.marks, List.mem_append, List.mem_cons, not_or, not_or]
    exact ⟨lineBreak_notMem_span rfl _, by simp, v.lineBreak_notMem_marks⟩

theorem Value.balanced_marks (v : Value) : Balanced (spell v.marks) := by
  cases v with
  | number n => exact balanced_span rfl _
  | string s => exact balanced_span rfl _
  | empty => exact .nil

theorem Output.balanced_marks (output : Output) : Balanced (spell output.marks) := by
  cases output with
  | empty => exact .nil
  | value v => exact v.balanced_marks
  | keyword word v =>
    rw [Output.marks, spell_append]
    exact (balanced_span rfl _).append (.char (by decide) (by decide) v.balanced_marks)

theorem Format.tag_toList {className : String} {t : Tag} (content : String)
    (h : ("<span class=\"" ++ className ++ "\">").toList = t.text) :
    (Format.tag className content).toList = t.text ++ (content.toList ++ Tag.close.text) := by
  have happ (a b c : String) : (a ++ b ++ c).toList = a.toList ++ (b.toList ++ c.toList) := by
    rw [String.toList_append, String.toList_append, List.append_assoc]
  rw [← h]
  exact happ _ content "</span>"

theorem Format.html_number (n : Binary64) :
    (html.number n).toList = spell (span .number n.resultText.toList) := by
  have hplain : Plain numeralChars := by decide
  have hself : Text.Entity.encode n.resultText.toList = n.resultText.toList :=
    encode_eq_self fun c hc => hplain c (Binary64.mem_numeralChars_of_mem_resultText hc)
  rw [Format.number, spell_span, hself]
  exact tag_toList _ (by decide)

theorem Format.html_string (s : String) :
    (html.string s).toList = spell (span .string ('"' :: (s.toList ++ ['"']))) := by
  have hquoted : ("\"" ++ Text.Entity.escape s ++ "\"").toList
      = Text.Entity.encode ('"' :: (s.toList ++ ['"'])) := by
    simp only [String.toList_append, Text.Entity.escape, String.toList_ofList, Text.Entity.encode,
      List.flatMap_cons, List.flatMap_append, List.flatMap_nil]
    rfl
  rw [spell_span, ← hquoted]
  exact tag_toList _ (by decide)

theorem Format.html_keyword (word : String) :
    (html.keyword word).toList = spell (span .keyword word.toList) := by
  have hescape : (Text.Entity.escape word).toList = Text.Entity.encode word.toList :=
    String.toList_ofList
  rw [spell_span, ← hescape]
  exact tag_toList _ (by decide)

theorem Format.html_value (v : Value) : (html.value v).toList = spell v.marks := by
  cases v with
  | number n => exact html_number n
  | string s => exact html_string s
  | empty => rfl

theorem Format.html_output (output : Output) :
    (html.output output).toList = spell output.marks := by
  cases output with
  | empty => rfl
  | value v => exact html_value v
  | keyword word v =>
    rw [Format.output, String.toList_append, String.toList_append, html_keyword, html_value,
      Output.marks, spell_append, spell_cons, List.append_assoc]
    rfl

theorem Format.html_render (outputs : List Output) :
    (html.render outputs).toList = spell (lines (outputs.map Output.marks)) := by
  rw [Format.render, String.toList_intercalate]
  induction outputs with
  | nil => rfl
  | cons output outputs ih =>
    cases outputs with
    | nil =>
      simp only [List.map_cons, List.map_nil, lines, List.intercalate_singleton]
      exact html_output output
    | cons next rest =>
      simp only [List.map_cons, lines, List.intercalate_cons_cons, spell_append] at ih ⊢
      rw [ih, html_output]
      rfl

/-- Values that look alike: numbers are told apart by their texts only. -/
inductive Value.Resembles : Value → Value → Prop where
  | number {m n : Binary64} : m.resultText = n.resultText → Resembles (.number m) (.number n)
  | string (s : String) : Resembles (.string s) (.string s)
  | empty : Resembles .empty .empty

/-- Outputs that look alike. Of the empty value as much is seen as of no value. -/
inductive Output.Resembles : Output → Output → Prop where
  | empty : Resembles .empty .empty
  | value {v w : Value} : v.Resembles w → Resembles (.value v) (.value w)
  | emptyValue : Resembles .empty (.value .empty)
  | valueEmpty : Resembles (.value .empty) .empty
  | keyword {v w : Value} (word : String) : v.Resembles w →
      Resembles (.keyword word v) (.keyword word w)

/-- The places that outputs take. Where there is nothing, one place is still seen. -/
def Output.slots : List Output → List Output
  | [] => [.empty]
  | outputs => outputs

theorem Output.slots_ne_nil (outputs : List Output) : slots outputs ≠ [] := by
  cases outputs <;> exact List.cons_ne_nil _ _

theorem Output.lines_slots (outputs : List Output) :
    lines ((slots outputs).map Output.marks) = lines (outputs.map Output.marks) := by
  cases outputs <;> rfl

theorem Value.marks_ne_keyword (v : Value) (word : List Char) (rest : List Mark) :
    v.marks ≠ span .keyword word ++ rest := by
  intro h
  rw [← List.append_nil v.marks] at h
  cases v with
  | number n => exact absurd (span_append_inj h).1 (by decide)
  | string s => exact absurd (span_append_inj h).1 (by decide)
  | empty => cases h

theorem Value.marks_eq_nil {v : Value} (h : v.marks = []) : v = .empty := by
  cases v with
  | number n => cases h
  | string s => cases h
  | empty => rfl

theorem Value.resembles_of_marks {v w : Value} (h : v.marks = w.marks) : v.Resembles w := by
  have happ : v.marks ++ [] = w.marks ++ [] := by rw [h]
  cases v with
  | number m =>
    cases w with
    | number n => exact .number (String.toList_inj.1 (span_append_inj happ).2.1)
    | string s => exact absurd (span_append_inj happ).1 (by decide)
    | empty => cases h
  | string s =>
    cases w with
    | number n => exact absurd (span_append_inj happ).1 (by decide)
    | string t =>
      have hquoted := (span_append_inj happ).2.1
      have hst := List.append_cancel_right (List.cons.inj hquoted).2
      rw [String.toList_inj.1 hst]
      exact .string t
    | empty => cases h
  | empty =>
    rw [Value.marks_eq_nil h.symm]
    exact .empty

theorem Value.Resembles.marks_eq {v w : Value} (h : v.Resembles w) : v.marks = w.marks := by
  cases h with
  | number htext => rw [Value.marks, Value.marks, htext]
  | string s => rfl
  | empty => rfl

theorem Output.resembles_of_marks {x y : Output} (h : x.marks = y.marks) : x.Resembles y := by
  cases x with
  | empty =>
    cases y with
    | empty => exact .empty
    | value w =>
      rw [Value.marks_eq_nil (v := w) h.symm]
      exact .emptyValue
    | keyword word w => cases h
  | value v =>
    cases y with
    | empty =>
      rw [Value.marks_eq_nil (v := v) h]
      exact .valueEmpty
    | value w => exact .value (Value.resembles_of_marks h)
    | keyword word w => exact absurd h (v.marks_ne_keyword _ _)
  | keyword word v =>
    cases y with
    | empty => cases h
    | value w => exact absurd h.symm (w.marks_ne_keyword _ _)
    | keyword other w =>
      obtain ⟨-, hword, hrest⟩ := span_append_inj h
      rw [String.toList_inj.1 hword]
      exact .keyword other (Value.resembles_of_marks (List.cons.inj hrest).2)

theorem Output.Resembles.marks_eq {x y : Output} (h : x.Resembles y) : x.marks = y.marks := by
  cases h with
  | value hv => exact hv.marks_eq
  | keyword word hv => rw [Output.marks, Output.marks, hv.marks_eq]
  | empty => rfl
  | emptyValue => rfl
  | valueEmpty => rfl

theorem Output.marks_eq_iff {x y : Output} : x.marks = y.marks ↔ x.Resembles y :=
  ⟨resembles_of_marks, Resembles.marks_eq⟩

theorem Output.map_marks_eq_iff {xs ys : List Output} :
    xs.map Output.marks = ys.map Output.marks ↔ List.Forall₂ Output.Resembles xs ys := by
  rw [← List.forall₂_eq_eq_eq, List.forall₂_map_left_iff, List.forall₂_map_right_iff]
  simp only [Output.marks_eq_iff]

theorem Format.html_render_eq_iff {xs ys : List Output} :
    html.render xs = html.render ys
      ↔ List.Forall₂ Output.Resembles (Output.slots xs) (Output.slots ys) := by
  have hplain : ∀ outputs : List Output, ∀ p ∈ outputs.map Output.marks,
      Mark.tag .lineBreak ∉ p := by
    intro outputs p hp
    obtain ⟨output, -, rfl⟩ := List.mem_map.1 hp
    exact output.lineBreak_notMem_marks
  have hne : ∀ outputs, (Output.slots outputs).map Output.marks ≠ [] := fun outputs h =>
    Output.slots_ne_nil outputs (List.map_eq_nil_iff.1 h)
  rw [← String.toList_inj, html_render, html_render, ← Output.lines_slots xs,
    ← Output.lines_slots ys, ← Output.map_marks_eq_iff]
  constructor
  · intro h
    exact lines_inj (hne xs) (hne ys) (hplain _) (hplain _) (spell_injective h)
  · intro h
    rw [h]

/-- Markup of results is safe, and shows all that there is to see: whatever texts the outputs
hold, it is well formed and has one line break between two outputs, and outputs with the same markup
look alike one by one. -/
theorem Format.html_is_safe_and_lossless (xs ys : List Output) :
    WellFormed (html.render xs).toList ∧
      occurrences Tag.lineBreak.text (html.render xs).toList = xs.length - 1 ∧
      (html.render xs = html.render ys
        ↔ List.Forall₂ Output.Resembles (Output.slots xs) (Output.slots ys)) := by
  refine ⟨?_, ?_, html_render_eq_iff⟩
  · rw [html_render]
    apply wellFormed_spell
    apply balanced_lines
    intro p hp
    obtain ⟨output, -, rfl⟩ := List.mem_map.1 hp
    exact output.balanced_marks
  · rw [html_render, occurrences_spell, count_lines, List.length_map]
    intro p hp
    obtain ⟨output, -, rfl⟩ := List.mem_map.1 hp
    exact output.lineBreak_notMem_marks

-- A string that imitates the markup, and an output that shows nothing.
example : Format.html.render [.value (.string "<br>"), .empty]
    = "<span class=\"string\">\"&lt;br&gt;\"</span><br>" := by decide

end PrefixLang
