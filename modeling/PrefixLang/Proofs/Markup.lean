import PrefixLang.Text.Entity
import Mathlib.Data.List.Infix
import Mathlib.Tactic.Common
/-!
Markup as a row of marks: tags, and characters with entities for three of them. The text of no mark
begins the text of another one, so a text of markup is the text of one row only, and what a browser
takes for a tag was put there as a tag.
-/

namespace PrefixLang.Markup

/-- All tags that results are marked with. -/
inductive Tag where
  | number
  | string
  | keyword
  | close
  | lineBreak
  deriving DecidableEq, Repr

def Tag.text : Tag → List Char
  | .number => "<span class=\"number\">".toList
  | .string => "<span class=\"string\">".toList
  | .keyword => "<span class=\"keyword\">".toList
  | .close => "</span>".toList
  | .lineBreak => "<br>".toList

def Tag.opensSpan : Tag → Bool
  | .number | .string | .keyword => true
  | .close | .lineBreak => false

def entities : List (List Char) := ["&amp;".toList, "&lt;".toList, "&gt;".toList]

def special : List Char := ['&', '<', '>']

/-- None of the characters means anything to markup. -/
def Plain (s : List Char) : Prop := ∀ c ∈ s, c ∉ special

instance (s : List Char) : Decidable (Plain s) := List.decidableBAll (· ∉ special) s

inductive Mark where
  | tag (t : Tag)
  | char (c : Char)
  deriving DecidableEq, Repr

def Mark.text : Mark → List Char
  | .tag t => t.text
  | .char c => Text.Entity.encodeChar c

def spell (marks : List Mark) : List Char := marks.flatMap Mark.text

def occurrences (pattern text : List Char) : ℕ := text.tails.countP (pattern.isPrefixOf ·)

/-- Spans are closed, and no tag but its end stands in a span. -/
inductive Balanced : List Char → Prop where
  | nil : Balanced []
  | char {c rest} : c ≠ '<' → c ≠ '>' → Balanced rest → Balanced (c :: rest)
  | lineBreak {rest} : Balanced rest → Balanced (Tag.lineBreak.text ++ rest)
  | span {t : Tag} {content rest} : t.opensSpan = true → (∀ c ∈ content, c ≠ '<' ∧ c ≠ '>') →
      Balanced rest → Balanced (t.text ++ (content ++ (Tag.close.text ++ rest)))

theorem encodeChar_cases (c : Char) :
    c ∉ special ∧ Text.Entity.encodeChar c = [c] ∨
      c ∈ special ∧ Text.Entity.encodeChar c ∈ entities := by
  by_cases hc : c ∈ special
  · right
    refine ⟨hc, ?_⟩
    simp only [special, List.mem_cons, List.not_mem_nil, or_false] at hc
    rcases hc with rfl | rfl | rfl <;> decide
  · left
    refine ⟨hc, ?_⟩
    simp only [special, List.mem_cons, List.not_mem_nil, or_false, not_or] at hc
    obtain ⟨ha, hl, hg⟩ := hc
    unfold Text.Entity.encodeChar
    split <;> simp_all

theorem Tag.text_shape (t : Tag) :
    ∃ body, t.text = '<' :: (body ++ ['>']) ∧ Plain body := by
  refine ⟨t.text.tail.dropLast, ?_, ?_⟩ <;> cases t <;> decide

theorem entity_shape {text : List Char} (h : text ∈ entities) :
    ∃ name, text = '&' :: name ∧ Plain name := by
  refine ⟨text.tail, ?_⟩
  simp only [entities, List.mem_cons, List.not_mem_nil, or_false] at h
  rcases h with rfl | rfl | rfl <;> decide

theorem encodeChar_ne {c d : Char} (h : d ∈ Text.Entity.encodeChar c) : d ≠ '<' ∧ d ≠ '>' := by
  rcases encodeChar_cases c with ⟨hc, he⟩ | ⟨-, he⟩
  · rw [he, List.mem_singleton] at h
    subst h
    constructor <;> rintro rfl <;> exact hc (by decide)
  · obtain ⟨name, hn, hname⟩ := entity_shape he
    rw [hn, List.mem_cons] at h
    rcases h with rfl | h
    · decide
    · constructor <;> rintro rfl <;> exact hname _ h (by decide)

theorem Mark.text_ne_nil (m : Mark) : m.text ≠ [] := by
  cases m with
  | tag t =>
    obtain ⟨body, hb, -⟩ := t.text_shape
    rw [Mark.text, hb]
    exact List.cons_ne_nil _ _
  | char c =>
    rcases encodeChar_cases c with ⟨-, he⟩ | ⟨-, he⟩
    · rw [Mark.text, he]
      exact List.cons_ne_nil _ _
    · obtain ⟨name, hn, -⟩ := entity_shape he
      rw [Mark.text, hn]
      exact List.cons_ne_nil _ _

theorem Tag.eq_of_begins {t u : Tag} (h : t.text <+: u.text) : t = u := by
  revert h
  cases t <;> cases u <;> decide

theorem eq_of_encodeChar_begins {c d : Char}
    (h : Text.Entity.encodeChar c <+: Text.Entity.encodeChar d) : c = d := by
  have hamp : '&' ∈ special := by decide
  rcases encodeChar_cases c with ⟨hc, he⟩ | ⟨hc, he⟩
  · rw [he] at h
    rcases encodeChar_cases d with ⟨-, hf⟩ | ⟨-, hf⟩
    · rw [hf] at h
      exact (List.cons_prefix_cons.1 h).1
    · obtain ⟨name, hn, -⟩ := entity_shape hf
      rw [hn] at h
      exact absurd ((List.cons_prefix_cons.1 h).1 ▸ hamp) hc
  · rcases encodeChar_cases d with ⟨hd, hf⟩ | ⟨hd, -⟩
    · obtain ⟨name, hn, -⟩ := entity_shape he
      rw [hn, hf] at h
      exact absurd ((List.cons_prefix_cons.1 h).1 ▸ hamp) hd
    · simp only [special, List.mem_cons, List.not_mem_nil, or_false] at hc hd
      revert h
      rcases hc with rfl | rfl | rfl <;> rcases hd with rfl | rfl | rfl <;> decide

theorem Mark.eq_of_begins {m n : Mark} (h : m.text <+: n.text) : m = n := by
  cases m with
  | tag t =>
    cases n with
    | tag u => rw [Tag.eq_of_begins h]
    | char d =>
      obtain ⟨body, hb, -⟩ := t.text_shape
      have hmem : '<' ∈ (Mark.tag t).text := by rw [Mark.text, hb]; exact List.mem_cons_self
      exact absurd rfl (encodeChar_ne (h.subset hmem)).1
  | char c =>
    cases n with
    | tag u =>
      obtain ⟨d, rest, hd⟩ := List.exists_cons_of_ne_nil (Mark.text_ne_nil (.char c))
      obtain ⟨body, hb, -⟩ := u.text_shape
      have hd' : d ∈ Text.Entity.encodeChar c := by
        rw [← Mark.text, hd]
        exact List.mem_cons_self
      rw [hd, Mark.text, hb] at h
      exact absurd (List.cons_prefix_cons.1 h).1 (encodeChar_ne hd').1
    | char d => rw [eq_of_encodeChar_begins h]

theorem Mark.eq_of_text_append {m n : Mark} {r s : List Char} (h : m.text ++ r = n.text ++ s) :
    m = n ∧ r = s := by
  have hm : m.text <+: n.text ++ s := ⟨r, h⟩
  obtain rfl : m = n := by
    rcases List.prefix_or_prefix_of_prefix hm (List.prefix_append n.text s) with hp | hp
    · exact eq_of_begins hp
    · exact (eq_of_begins hp).symm
  exact ⟨rfl, List.append_cancel_left h⟩

@[simp] theorem spell_nil : spell [] = [] := rfl

@[simp] theorem spell_cons (m : Mark) (marks : List Mark) :
    spell (m :: marks) = m.text ++ spell marks := rfl

@[simp] theorem spell_append (marks more : List Mark) :
    spell (marks ++ more) = spell marks ++ spell more := List.flatMap_append

@[simp] theorem spell_chars (s : List Char) : spell (s.map Mark.char) = Text.Entity.encode s := by
  rw [spell, List.flatMap_map]
  rfl

theorem spell_injective {marks more : List Mark} (h : spell marks = spell more) : marks = more := by
  induction marks generalizing more with
  | nil =>
    cases more with
    | nil => rfl
    | cons n more =>
      rw [spell_nil, spell_cons] at h
      exact absurd (List.append_eq_nil_iff.1 h.symm).1 n.text_ne_nil
  | cons m marks ih =>
    cases more with
    | nil =>
      rw [spell_nil, spell_cons] at h
      exact absurd (List.append_eq_nil_iff.1 h).1 m.text_ne_nil
    | cons n more =>
      rw [spell_cons, spell_cons] at h
      obtain ⟨rfl, hrest⟩ := Mark.eq_of_text_append h
      rw [ih hrest]

theorem exists_mark_of_spell {marks : List Mark} {before after : List Char} {c : Char}
    (h : spell marks = before ++ c :: after) :
    ∃ m ∈ marks, ∃ u v, m.text = u ++ c :: v ∧ u <:+ before ∧ v <+: after := by
  induction marks generalizing before with
  | nil => simp at h
  | cons m marks ih =>
    rw [spell_cons] at h
    rcases List.append_eq_append_iff.1 h with ⟨u, hb, hs⟩ | ⟨v, hm, hs⟩
    · obtain ⟨n, hn, u', v, htext, hu, hv⟩ := ih hs
      refine ⟨n, List.mem_cons_of_mem _ hn, u', v, htext, ?_, hv⟩
      rw [hb]
      exact hu.trans (List.suffix_append _ _)
    · cases v with
      | nil =>
        have hrest : spell marks = [] ++ c :: after := hs.symm
        obtain ⟨n, hn, u', v, htext, hu, hv⟩ := ih hrest
        obtain rfl := List.suffix_nil.1 hu
        exact ⟨n, List.mem_cons_of_mem _ hn, [], v, htext, List.nil_suffix, hv⟩
      | cons d v =>
        obtain ⟨rfl, rfl⟩ := List.cons.inj hs
        exact ⟨m, List.mem_cons_self, before, v, hm, List.suffix_rfl, List.prefix_append _ _⟩

theorem eq_nil_of_cons_eq {c : Char} {tail u v : List Char} (h : c :: tail = u ++ c :: v)
    (hc : c ∉ tail) : u = [] := by
  cases u with
  | nil => rfl
  | cons d u =>
    obtain ⟨rfl, rfl⟩ := List.cons.inj h
    exact absurd (by simp) hc

theorem eq_nil_of_concat_eq {c : Char} {front u v : List Char} (h : front ++ [c] = u ++ c :: v)
    (hc : c ∉ front) : v = [] := by
  have hr := congrArg List.reverse h
  simp only [List.reverse_append, List.reverse_cons, List.reverse_nil, List.nil_append,
    List.append_assoc, List.cons_append] at hr
  have hnil := eq_nil_of_cons_eq hr (by simpa using hc)
  exact List.reverse_eq_nil_iff.1 hnil

theorem tag_begins {marks : List Mark} {before after : List Char}
    (h : spell marks = before ++ '<' :: after) : ∃ t : Tag, t.text <+: '<' :: after := by
  obtain ⟨m, -, u, v, htext, -, hv⟩ := exists_mark_of_spell h
  have hmem : '<' ∈ m.text := by rw [htext]; simp
  cases m with
  | tag t =>
    obtain ⟨body, hb, hplain⟩ := t.text_shape
    rw [Mark.text, hb] at htext
    have hu : u = [] := by
      refine eq_nil_of_cons_eq htext fun hm => ?_
      rcases List.mem_append.1 hm with hm | hm
      · exact hplain _ hm (by decide)
      · exact absurd hm (by decide)
    rw [hu, List.nil_append] at htext
    refine ⟨t, ?_⟩
    rw [hb, htext]
    exact List.cons_prefix_cons.2 ⟨rfl, hv⟩
  | char c => exact absurd rfl (encodeChar_ne hmem).1

theorem tag_ends {marks : List Mark} {before after : List Char}
    (h : spell marks = before ++ '>' :: after) : ∃ t : Tag, t.text <:+ before ++ ['>'] := by
  obtain ⟨m, -, u, v, htext, hu, -⟩ := exists_mark_of_spell h
  have hmem : '>' ∈ m.text := by rw [htext]; simp
  cases m with
  | tag t =>
    obtain ⟨body, hb, hplain⟩ := t.text_shape
    rw [Mark.text, hb, ← List.cons_append] at htext
    have hv : v = [] := by
      refine eq_nil_of_concat_eq htext fun hm => ?_
      rcases List.mem_cons.1 hm with hm | hm
      · exact absurd hm (by decide)
      · exact hplain _ hm (by decide)
    refine ⟨t, ?_⟩
    obtain ⟨w, rfl⟩ := hu
    exact ⟨w, by rw [hb, ← List.cons_append, htext, hv, List.append_assoc]⟩
  | char c => exact absurd rfl (encodeChar_ne hmem).2

theorem entity_begins {marks : List Mark} {before after : List Char}
    (h : spell marks = before ++ '&' :: after) : ∃ text ∈ entities, text <+: '&' :: after := by
  obtain ⟨m, -, u, v, htext, -, hv⟩ := exists_mark_of_spell h
  have hmem : '&' ∈ m.text := by rw [htext]; simp
  cases m with
  | tag t =>
    obtain ⟨body, hb, hplain⟩ := t.text_shape
    rw [Mark.text, hb, List.mem_cons, List.mem_append, List.mem_singleton] at hmem
    rcases hmem with hm | hm | hm
    · exact absurd hm (by decide)
    · exact absurd (by decide) (hplain _ hm)
    · exact absurd hm (by decide)
  | char c =>
    rcases encodeChar_cases c with ⟨hc, he⟩ | ⟨-, he⟩
    · rw [Mark.text, he, List.mem_singleton] at hmem
      exact absurd (by decide) (hmem ▸ hc)
    · obtain ⟨name, hn, hplain⟩ := entity_shape he
      rw [Mark.text, hn] at htext
      have hu : u = [] := eq_nil_of_cons_eq htext fun hm => hplain _ hm (by decide)
      refine ⟨_, he, ?_⟩
      rw [hu, List.nil_append] at htext
      rw [hn, htext]
      exact List.cons_prefix_cons.2 ⟨rfl, hv⟩

theorem occurrences_cons (pattern : List Char) (c : Char) (rest : List Char) :
    occurrences pattern (c :: rest)
      = occurrences pattern rest + if pattern <+: c :: rest then 1 else 0 := by
  rw [occurrences, List.tails_cons, List.countP_cons]
  simp only [List.isPrefixOf_iff_prefix]
  rfl

theorem occurrences_append {c : Char} {pattern u : List Char} (h : c ∉ u) (rest : List Char) :
    occurrences (c :: pattern) (u ++ rest) = occurrences (c :: pattern) rest := by
  induction u with
  | nil => rfl
  | cons d u ih =>
    have hne : ¬c :: pattern <+: d :: (u ++ rest) := by
      intro hp
      exact h ((List.cons_prefix_cons.1 hp).1 ▸ List.mem_cons_self)
    rw [List.cons_append, occurrences_cons, if_neg hne, Nat.add_zero]
    exact ih fun hm => h (List.mem_cons_of_mem _ hm)

theorem occurrences_text_append (t : Tag) (m : Mark) (rest : List Char) :
    occurrences t.text (m.text ++ rest)
      = occurrences t.text rest + if m = .tag t then 1 else 0 := by
  obtain ⟨pattern, hp, -⟩ := t.text_shape
  cases m with
  | tag u =>
    obtain ⟨body, hb, hplain⟩ := u.text_shape
    have htail : '<' ∉ body ++ ['>'] := by
      rw [List.mem_append, not_or]
      exact ⟨fun hm => hplain _ hm (by decide), by decide⟩
    have hstarts : t.text <+: u.text ++ rest ↔ Mark.tag u = .tag t := by
      constructor
      · rintro ⟨more, hmore⟩
        exact (Mark.eq_of_text_append (m := .tag t) (n := .tag u) hmore).1.symm
      · rintro ⟨rfl⟩
        exact List.prefix_append _ _
    have hcons : u.text ++ rest = '<' :: ((body ++ ['>']) ++ rest) := by rw [hb]; rfl
    rw [Mark.text, hcons, occurrences_cons, ← hcons, if_congr hstarts rfl rfl]
    rw [hp, occurrences_append htail]
  | char c =>
    have hplain : '<' ∉ Text.Entity.encodeChar c := fun hm => (encodeChar_ne hm).1 rfl
    rw [if_neg (by simp), Nat.add_zero, hp, Mark.text, occurrences_append hplain]

theorem occurrences_spell (t : Tag) (marks : List Mark) :
    occurrences t.text (spell marks) = marks.count (.tag t) := by
  induction marks with
  | nil => cases t <;> decide
  | cons m marks ih =>
    rw [spell_cons, occurrences_text_append, ih, List.count_cons]
    simp only [beq_iff_eq]

theorem Balanced.append {text more : List Char} (h : Balanced text) (hm : Balanced more) :
    Balanced (text ++ more) := by
  induction h with
  | nil => exact hm
  | char hl hg _ ih => exact .char hl hg ih
  | lineBreak _ ih =>
    rw [List.append_assoc]
    exact .lineBreak ih
  | span ht hc _ ih =>
    rw [List.append_assoc, List.append_assoc, List.append_assoc]
    exact .span ht hc ih

theorem mem_encode_ne {s : List Char} {c : Char} (h : c ∈ Text.Entity.encode s) :
    c ≠ '<' ∧ c ≠ '>' := by
  obtain ⟨d, -, hc⟩ := List.mem_flatMap.1 h
  exact encodeChar_ne hc

def span (t : Tag) (text : List Char) : List Mark := .tag t :: (text.map .char ++ [.tag .close])

theorem spell_span (t : Tag) (text : List Char) :
    spell (span t text) = t.text ++ (Text.Entity.encode text ++ Tag.close.text) := by
  simp [span, Mark.text]

theorem balanced_span {t : Tag} (h : t.opensSpan = true) (text : List Char) :
    Balanced (spell (span t text)) := by
  have hspan := Balanced.span h (fun c hc => mem_encode_ne (s := text) hc) .nil
  rwa [List.append_nil, ← spell_span] at hspan

end PrefixLang.Markup
