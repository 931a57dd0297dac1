import PrefixLang.Playground
import PrefixLang.Proofs.Markup
/-!
Texts read back from markup. Both ways to write the entities write the same, and one pass over it
from the left gives the text back.
-/

namespace PrefixLang.Text.Entity

/-- Puts the characters back in the place of their entities. All else stands for itself. -/
def decode : List Char → List Char
  | '&' :: 'a' :: 'm' :: 'p' :: ';' :: rest => '&' :: decode rest
  | '&' :: 'l' :: 't' :: ';' :: rest => '<' :: decode rest
  | '&' :: 'g' :: 't' :: ';' :: rest => '>' :: decode rest
  | c :: rest => c :: decode rest
  | [] => []

theorem decode_plain {c : Char} (h : c ≠ '&') (rest : List Char) :
    decode (c :: rest) = c :: decode rest := by
  rw [decode]
  all_goals
    rintro _ rfl
    exact absurd rfl h

theorem decode_encodeChar (c : Char) (rest : List Char) :
    decode (encodeChar c ++ rest) = c :: decode rest := by
  unfold encodeChar
  split
  · rfl
  · rfl
  · rfl
  · exact decode_plain (by assumption) rest

theorem decode_encode (s : List Char) : decode (encode s) = s := by
  induction s with
  | nil => rfl
  | cons c s ih =>
    rw [encode, List.flatMap_cons, decode_encodeChar, ← encode, ih]

theorem encodeInPasses_append (s t : List Char) :
    encodeInPasses (s ++ t) = encodeInPasses s ++ encodeInPasses t := by
  simp only [encodeInPasses, substitute, List.flatMap_append]

theorem encodeInPasses_singleton (c : Char) : encodeInPasses [c] = encodeChar c := by
  unfold encodeChar
  split
  · decide
  · decide
  · decide
  · next hamp hlt hgt =>
    simp only [encodeInPasses, substitute, List.flatMap_singleton]
    rw [if_neg hamp, List.flatMap_singleton, if_neg hlt, List.flatMap_singleton, if_neg hgt]

theorem encodeInPasses_eq_encode (s : List Char) : encodeInPasses s = encode s := by
  induction s with
  | nil => rfl
  | cons c s ih =>
    rw [← List.singleton_append, encodeInPasses_append, encodeInPasses_singleton, ih, encode,
      encode, List.flatMap_append, List.flatMap_singleton]

/-- Messages are written as texts of results are, and the writing can be undone. No tag begins or
ends in what is written, and an ampersand in it begins an entity. -/
theorem escapes_agree_and_are_undone (s t : String) :
    Playground.escapeMessage s = escape s ∧
    (∀ c ∈ (escape s).toList, c ≠ '<' ∧ c ≠ '>') ∧
    (∀ before after, (escape s).toList = before ++ '&' :: after →
      ∃ text ∈ Markup.entities, text <+: '&' :: after) ∧
    escape (s ++ t) = escape s ++ escape t ∧
    String.ofList (decode (escape s).toList) = s := by
  have htext : (escape s).toList = encode s.toList := String.toList_ofList
  refine ⟨?_, ?_, ?_, ?_, ?_⟩
  · rw [Playground.escapeMessage, encodeInPasses_eq_encode, escape]
  · rw [htext]
    exact fun c hc => Markup.mem_encode_ne hc
  · intro before after hsplit
    rw [htext, ← Markup.spell_chars] at hsplit
    exact Markup.entity_begins hsplit
  · rw [escape, String.toList_append, encode, List.flatMap_append, String.ofList_append]
    rfl
  · rw [htext, decode_encode, String.ofList_toList]

end PrefixLang.Text.Entity
