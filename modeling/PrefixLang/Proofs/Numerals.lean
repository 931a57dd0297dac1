import PrefixLang.Decimal.Notation
import Mathlib.Tactic.Common
/-!
The characters of number texts. There always are some, and none of them means anything to markup.
-/

namespace PrefixLang

def numeralChars : List Char := "0123456789.+-eINafinty".toList

namespace Decimal

theorem mem_digits_of_isDigit {c : Char} (h : c.isDigit = true) : c ∈ "0123456789".toList := by
  have hrange := Char.isDigit_iff_toNat.1 h
  have hall : ∀ n < 58, 48 ≤ n → Char.ofNat n ∈ "0123456789".toList := by decide
  rw [← Char.ofNat_toNat c]
  exact hall _ (Nat.lt_succ_of_le hrange.2) hrange.1

theorem mem_numeralChars_of_isDigit {c : Char} (h : c.isDigit = true) : c ∈ numeralChars := by
  have hdigits : "0123456789".toList ⊆ numeralChars := by decide
  exact hdigits (mem_digits_of_isDigit h)

theorem eq_zero_of_head?_toDigits {n : ℕ} (h : (Nat.toDigits 10 n).head? = some '0') : n = 0 := by
  induction n using Nat.strongRecOn with
  | ind n ih =>
    by_cases hn : n < 10
    · have hall : ∀ n < 10, n.digitChar = '0' → n = 0 := by decide
      rw [Nat.toDigits_of_lt_base hn] at h
      exact hall n hn (Option.some.inj h)
    · -- The first digit is that of the number without its last one.
      rw [Nat.toDigits_of_base_le (by decide) (by omega)] at h
      obtain ⟨c, t, ht⟩ := List.exists_cons_of_ne_nil (Nat.toDigits_ne_nil (n := n / 10) (b := 10))
      rw [ht] at h
      have hzero := ih (n / 10) (by omega) (by rw [ht]; exact h)
      omega

theorem mem_numeralChars_of_mem_toDigits {n : ℕ} {c : Char} (h : c ∈ Nat.toDigits 10 n) :
    c ∈ numeralChars :=
  mem_numeralChars_of_isDigit (Nat.isDigit_of_mem_toDigits (by decide) (by decide) h)

theorem mem_numeralChars_of_mem_positional {d : Decimal} {c : Char} (h : c ∈ d.positional) :
    c ∈ numeralChars := by
  have hdigits : ∀ c ∈ d.digits, c ∈ numeralChars := fun c hc => mem_numeralChars_of_mem_toDigits hc
  have hzero : '0' ∈ numeralChars := by decide
  have hpoint : '.' ∈ numeralChars := by decide
  unfold positional at h
  simp only at h
  split at h
  · simp only [List.mem_cons, List.mem_append, List.mem_replicate] at h
    rcases h with rfl | rfl | ⟨-, rfl⟩ | h
    · exact hzero
    · exact hpoint
    · exact hzero
    · exact hdigits c h
  split at h
  · rcases List.mem_append.1 h with h | h
    · exact hdigits c h
    · exact (List.mem_replicate.1 h).2 ▸ hzero
  · rcases List.mem_append.1 h with h | h
    · exact hdigits c (List.mem_of_mem_take h)
    rcases List.mem_cons.1 h with rfl | h
    · exact hpoint
    · exact hdigits c (List.mem_of_mem_drop h)

theorem mem_numeralChars_of_mem_scientific {d : Decimal} {c : Char} (h : c ∈ d.scientific) :
    c ∈ numeralChars := by
  have hdigits : ∀ c ∈ d.digits, c ∈ numeralChars := fun c hc => mem_numeralChars_of_mem_toDigits hc
  unfold scientific at h
  simp only [List.mem_append, List.mem_cons] at h
  rcases h with (h | h) | rfl | rfl | h
  · exact hdigits c (List.mem_of_mem_take h)
  · split at h
    · cases h
    rcases List.mem_cons.1 h with rfl | h
    · decide
    · exact hdigits c (List.mem_of_mem_drop h)
  · decide
  · split <;> decide
  · exact mem_numeralChars_of_mem_toDigits h

theorem positional_ne_nil (d : Decimal) : d.positional ≠ [] := by
  unfold positional
  simp only
  split
  · exact List.cons_ne_nil _ _
  split
  · exact List.append_ne_nil_of_left_ne_nil Nat.toDigits_ne_nil _
  · exact List.append_ne_nil_of_right_ne_nil _ (List.cons_ne_nil _ _)

theorem scientific_ne_nil (d : Decimal) : d.scientific ≠ [] :=
  List.append_ne_nil_of_right_ne_nil _ (List.cons_ne_nil _ _)

end Decimal

namespace Binary64

theorem mem_numeralChars_of_mem_signed {negative : Bool} {magnitude : List Char} {c : Char}
    (hm : ∀ d ∈ magnitude, d ∈ numeralChars) (h : c ∈ (signed negative magnitude).toList) :
    c ∈ numeralChars := by
  rw [signed, String.toList_ofList] at h
  split at h
  · rcases List.mem_cons.1 h with rfl | h
    · decide
    · exact hm c h
  · exact hm c h

theorem mem_numeralChars_of_mem_resultText {x : Binary64} {c : Char} (h : c ∈ x.resultText.toList) :
    c ∈ numeralChars := by
  have htext : ∀ text ∈ ["NaN", "Infinity", "0"], text.toList ⊆ numeralChars := by decide
  unfold resultText at h
  split at h
  · exact htext "NaN" (by decide) h
  split at h
  · exact mem_numeralChars_of_mem_signed (fun _ hd => htext "Infinity" (by decide) hd) h
  split at h
  · exact htext "0" (by decide) h
  · refine mem_numeralChars_of_mem_signed (fun d hd => ?_) h
    split at hd
    · exact Decimal.mem_numeralChars_of_mem_positional hd
    · exact Decimal.mem_numeralChars_of_mem_scientific hd

theorem signed_ne_nil (negative : Bool) {magnitude : List Char} (h : magnitude ≠ []) :
    (signed negative magnitude).toList ≠ [] := by
  rw [signed, String.toList_ofList]
  split
  · exact List.cons_ne_nil _ _
  · exact h

theorem resultText_ne_nil (x : Binary64) : x.resultText.toList ≠ [] := by
  unfold resultText
  split
  · decide
  split
  · exact signed_ne_nil _ (by decide)
  split
  · decide
  · apply signed_ne_nil
    split
    · exact Decimal.positional_ne_nil _
    · exact Decimal.scientific_ne_nil _

end Binary64

end PrefixLang
