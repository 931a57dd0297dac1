import PrefixLang.Proofs.Numerals
import PrefixLang.Proofs.Patterns
import PrefixLang.Proofs.ShortestDigits
/-!
How numbers are laid out. `LaidOut` has the ways to write a decimal, told apart by where its point
stands, and `numeralValue` reads a numeral as the number that it denotes. Which way is taken is
decided by two bounds on the number itself, not on its decimal: that they agree, and that a text
says exactly which number it is the text of, is `resultText_lays_out_the_shortest`.
-/

namespace PrefixLang

namespace Decimal

variable {d : Decimal} {ds text : List Char} {n : ℤ}

def pointed : List Char → List Char
  | [] => []
  | [c] => [c]
  | c :: rest => c :: '.' :: rest

/-- The text of a number whose digits stand behind the point of `0.d₁d₂… * 10 ^ n`. -/
inductive LaidOut (ds : List Char) (n : ℤ) : List Char → Prop where
  | whole : ds.length ≤ n → n ≤ 21 →
      LaidOut ds n (ds ++ List.replicate (n - ds.length).toNat '0')
  | mixed : 0 < n → n < ds.length → n ≤ 21 →
      LaidOut ds n (ds.take n.toNat ++ '.' :: ds.drop n.toNat)
  | fraction : -6 < n → n ≤ 0 → LaidOut ds n ('0' :: '.' :: (List.replicate (-n).toNat '0' ++ ds))
  | large : 21 < n → LaidOut ds n (pointed ds ++ 'e' :: '+' :: Nat.toDigits 10 (n - 1).natAbs)
  | small : n ≤ -6 → LaidOut ds n (pointed ds ++ 'e' :: '-' :: Nat.toDigits 10 (n - 1).natAbs)

theorem laidOut_positional (hlow : -6 < d.pointPlace) (hhigh : d.pointPlace ≤ 21) :
    LaidOut d.digits d.pointPlace d.positional := by
  unfold positional
  simp only
  split
  case isTrue hle => exact .fraction hlow hle
  case isFalse hpos =>
    split
    case isTrue hlen => exact .whole hlen hhigh
    case isFalse hlen => exact .mixed (not_le.1 hpos) (not_le.1 hlen) hhigh

theorem scientific_eq (d : Decimal) :
    d.scientific = pointed d.digits ++ 'e' :: (if d.pointPlace - 1 < 0 then '-' else '+')
      :: Nat.toDigits 10 (d.pointPlace - 1).natAbs := by
  have hpointed : d.digits.take 1 ++
      (if (d.digits.drop 1).isEmpty then [] else '.' :: d.digits.drop 1) = pointed d.digits := by
    rcases d.digits with _ | ⟨c, _ | ⟨c', rest⟩⟩ <;> rfl
  rw [← hpointed]
  rfl

theorem laidOut_scientific (h : d.pointPlace ≤ -6 ∨ 21 < d.pointPlace) :
    LaidOut d.digits d.pointPlace d.scientific := by
  rw [scientific_eq]
  rcases h with hsmall | hlarge
  · rw [if_pos (by omega)]
    exact .small hsmall
  · rw [if_neg (by omega)]
    exact .large hlarge

/-- Digits with a point somewhere: the digits without it, divided by the weight of the last one. -/
def mantissaValue (text : List Char) : ℚ :=
  let whole := text.takeWhile (· != '.')
  let fraction := (text.dropWhile (· != '.')).drop 1
  Nat.ofDigitChars 10 (whole ++ fraction) 0 / 10 ^ fraction.length

def powerValue : List Char → ℤ
  | 'e' :: '+' :: ds => Nat.ofDigitChars 10 ds 0
  | 'e' :: '-' :: ds => -Nat.ofDigitChars 10 ds 0
  | _ => 0

def magnitudeValue (text : List Char) : ℚ :=
  mantissaValue (text.takeWhile (· != 'e')) * 10 ^ powerValue (text.dropWhile (· != 'e'))

/-- The number that a text denotes: a sign, digits with a point, and a power of ten. -/
def numeralValue : List Char → ℚ
  | '-' :: text => -magnitudeValue text
  | text => magnitudeValue text

theorem isDigit_of_mem_digits {c : Char} (h : c ∈ d.digits) : c.isDigit = true :=
  Nat.isDigit_of_mem_toDigits (by decide) (by decide) h

theorem ofDigitChars_digits (d : Decimal) : Nat.ofDigitChars 10 d.digits 0 = d.coefficient :=
  Nat.ofDigitChars_toDigits (by decide) (by decide)

theorem cut_at {c : Char} {s t : List Char} (hs : c ∉ s) (ht : ∀ x ∈ t.head?, x = c) :
    (s ++ t).takeWhile (· != c) = s ∧ (s ++ t).dropWhile (· != c) = t := by
  refine Piece.run_ends (fun x hx => ?_) fun x hx => ?_
  · exact bne_iff_ne.2 fun heq => hs (heq ▸ hx)
  · rw [ht x hx, bne_self_eq_false]

theorem mantissaValue_whole {whole : List Char} (h : '.' ∉ whole) :
    mantissaValue whole = Nat.ofDigitChars 10 whole 0 := by
  obtain ⟨htake, hdrop⟩ := cut_at h (t := []) (by simp)
  rw [List.append_nil] at htake hdrop
  simp [mantissaValue, htake, hdrop]

theorem mantissaValue_point {whole : List Char} (h : '.' ∉ whole) (fraction : List Char) :
    mantissaValue (whole ++ '.' :: fraction)
      = Nat.ofDigitChars 10 (whole ++ fraction) 0 / 10 ^ fraction.length := by
  obtain ⟨htake, hdrop⟩ := cut_at h (t := '.' :: fraction) (by simp)
  simp only [mantissaValue, htake, hdrop, List.drop_one, List.tail_cons]

theorem magnitudeValue_plain {text : List Char} (h : 'e' ∉ text) :
    magnitudeValue text = mantissaValue text := by
  obtain ⟨htake, hdrop⟩ := cut_at h (t := []) (by simp)
  rw [List.append_nil] at htake hdrop
  simp [magnitudeValue, htake, hdrop, powerValue]

theorem magnitudeValue_power {mantissa : List Char} (h : 'e' ∉ mantissa) (power : List Char) :
    magnitudeValue (mantissa ++ 'e' :: power)
      = mantissaValue mantissa * 10 ^ powerValue ('e' :: power) := by
  obtain ⟨htake, hdrop⟩ := cut_at h (t := 'e' :: power) (by simp)
  rw [magnitudeValue, htake, hdrop]

theorem notMem_digits {c : Char} (h : c.isDigit = false) : c ∉ d.digits := fun hc => by
  rw [isDigit_of_mem_digits hc] at h
  cases h

theorem mantissaValue_pointed (d : Decimal) :
    mantissaValue (pointed d.digits) = d.coefficient / 10 ^ (d.digits.length - 1) := by
  have hpoint : '.' ∉ d.digits := notMem_digits (by decide)
  rw [← d.ofDigitChars_digits]
  rcases hds : d.digits with _ | ⟨c, _ | ⟨c', rest⟩⟩
  · exact absurd hds Nat.toDigits_ne_nil
  · rw [hds] at hpoint
    simp [pointed, mantissaValue_whole hpoint]
  · have hc : '.' ∉ [c] := by
      rw [hds] at hpoint
      simp_all
    exact mantissaValue_point hc (c' :: rest)

theorem value_eq_div {j : ℕ} (h : d.exponent = -j) : d.value = d.coefficient / 10 ^ j := by
  rw [value, h, zpow_neg, zpow_natCast, div_eq_mul_inv]

theorem value_eq_place (d : Decimal) :
    d.value = Nat.ofDigitChars 10 d.digits 0 / 10 ^ d.digits.length * 10 ^ d.pointPlace := by
  rw [ofDigitChars_digits, pointPlace, zpow_add₀ (by norm_num), zpow_natCast, ← mul_assoc,
    div_mul_cancel₀ _ (by positivity), value]

theorem powerValue_toDigits (m : ℤ) :
    powerValue ('e' :: (if m < 0 then '-' else '+') :: Nat.toDigits 10 m.natAbs) = m := by
  have hread : Nat.ofDigitChars 10 (Nat.toDigits 10 m.natAbs) 0 = m.natAbs :=
    Nat.ofDigitChars_toDigits (by decide) (by decide)
  split <;> simp only [powerValue, hread] <;> omega

theorem mantissaValue_mul_power (d : Decimal) :
    mantissaValue (pointed d.digits) * 10 ^ (d.pointPlace - 1) = d.value := by
  have hlength : 0 < d.digits.length := Nat.length_toDigits_pos
  have hplace : d.pointPlace - 1 = ((d.digits.length - 1 : ℕ) : ℤ) + d.exponent := by
    rw [pointPlace]
    omega
  rw [mantissaValue_pointed, hplace, zpow_add₀ (by norm_num), zpow_natCast, ← mul_assoc,
    div_mul_cancel₀ _ (by positivity), value]

theorem notMem_pointed (h : 'e' ∉ ds) : 'e' ∉ pointed ds := by
  rcases ds with _ | ⟨c, _ | ⟨c', rest⟩⟩ <;> simp_all [pointed]

theorem magnitudeValue_of_laidOut (h : LaidOut d.digits d.pointPlace text) :
    magnitudeValue text = d.value := by
  have hpoint : '.' ∉ d.digits := notMem_digits (by decide)
  have hletter : 'e' ∉ d.digits := notMem_digits (by decide)
  have hplace : d.pointPlace = d.digits.length + d.exponent := rfl
  cases h with
  | whole hle _ =>
    rw [magnitudeValue_plain (by simp [hletter]), mantissaValue_whole (by simp [hpoint]),
      Nat.ofDigitChars_append, ofDigitChars_digits, Nat.ofDigitChars_replicate_zero, value,
      show d.exponent = (d.pointPlace - d.digits.length).toNat by omega, zpow_natCast]
    push_cast
    ring
  | mixed hpos hlt _ =>
    have htake {c : Char} (hc : c ∉ d.digits) : c ∉ d.digits.take d.pointPlace.toNat :=
      fun hmem => hc (List.mem_of_mem_take hmem)
    have hdrop {c : Char} (hc : c ∉ d.digits) : c ∉ d.digits.drop d.pointPlace.toNat :=
      fun hmem => hc (List.mem_of_mem_drop hmem)
    have hexponent : d.exponent = -((d.digits.drop d.pointPlace.toNat).length : ℕ) := by
      rw [List.length_drop]
      omega
    rw [magnitudeValue_plain (by simp [htake hletter, hdrop hletter]),
      mantissaValue_point (htake hpoint), List.take_append_drop, ofDigitChars_digits,
      value_eq_div hexponent]
  | fraction _ hle =>
    have hexponent : d.exponent
        = -((List.replicate (-d.pointPlace).toNat '0' ++ d.digits).length : ℕ) := by
      rw [List.length_append, List.length_replicate]
      omega
    have hread : Nat.ofDigitChars 10
        (['0'] ++ (List.replicate (-d.pointPlace).toNat '0' ++ d.digits)) 0 = d.coefficient := by
      rw [Nat.ofDigitChars_append, Nat.ofDigitChars_append, Nat.ofDigitChars_replicate_zero]
      exact d.ofDigitChars_digits
    have hzero : '.' ∉ ['0'] := by decide
    have hcut := mantissaValue_point hzero (List.replicate (-d.pointPlace).toNat '0' ++ d.digits)
    rw [hread, ← value_eq_div hexponent] at hcut
    rw [magnitudeValue_plain (by simp [hletter])]
    exact hcut
  | large hlt =>
    have hpower := powerValue_toDigits (d.pointPlace - 1)
    rw [if_neg (by omega)] at hpower
    rw [magnitudeValue_power (notMem_pointed hletter), hpower, mantissaValue_mul_power]
  | small hle =>
    have hpower := powerValue_toDigits (d.pointPlace - 1)
    rw [if_pos (by omega)] at hpower
    rw [magnitudeValue_power (notMem_pointed hletter), hpower, mantissaValue_mul_power]

theorem LaidOut.exists_digit (h : LaidOut d.digits n text) :
    ∃ c rest, text = c :: rest ∧ c.isDigit = true := by
  have hne : d.digits ≠ [] := Nat.toDigits_ne_nil
  obtain ⟨c, rest, hds⟩ := List.exists_cons_of_ne_nil hne
  have hc : c.isDigit = true := isDigit_of_mem_digits (hds ▸ List.mem_cons_self)
  rw [hds] at h
  cases h with
  | whole => exact ⟨c, _, rfl, hc⟩
  | mixed hpos =>
    obtain ⟨m, hm⟩ := Nat.exists_eq_succ_of_ne_zero (by omega : n.toNat ≠ 0)
    rw [hm]
    exact ⟨c, _, rfl, hc⟩
  | fraction => exact ⟨'0', _, rfl, by decide⟩
  | large | small => rcases rest with _ | ⟨c', rest⟩ <;> exact ⟨c, _, rfl, hc⟩

theorem numeralValue_signed (negative : Bool) (h : LaidOut d.digits d.pointPlace text) :
    numeralValue (Binary64.signed negative text).toList
      = if negative then -d.value else d.value := by
  rw [Binary64.signed, String.toList_ofList, ← magnitudeValue_of_laidOut h]
  cases negative
  case true => rfl
  case false =>
    obtain ⟨c, rest, rfl, hc⟩ := h.exists_digit
    simp only [Bool.false_eq_true, ↓reduceIte]
    unfold numeralValue
    split
    case h_1 heq =>
      rw [(List.cons.inj heq).1] at hc
      exact absurd hc (by decide)
    case h_2 => rfl

example : numeralValue "-1.5e-7".toList = -15 / 10 ^ 8 := by decide +kernel

theorem IsShortest.head?_ne {p : ℕ} (h : IsShortest p d) : d.digits.head? ≠ some '0' := fun hhead =>
  h.coefficient_pos.ne' (eq_zero_of_head?_toDigits hhead)

theorem IsShortest.getLast?_ne {p : ℕ} (h : IsShortest p d) : d.digits.getLast? ≠ some '0' := by
  have hlast : d.digits.getLast? = some (d.coefficient % 10).digitChar := by
    rw [digits, Nat.toDigits_eq_if (by decide)]
    split
    case isTrue hlt => rw [Nat.mod_eq_of_lt hlt]; rfl
    case isFalse => simp
  have hall : ∀ m < 10, m.digitChar = '0' → m = 0 := by decide
  rw [hlast]
  exact fun heq => h.stripped (hall _ (Nat.mod_lt _ (by decide)) (Option.some.inj heq))

end Decimal

namespace Binary64

open Decimal

theorem isShortest_positionalFrom : IsShortest positionalFrom ⟨1, -6⟩ := by
  obtain ⟨hpos, hfinite, hshortest⟩ : 0 < positionalFrom ∧ positionalFrom < infinityPattern ∧
      shortest positionalFrom = ⟨1, -6⟩ := by decide +kernel
  exact hshortest ▸ isShortest_shortest hpos hfinite

theorem scientificFrom_lt_infinityPattern : scientificFrom < infinityPattern := by decide +kernel

theorem isShortest_scientificFrom : IsShortest scientificFrom ⟨1, 21⟩ := by
  obtain ⟨hpos, hshortest⟩ : 0 < scientificFrom ∧ shortest scientificFrom = ⟨1, 21⟩ := by
    decide +kernel
  exact hshortest ▸ isShortest_shortest hpos scientificFrom_lt_infinityPattern

theorem positional_iff {p : ℕ} {d : Decimal} (h : IsShortest p d) :
    positionalFrom ≤ p ∧ p < scientificFrom ↔ -6 < d.pointPlace ∧ d.pointPlace ≤ 21 := by
  have hlow := h.patternNearDecimal_le_iff isShortest_positionalFrom
  have hhigh := h.patternNearDecimal_le_iff isShortest_scientificFrom
  exact and_congr hlow (not_le.symm.trans ((not_congr hhigh).trans not_lt))

theorem pattern_pos {x : Binary64} (h0 : x.isZero = false) : 0 < x.pattern :=
  Nat.pos_of_ne_zero (of_decide_eq_false h0)

theorem exists_laidOut {x : Binary64} {d : Decimal} (h0 : x.isZero = false)
    (hfinite : x.pattern < infinityPattern) (hd : IsShortest x.pattern d) :
    ∃ text, LaidOut d.digits d.pointPlace text ∧ x.resultText = signed x.isNegative text := by
  have hshortest := hd.unique (isShortest_shortest (pattern_pos h0) hfinite)
  have hnumber : x.isNaN = false := decide_eq_false (by omega)
  have hbounded : x.isInfinite = false := decide_eq_false hfinite.ne
  unfold resultText
  simp only [hnumber, hbounded, h0, hshortest, positional_iff hd, Bool.false_eq_true, ↓reduceIte]
  split
  case isTrue hplace => exact ⟨_, laidOut_positional hplace.1 hplace.2, rfl⟩
  case isFalse hplace => exact ⟨_, laidOut_scientific (by omega), rfl⟩

theorem eq_of_pattern {x y : Binary64} (hsign : x.isNegative = y.isNegative)
    (hpattern : x.pattern = y.pattern) : x = y := by
  have hsign' : signWeight ≤ x.bits.toNat ↔ signWeight ≤ y.bits.toNat := by
    simpa [isNegative] using hsign
  have hx := x.bits.toNat_lt
  have hy := y.bits.toNat_lt
  have hweight : signWeight = 9223372036854775808 := rfl
  rw [hweight] at hsign'
  simp only [pattern, hweight] at hpattern
  have hbits : x.bits.toNat = y.bits.toNat := by omega
  cases x
  exact congrArg Binary64.mk (UInt64.toNat_inj.1 hbits)

theorem numeralValue_resultText {x : Binary64} {d : Decimal} (h0 : x.isZero = false)
    (hfinite : x.pattern < infinityPattern) (hd : IsShortest x.pattern d) :
    numeralValue x.resultText.toList = if x.isNegative then -d.value else d.value := by
  obtain ⟨text, hlaid, htext⟩ := exists_laidOut h0 hfinite hd
  rw [htext, numeralValue_signed _ hlaid]

theorem sign_inj {a b : ℚ} {s t : Bool} (ha : 0 < a) (hb : 0 < b)
    (h : (if s then -a else a) = if t then -b else b) : s = t ∧ a = b := by
  cases s <;> cases t <;> simp only [Bool.false_eq_true, ↓reduceIte] at h
  case false.false => exact ⟨rfl, h⟩
  case true.true => exact ⟨rfl, neg_injective h⟩
  all_goals linarith

theorem resultText_inj {x y : Binary64} (hx0 : x.isZero = false) (hy0 : y.isZero = false)
    (hx : x.pattern < infinityPattern) (hy : y.pattern < infinityPattern)
    (h : y.resultText = x.resultText) : y = x := by
  obtain ⟨d, hd⟩ := exists_isShortest (pattern_pos hx0) hx
  obtain ⟨d', hd'⟩ := exists_isShortest (pattern_pos hy0) hy
  have hvalue := numeralValue_resultText hy0 hy hd'
  rw [h, numeralValue_resultText hx0 hx hd] at hvalue
  obtain ⟨hsign, hsame⟩ := sign_inj hd.value_pos hd'.value_pos hvalue
  refine eq_of_pattern hsign.symm (Nearest.unique hd'.rounds ?_)
  rw [← hsame]
  exact hd.rounds

/-- A finite number other than zero has one shortest decimal, and its text is that decimal: digits
in one of four forms according to the place of the point, behind a sign if the number is negative.
The text denotes exactly the decimal, so numbers that differ have different texts. -/
theorem resultText_lays_out_the_shortest {x : Binary64} (h0 : x.isZero = false)
    (hfinite : x.pattern < infinityPattern) :
    ∃ d : Decimal, (∀ d', IsShortest x.pattern d' ↔ d' = d) ∧
      d.digits.head? ≠ some '0' ∧ d.digits.getLast? ≠ some '0' ∧
      d.value = Nat.ofDigitChars 10 d.digits 0 / 10 ^ d.digits.length * 10 ^ d.pointPlace ∧
      (∃ text, LaidOut d.digits d.pointPlace text ∧ x.resultText = signed x.isNegative text) ∧
      numeralValue x.resultText.toList = (if x.isNegative then -d.value else d.value) ∧
      ∀ y : Binary64, y.isZero = false → y.pattern < infinityPattern →
        y.resultText = x.resultText → y = x := by
  obtain ⟨d, hd⟩ := exists_isShortest (pattern_pos h0) hfinite
  have honly : ∀ d', IsShortest x.pattern d' ↔ d' = d := fun d' => ⟨hd.unique, fun h => h ▸ hd⟩
  exact ⟨d, honly, hd.head?_ne, hd.getLast?_ne, d.value_eq_place, exists_laidOut h0 hfinite hd,
    numeralValue_resultText h0 hfinite hd, fun y hy0 hy => resultText_inj h0 hy0 hfinite hy⟩

theorem smallNegative_is_told :
    Binary64.resultText ⟨0xbe8421f5f40d8376⟩ = "-1.5e-7" ∧
      (∃ d, IsShortest (pattern ⟨0xbe8421f5f40d8376⟩) d ∧
        numeralValue "-1.5e-7".toList = -d.value) ∧
      ∀ y : Binary64, y.isZero = false → y.pattern < infinityPattern →
        y.resultText = "-1.5e-7" → y = ⟨0xbe8421f5f40d8376⟩ := by
  have htext : Binary64.resultText ⟨0xbe8421f5f40d8376⟩ = "-1.5e-7" := by decide +kernel
  obtain ⟨d, honly, -, -, -, -, hvalue, hinj⟩ :=
    resultText_lays_out_the_shortest (x := ⟨0xbe8421f5f40d8376⟩) (by decide) (by decide +kernel)
  rw [htext] at hvalue hinj
  exact ⟨htext, ⟨d, (honly d).2 rfl, hvalue⟩, hinj⟩

end Binary64

end PrefixLang
