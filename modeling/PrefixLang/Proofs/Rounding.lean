import PrefixLang.Binary64.Rounding
import Mathlib.Algebra.Order.Field.Rat
import Mathlib.Algebra.Order.AbsoluteValue.Basic
import Mathlib.Order.Monotone.Basic
import Mathlib.Tactic.Linarith
import Mathlib.Tactic.LinearCombination
import Mathlib.Tactic.Ring
/-!
What rounding finds. `Nearest` says which pattern a magnitude is rounded to, and `patternNear` finds
it for every quotient: `nearest_patternNear`. Between neighbouring patterns the point half way
decides, so a pattern is checked against its two neighbours only, and rounding preserves the order:
`Nearest.mono`.
-/

namespace PrefixLang.Binary64

variable {p p' : ℕ} {q q' : ℚ}

theorem fractionWeight_eq : fractionWeight = 4503599627370496 := rfl

def gap (p : ℕ) : ℕ := 2 ^ (p / fractionWeight - 1)

theorem gap_pos (p : ℕ) : 0 < gap p := Nat.two_pow_pos _

theorem unitsOf_scaled {t r : ℕ} (hr : r ≤ 2 * fractionWeight) (ht : t = 0 ∨ fractionWeight ≤ r) :
    unitsOf (t * fractionWeight + r) = r * 2 ^ t := by
  have hweight : 0 < fractionWeight := by decide
  rw [unitsOf, Nat.pow_eq, Nat.mul_add_mod', Nat.mul_comm t, Nat.mul_add_div hweight]
  rcases Nat.lt_or_ge r fractionWeight with hlow | hlow
  · obtain rfl : t = 0 := by omega
    rw [Nat.div_eq_of_lt hlow, Nat.mod_eq_of_lt hlow]
    simp
  rw [if_neg (by have := Nat.div_pos hlow hweight; omega)]
  rcases hr.lt_or_eq with hhigh | rfl
  · have hexponent : r / fractionWeight = 1 := Nat.div_eq_of_lt_le (by omega) (by omega)
    rw [hexponent, Nat.mod_eq_sub_mod hlow, Nat.mod_eq_of_lt (by omega), Nat.add_sub_cancel,
      Nat.add_sub_cancel' hlow]
  · -- A carry out of the fraction: half the weight, one exponent higher.
    rw [Nat.mul_div_cancel _ hweight, Nat.mul_mod_left]
    rw [Nat.add_sub_assoc (by decide)]
    ring

theorem exists_scaled (p : ℕ) :
    ∃ t r, p = t * fractionWeight + r ∧ r < 2 * fractionWeight ∧ (t = 0 ∨ fractionWeight ≤ r) ∧
      gap p = 2 ^ t := by
  refine ⟨p / fractionWeight - 1, p - (p / fractionWeight - 1) * fractionWeight, ?_, ?_, ?_, rfl⟩
  all_goals
    rw [fractionWeight_eq]
    omega

theorem le_gap {t r : ℕ} (ht : t = 0 ∨ fractionWeight ≤ r) :
    2 ^ t ≤ gap (t * fractionWeight + r) := by
  refine Nat.pow_le_pow_right (by decide) ?_
  rw [fractionWeight_eq] at ht ⊢
  omega

theorem unitsOf_succ (p : ℕ) : unitsOf (p + 1) = unitsOf p + gap p := by
  obtain ⟨t, r, rfl, hr, ht, hgap⟩ := exists_scaled p
  rw [hgap, unitsOf_scaled hr.le ht, Nat.add_assoc, unitsOf_scaled (by omega) (by omega)]
  ring

theorem unitsOf_strictMono : StrictMono unitsOf :=
  strictMono_nat_of_lt_succ fun p => by
    rw [unitsOf_succ]
    exact Nat.lt_add_of_pos_right (gap_pos p)

theorem unitsOf_succ_le (p : ℕ) : unitsOf (p + 1) ≤ 2 * fractionWeight * gap p := by
  obtain ⟨t, r, rfl, hr, ht, hgap⟩ := exists_scaled p
  rw [hgap, Nat.add_assoc, unitsOf_scaled (by omega) (by omega)]
  exact Nat.mul_le_mul_right _ hr

/-- The pattern that a magnitude of `q` units is rounded to: no other is nearer, and if another is
as near, this one is even. Infinity counts as the number that would come next. -/
structure Nearest (q : ℚ) (p : ℕ) : Prop where
  le_infinity : p ≤ infinityPattern
  nearest : ∀ p' ≤ infinityPattern, |q - unitsOf p| ≤ |q - unitsOf p'|
  even_of_tie : ∀ p' ≤ infinityPattern, p' ≠ p → |q - unitsOf p| = |q - unitsOf p'| → p % 2 = 0

theorem abs_sub_le_iff_le_midpoint {a b : ℚ} (h : a < b) : |q - a| ≤ |q - b| ↔ 2 * q ≤ a + b := by
  have hsquares : (q - b) ^ 2 - (q - a) ^ 2 = (b - a) * (a + b - 2 * q) := by ring
  rw [← sq_le_sq, ← sub_nonneg, hsquares, mul_nonneg_iff_of_pos_left (sub_pos.2 h), sub_nonneg]

theorem abs_sub_le_iff_midpoint_le {a b : ℚ} (h : a < b) : |q - b| ≤ |q - a| ↔ a + b ≤ 2 * q := by
  have hsquares : (q - a) ^ 2 - (q - b) ^ 2 = (b - a) * (2 * q - (a + b)) := by ring
  rw [← sq_le_sq, ← sub_nonneg, hsquares, mul_nonneg_iff_of_pos_left (sub_pos.2 h), sub_nonneg]

theorem eq_midpoint_of_tie {a b : ℚ} (h : a < b) (htie : |q - a| = |q - b|) : 2 * q = a + b :=
  le_antisymm ((abs_sub_le_iff_le_midpoint h).1 htie.le) ((abs_sub_le_iff_midpoint_le h).1 htie.ge)

theorem unitsOf_cast_lt (h : p < p') : (unitsOf p : ℚ) < unitsOf p' :=
  Nat.cast_lt.2 (unitsOf_strictMono h)

theorem unitsOf_cast_succ (p : ℕ) : (unitsOf (p + 1) : ℚ) = unitsOf p + gap p := by
  rw [unitsOf_succ, Nat.cast_add]

theorem unitsOf_cast_le (h : p ≤ p') : (unitsOf p : ℚ) ≤ unitsOf p' :=
  Nat.cast_le.2 (unitsOf_strictMono.monotone h)

/-- Not beyond half of the way to the next larger number, and half way only if even. -/
def BelowNext (q : ℚ) (p : ℕ) : Prop :=
  2 * q ≤ unitsOf p + unitsOf (p + 1) ∧ (2 * q = unitsOf p + unitsOf (p + 1) → p % 2 = 0)

/-- The same on the side of the next smaller number, if there is one. -/
def AbovePrevious (q : ℚ) (p : ℕ) : Prop :=
  ∀ b, p = b + 1 → unitsOf b + unitsOf p ≤ 2 * q ∧ (unitsOf b + unitsOf p = 2 * q → p % 2 = 0)

theorem nearest_of_neighbours (hp : p ≤ infinityPattern)
    (hnext : p < infinityPattern → BelowNext q p) (hprevious : AbovePrevious q p) :
    Nearest q p := by
  have hlarger : ∀ p' ≤ infinityPattern, p < p' → 2 * q ≤ unitsOf p + unitsOf p' ∧
      (2 * q = unitsOf p + unitsOf p' → p % 2 = 0) := fun p' hp' hlt => by
    obtain ⟨hle, heven⟩ := hnext (hlt.trans_le hp')
    have hstep := unitsOf_cast_le (Nat.succ_le_of_lt hlt)
    exact ⟨by linarith, fun heq => heven (by linarith)⟩
  have hsmaller : ∀ p' < p, unitsOf p' + unitsOf p ≤ 2 * q ∧
      (unitsOf p' + unitsOf p = 2 * q → p % 2 = 0) := fun p' hlt => by
    obtain ⟨b, rfl⟩ := Nat.exists_eq_add_of_lt hlt
    obtain ⟨hle, heven⟩ := hprevious (p' + b) rfl
    have hstep := unitsOf_cast_le (Nat.le_add_right p' b)
    exact ⟨by linarith, fun heq => heven (by linarith)⟩
  refine ⟨hp, fun p' hp' => ?_, fun p' hp' hne htie => ?_⟩
  · rcases Nat.lt_trichotomy p p' with hlt | rfl | hlt
    · exact (abs_sub_le_iff_le_midpoint (unitsOf_cast_lt hlt)).2 (hlarger p' hp' hlt).1
    · exact le_rfl
    · exact (abs_sub_le_iff_midpoint_le (unitsOf_cast_lt hlt)).2 (hsmaller p' hlt).1
  · rcases Nat.lt_or_gt_of_ne hne with hlt | hlt
    · exact (hsmaller p' hlt).2 (eq_midpoint_of_tie (unitsOf_cast_lt hlt) htie.symm).symm
    · exact (hlarger p' hp' hlt).2 (eq_midpoint_of_tie (unitsOf_cast_lt hlt) htie)

theorem nearest_unitsOf (hp : p ≤ infinityPattern) : Nearest (unitsOf p) p := by
  refine nearest_of_neighbours hp (fun _ => ?_) fun b hb => ?_
  · have hlt := unitsOf_cast_lt (Nat.lt_succ_self p)
    exact ⟨by linarith, fun heq => absurd heq (by linarith)⟩
  · have hlt := unitsOf_cast_lt (hb ▸ Nat.lt_succ_self b : b < p)
    exact ⟨by linarith, fun heq => absurd heq (by linarith)⟩

/-- Numbers have 53 bits, so what differs from one by less than that is rounded to it. -/
theorem nearest_of_close (hp : p < infinityPattern)
    (h : 4 * fractionWeight * |q - unitsOf p| < unitsOf p) : Nearest q p := by
  have hsub := le_abs_self (q - unitsOf p)
  have hneg := neg_abs_le (q - unitsOf p)
  generalize |q - unitsOf p| = distance at h hsub hneg
  -- Each gap is at least twice the distance.
  have hclose : ∀ b : ℕ, (unitsOf p : ℚ) ≤ unitsOf (b + 1) → 2 * distance < gap b := fun b hb => by
    have hgap : (unitsOf (b + 1) : ℚ) ≤ 2 * fractionWeight * gap b := mod_cast unitsOf_succ_le b
    have hweight : (0 : ℚ) < 2 * fractionWeight := by norm_num [fractionWeight_eq]
    refine lt_of_mul_lt_mul_left ?_ hweight.le
    linarith
  refine nearest_of_neighbours hp.le (fun _ => ?_) ?_
  · have hgap := hclose p (unitsOf_cast_le (Nat.le_succ p))
    rw [BelowNext, unitsOf_cast_succ]
    exact ⟨by linarith, fun htie => absurd htie (by linarith)⟩
  · rintro b rfl
    have hgap := hclose b le_rfl
    have hstep := unitsOf_cast_succ b
    exact ⟨by linarith, fun htie => absurd htie (by linarith)⟩

theorem Nearest.mono (h : Nearest q p) (h' : Nearest q' p') (hq : q ≤ q') : p ≤ p' := by
  by_contra hlt
  rw [not_le] at hlt
  -- The point half way is between the two, so all three are one, and it is a tie.
  have hmid := (abs_sub_le_iff_midpoint_le (unitsOf_cast_lt hlt)).1
    (h.nearest p' h'.le_infinity)
  have hmid' := (abs_sub_le_iff_le_midpoint (unitsOf_cast_lt hlt)).1
    (h'.nearest p h.le_infinity)
  obtain rfl : q = q' := by linarith
  have htie := le_antisymm (h.nearest p' h'.le_infinity) (h'.nearest p h.le_infinity)
  have heven := h.even_of_tie p' h'.le_infinity hlt.ne htie
  have heven' := h'.even_of_tie p h.le_infinity hlt.ne' htie.symm
  -- Both are even, so there is a number between them, and it is nearer.
  have hbetween := (abs_sub_le_iff_midpoint_le (unitsOf_cast_lt (by omega : p' + 1 < p))).1
    (h.nearest (p' + 1) (by have := h.le_infinity; omega))
  have hstep := unitsOf_cast_lt (Nat.lt_succ_self p')
  linarith

theorem Nearest.unique (h : Nearest q p) (h' : Nearest q p') : p = p' :=
  Nat.le_antisymm (h.mono h' le_rfl) (h'.mono h le_rfl)

theorem Nearest.between {low high : ℚ} (hl : Nearest low p) (hh : Nearest high p) (hlow : low ≤ q)
    (hhigh : q ≤ high) : Nearest q p := by
  have hlarger : ∀ p' ≤ infinityPattern, p < p' → 2 * high ≤ unitsOf p + unitsOf p' :=
    fun p' hp' hlt => (abs_sub_le_iff_le_midpoint (unitsOf_cast_lt hlt)).1 (hh.nearest p' hp')
  have hsmaller : ∀ p' ≤ infinityPattern, p' < p → unitsOf p' + unitsOf p ≤ 2 * low :=
    fun p' hp' hlt => (abs_sub_le_iff_midpoint_le (unitsOf_cast_lt hlt)).1 (hl.nearest p' hp')
  refine ⟨hl.le_infinity, fun p' hp' => ?_, fun p' hp' hne htie => ?_⟩
  · rcases Nat.lt_trichotomy p p' with hlt | rfl | hlt
    · have hmid := hlarger p' hp' hlt
      exact (abs_sub_le_iff_le_midpoint (unitsOf_cast_lt hlt)).2 (by linarith)
    · exact le_rfl
    · have hmid := hsmaller p' hp' hlt
      exact (abs_sub_le_iff_midpoint_le (unitsOf_cast_lt hlt)).2 (by linarith)
  · rcases Nat.lt_or_gt_of_ne hne with hlt | hlt
    · have hmid := eq_midpoint_of_tie (unitsOf_cast_lt hlt) htie.symm
      obtain rfl : q = low := by linarith [hsmaller p' hp' hlt]
      exact hl.even_of_tie p' hp' hne htie
    · have hmid := eq_midpoint_of_tie (unitsOf_cast_lt hlt) htie
      obtain rfl : q = high := by linarith [hlarger p' hp' hlt]
      exact hh.even_of_tie p' hp' hne htie

variable {num den : ℕ}

/-- A rounded quotient is at most one half away, and even at a half. -/
structure HalfAway (num den r : ℕ) : Prop where
  above : 2 * num ≤ (2 * r + 1) * den
  below : 2 * r * den ≤ 2 * num + den
  even_of_half : 2 * num = (2 * r + 1) * den ∨ 2 * r * den = 2 * num + den → r % 2 = 0

theorem halfAway_roundHalfEven (num : ℕ) (hden : 0 < den) :
    HalfAway num den (roundHalfEven num den) := by
  have hsplit := Nat.div_add_mod num den
  have hrem := Nat.mod_lt num hden
  have hdown : (2 * (num / den) + 1) * den = 2 * (den * (num / den)) + den := by ring
  have hdown' : 2 * (num / den) * den = 2 * (den * (num / den)) := by ring
  have hup : (2 * (num / den + 1) + 1) * den = 2 * (den * (num / den)) + 3 * den := by ring
  have hup' : 2 * (num / den + 1) * den = 2 * (den * (num / den)) + 2 * den := by ring
  have hcases : roundHalfEven num den = num / den ∧ 2 * (num % den) ≤ den ∨
      roundHalfEven num den = num / den + 1 ∧ den ≤ 2 * (num % den) := by
    unfold roundHalfEven
    grind
  have heven : 2 * (num % den) = den → roundHalfEven num den % 2 = 0 := by
    unfold roundHalfEven
    grind
  rcases hcases with ⟨hr, hhalf⟩ | ⟨hr, hhalf⟩
  · refine ⟨?_, ?_, fun htie => heven ?_⟩ <;> rw [hr] at * <;> omega
  · refine ⟨?_, ?_, fun htie => heven ?_⟩ <;> rw [hr] at * <;> omega

theorem roundHalfEven_bounds (num den : ℕ) :
    num / den ≤ roundHalfEven num den ∧ roundHalfEven num den ≤ num / den + 1 := by
  unfold roundHalfEven
  grind

theorem dropped_bounds (n : ℕ) :
    n / 2 ^ (Nat.log2 n - 52) < 2 * fractionWeight ∧
      (Nat.log2 n - 52 = 0 ∨ fractionWeight ≤ n / 2 ^ (Nat.log2 n - 52)) := by
  have hweight : fractionWeight = 2 ^ 52 := rfl
  constructor
  · rw [Nat.div_lt_iff_lt_mul (Nat.two_pow_pos _), hweight, ← pow_succ', ← pow_add]
    exact Nat.lt_log2_self.trans_le (Nat.pow_le_pow_right (by decide) (by omega))
  · refine (Nat.eq_zero_or_pos _).imp_right fun ht => ?_
    rw [Nat.le_div_iff_mul_le (Nat.two_pow_pos _), hweight, ← pow_add,
      show 52 + (Nat.log2 n - 52) = Nat.log2 n by omega]
    exact Nat.log2_self_le (by rintro rfl; simp at ht)

theorem HalfAway.scaled {t r : ℕ} (h : HalfAway num (den * 2 ^ t) r) (hden : 0 < den) :
    2 * (num / den : ℚ) ≤ 2 * (r * 2 ^ t) + 2 ^ t ∧
      2 * (r * 2 ^ t) ≤ 2 * (num / den : ℚ) + 2 ^ t ∧
      (2 * (num / den : ℚ) = 2 * (r * 2 ^ t) + 2 ^ t ∨
        2 * (r * 2 ^ t) = 2 * (num / den : ℚ) + 2 ^ t → r % 2 = 0) := by
  have hpos : (0 : ℚ) < den := Nat.cast_pos.2 hden
  obtain ⟨q, hq⟩ : ∃ q : ℚ, q = num / den := ⟨_, rfl⟩
  have hnum : (num : ℚ) = q * den := by rw [hq, div_mul_cancel₀ _ hpos.ne']
  have habove : (2 * num : ℚ) ≤ (2 * r + 1) * (den * 2 ^ t) := mod_cast h.above
  have hbelow : (2 * r * (den * 2 ^ t) : ℚ) ≤ 2 * num + den * 2 ^ t := mod_cast h.below
  rw [← hq]
  refine ⟨?_, ?_, fun htie => h.even_of_half ?_⟩
  · refine le_of_mul_le_mul_right ?_ hpos
    linear_combination habove - 2 * hnum
  · refine le_of_mul_le_mul_right ?_ hpos
    linear_combination hbelow + 2 * hnum
  · refine htie.imp (fun heq => ?_) fun heq => ?_
    · have hcast : (2 * num : ℚ) = (2 * r + 1) * (den * 2 ^ t) := by
        linear_combination 2 * hnum + den * heq
      exact mod_cast hcast
    · have hcast : (2 * r * (den * 2 ^ t) : ℚ) = 2 * num + den * 2 ^ t := by
        linear_combination den * heq - 2 * hnum
      exact mod_cast hcast

theorem HalfAway.belowNext {t r : ℕ} (h : HalfAway num (den * 2 ^ t) r) (hden : 0 < den)
    (hr : r ≤ 2 * fractionWeight) (ht : t = 0 ∨ fractionWeight ≤ r) :
    BelowNext (num / den) (t * fractionWeight + r) := by
  obtain ⟨habove, -, heven⟩ := h.scaled hden
  have hgap : (2 ^ t : ℚ) ≤ gap (t * fractionWeight + r) := mod_cast le_gap ht
  rw [BelowNext, unitsOf_cast_succ, unitsOf_scaled hr ht]
  push_cast
  refine ⟨by linarith, fun htie => ?_⟩
  have hparity := heven (.inl (by linarith))
  rw [fractionWeight_eq]
  omega

theorem HalfAway.abovePrevious {t r : ℕ} (h : HalfAway num (den * 2 ^ t) r) (hden : 0 < den)
    (hr : r ≤ 2 * fractionWeight) (ht : t = 0 ∨ fractionWeight ≤ r)
    (hfloor : t = 0 ∨ (fractionWeight * 2 ^ t : ℚ) ≤ num / den) :
    AbovePrevious (num / den) (t * fractionWeight + r) := by
  obtain ⟨-, hbelow, heven⟩ := h.scaled hden
  intro b hb
  have hunits : (unitsOf (t * fractionWeight + r) : ℚ) = r * 2 ^ t := by
    rw [unitsOf_scaled hr ht]
    push_cast
    rfl
  by_cases hlowest : t ≠ 0 ∧ r = fractionWeight
  · -- The gap below is only half as large, but the quotient is not below.
    obtain ⟨hne, rfl⟩ := hlowest
    have hle := hfloor.resolve_left hne
    have hlt : (unitsOf b : ℚ) < unitsOf (t * fractionWeight + fractionWeight) :=
      unitsOf_cast_lt (by omega)
    rw [hunits] at hlt ⊢
    exact ⟨by linarith, fun htie => absurd htie (by linarith)⟩
  · have hpos : 0 < r := by
      rcases ht with rfl | ht
      · omega
      · exact ht.trans_lt' (by decide)
    obtain ⟨s, rfl⟩ := Nat.exists_eq_succ_of_ne_zero hpos.ne'
    obtain rfl : b = t * fractionWeight + s := by omega
    have hgap : (2 ^ t : ℚ) ≤ gap (t * fractionWeight + s) := mod_cast le_gap (by omega)
    have hstep := unitsOf_cast_succ (t * fractionWeight + s)
    rw [Nat.add_assoc] at hstep
    refine ⟨by linarith, fun htie => ?_⟩
    have hparity := heven (.inr (by linarith))
    rw [fractionWeight_eq]
    omega

theorem nearest_patternNear (num : ℕ) (hden : 0 < den) :
    Nearest (num / den) (patternNear num den) := by
  obtain ⟨hfew, hmany⟩ := dropped_bounds (num / den)
  rw [Nat.div_div_eq_div_mul] at hfew hmany
  unfold patternNear
  simp only [Nat.pow_eq]
  generalize Nat.log2 (num / den) - 52 = t at hfew hmany ⊢
  have hstep : 0 < den * 2 ^ t := Nat.mul_pos hden (Nat.two_pow_pos t)
  have hhalf := halfAway_roundHalfEven num hstep
  have hfloor : t = 0 ∨ (fractionWeight * 2 ^ t : ℚ) ≤ num / den := hmany.imp_right fun hle => by
    rw [Nat.le_div_iff_mul_le hstep, ← mul_assoc, mul_right_comm] at hle
    rw [le_div_iff₀ (Nat.cast_pos.2 hden)]
    exact mod_cast hle
  obtain ⟨hge, hle⟩ := roundHalfEven_bounds num (den * 2 ^ t)
  generalize roundHalfEven num (den * 2 ^ t) = r at hhalf hge hle ⊢
  have hr : r ≤ 2 * fractionWeight := by omega
  have ht : t = 0 ∨ fractionWeight ≤ r := hmany.imp_right hge.trans'
  have hprevious := hhalf.abovePrevious hden hr ht hfloor
  rcases Nat.lt_or_ge infinityPattern (t * fractionWeight + r) with hlarge | hsmall
  · -- Beyond infinity, which is the last pattern.
    rw [Nat.min_eq_right hlarge.le]
    obtain ⟨b, hb⟩ := Nat.exists_eq_add_of_lt hlarge
    have hmid := (hprevious (infinityPattern + b) hb).1
    refine nearest_of_neighbours le_rfl (fun h => absurd h (Nat.lt_irrefl _)) fun c hc => ?_
    have hinfinity := unitsOf_cast_le (Nat.le_add_right infinityPattern b)
    have hlast := unitsOf_cast_lt hlarge
    have hstep : (unitsOf c : ℚ) < unitsOf infinityPattern := unitsOf_cast_lt (by omega)
    exact ⟨by linarith, fun htie => absurd htie (by linarith)⟩
  · rw [Nat.min_eq_left hsmall]
    exact nearest_of_neighbours hsmall (fun _ => hhalf.belowNext hden hr ht) hprevious

theorem nearest_patternNearDecimal (coefficient : ℕ) (exponent : ℤ) :
    Nearest (coefficient * 10 ^ exponent * unitsPerOne)
      (patternNearDecimal coefficient exponent) := by
  have hsplit : (10 : ℚ) ^ exponent = 10 ^ exponent.toNat / 10 ^ (-exponent).toNat := by
    rw [← zpow_natCast, ← zpow_natCast, ← zpow_sub₀ (by norm_num), Int.toNat_sub_toNat_neg]
  have hnear := nearest_patternNear (coefficient * 10 ^ exponent.toNat * unitsPerOne)
    (Nat.pow_pos (n := (-exponent).toNat) (by decide : 0 < 10))
  push_cast at hnear
  rw [hsplit, patternNearDecimal, mul_div_assoc', div_mul_eq_mul_div]
  exact hnear

theorem exists_unitsOf_eq {n : ℕ} (hn : n ≤ 2 * fractionWeight) (t : ℕ) :
    ∃ p, unitsOf p = n * 2 ^ t := by
  -- A bit is moved from the power to the number as long as there is room for it.
  induction t generalizing n with
  | zero => exact ⟨0 * fractionWeight + n, unitsOf_scaled hn (.inl rfl)⟩
  | succ t ih =>
    rcases Nat.lt_or_ge n fractionWeight with hlow | hhigh
    · obtain ⟨p, hp⟩ := ih (n := 2 * n) (by omega)
      exact ⟨p, by rw [hp]; ring⟩
    · exact ⟨_, unitsOf_scaled hn (.inr hhigh)⟩

theorem exists_unitsPerOne_eq : ∃ t, t = 1074 ∧ unitsPerOne = 2 ^ t :=
  ⟨1074, rfl, by decide +kernel⟩

theorem exists_unitsOf_whole {n : ℕ} (hn : n ≤ 2 * fractionWeight) :
    ∃ p, unitsOf p = n * unitsPerOne := by
  obtain ⟨t, -, ht⟩ := exists_unitsPerOne_eq
  rw [ht]
  exact exists_unitsOf_eq hn t

def wholeFrom : ℕ := 1076 * fractionWeight

theorem wholeFrom_le_infinityPattern : wholeFrom ≤ infinityPattern :=
  Nat.mul_le_mul_right _ (by decide)

theorem unitsOf_wholeFrom : unitsOf wholeFrom = 2 * fractionWeight * unitsPerOne := by
  decide +kernel

theorem exists_whole (hp : wholeFrom ≤ p) : ∃ v, unitsOf p = v * unitsPerOne := by
  obtain ⟨s, hs, hunits⟩ := exists_unitsPerOne_eq
  obtain ⟨t, r, rfl, hr, ht, -⟩ := exists_scaled p
  have hle : s ≤ t := by
    rw [wholeFrom, fractionWeight_eq] at hp
    rw [fractionWeight_eq] at hr
    omega
  refine ⟨r * 2 ^ (t - s), ?_⟩
  rw [unitsOf_scaled hr.le ht, hunits, mul_assoc, ← pow_add, Nat.sub_add_cancel hle]

end PrefixLang.Binary64
