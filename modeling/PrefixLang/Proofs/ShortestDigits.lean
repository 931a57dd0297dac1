import PrefixLang.Decimal.Shortest
import PrefixLang.Proofs.Rounding
import Mathlib.Algebra.Order.Field.Power
import Mathlib.Tactic.Positivity
/-!
The shortest decimal of a number. `IsShortest` says which decimal a number is written with, among
all decimals that are rounded to it, and `isShortest_shortest` that this decimal is found: of those
with a given number of digits only the two next to the number have to be tried, and seventeen digits
are always enough.
-/

namespace PrefixLang

open Binary64 (Nearest unitsOf unitsPerOne infinityPattern fractionWeight)

/-- The number that a finite pattern stands for, without its sign. -/
def Binary64.magnitude (p : ℕ) : ℚ := unitsOf p / unitsPerOne

theorem Binary64.unitsPerOne_pos : (0 : ℚ) < unitsPerOne := Nat.cast_pos.2 (by decide +kernel)

theorem Binary64.magnitude_mul_unitsPerOne (p : ℕ) : magnitude p * unitsPerOne = unitsOf p :=
  div_mul_cancel₀ _ unitsPerOne_pos.ne'

theorem Binary64.magnitude_of_unitsOf {p v : ℕ} (h : unitsOf p = v * unitsPerOne) :
    magnitude p = v := by
  rw [magnitude, h, Nat.cast_mul, mul_div_cancel_right₀ _ unitsPerOne_pos.ne']

open Binary64 (magnitude)

namespace Decimal

def value (d : Decimal) : ℚ := d.coefficient * 10 ^ d.exponent

/-- A number that reads as a pattern. -/
def Rounds (v : ℚ) (p : ℕ) : Prop := Nearest (v * unitsPerOne) p

/-- The decimal for a pattern, of all that read back: no zero stands at the end, no other has fewer
digits, none with as many digits is nearer, and none that is as near is larger. -/
structure IsShortest (p : ℕ) (d : Decimal) : Prop where
  stripped : d.coefficient % 10 ≠ 0
  rounds : Rounds d.value p
  fewest : ∀ d' : Decimal, Rounds d'.value p → d.digits.length ≤ d'.digits.length
  nearest : ∀ d' : Decimal, Rounds d'.value p → d'.digits.length = d.digits.length →
    |magnitude p - d.value| ≤ |magnitude p - d'.value|
  largest_of_tie : ∀ d' : Decimal, Rounds d'.value p → d'.digits.length = d.digits.length →
    |magnitude p - d.value| = |magnitude p - d'.value| → d'.value ≤ d.value

variable {p k n : ℕ} {e : ℤ} {v w : ℚ} {d : Decimal}

theorem lt_pow_length (n : ℕ) : n < 10 ^ (Nat.toDigits 10 n).length :=
  (Nat.length_toDigits_le_iff (by decide) Nat.length_toDigits_pos).1 le_rfl

theorem pow_length_le (hn : 0 < n) : 10 ^ ((Nat.toDigits 10 n).length - 1) ≤ n := by
  by_contra hlt
  rw [not_le] at hlt
  rcases Nat.eq_zero_or_pos ((Nat.toDigits 10 n).length - 1) with hzero | hpos
  · rw [hzero] at hlt
    omega
  · have hlen := (Nat.length_toDigits_le_iff (by decide) hpos).2 hlt
    omega

theorem value_lt_pow (d : Decimal) : d.value < 10 ^ d.pointPlace := by
  rw [pointPlace, zpow_add₀ (by norm_num), zpow_natCast, value]
  refine mul_lt_mul_of_pos_right ?_ (by positivity)
  exact mod_cast lt_pow_length d.coefficient

theorem pow_le_value (hd : 0 < d.coefficient) : 10 ^ (d.pointPlace - 1) ≤ d.value := by
  have hlen : 0 < d.digits.length := Nat.length_toDigits_pos
  have hplace : d.pointPlace - 1 = ((d.digits.length - 1 : ℕ) : ℤ) + d.exponent := by
    rw [pointPlace, Nat.cast_sub hlen]
    ring
  rw [hplace, zpow_add₀ (by norm_num), zpow_natCast, value]
  refine mul_le_mul_of_nonneg_right ?_ (by positivity)
  exact mod_cast pow_length_le hd

theorem strip_value (c : ℕ) (e : ℤ) : (strip c e).value = c * 10 ^ e := by
  fun_induction strip c e with
  | case1 => simp [value]
  | case2 c e hc hmod ih =>
    have hsplit : ((c / 10 : ℕ) : ℚ) * 10 = c :=
      mod_cast Nat.div_mul_cancel (Nat.dvd_of_mod_eq_zero hmod)
    rw [ih, zpow_add₀ (by norm_num), ← hsplit]
    ring
  | case3 => rfl

theorem strip_mod (hc : n ≠ 0) (e : ℤ) : (strip n e).coefficient % 10 ≠ 0 := by
  fun_induction strip n e with
  | case1 => contradiction
  | case2 c e hc hmod ih => exact ih (by omega)
  | case3 c e hc hmod => exact hmod

theorem strip_le (c : ℕ) (e : ℤ) : (strip c e).coefficient ≤ c := by
  fun_induction strip c e with
  | case2 c e hc hmod ih => exact ih.trans (Nat.div_le_self c 10)
  | _ => exact le_rfl

theorem strip_length_le (hk : 0 < k) (hn : n ≤ 10 ^ k) (e : ℤ) :
    (strip n e).digits.length ≤ k := by
  refine (Nat.length_toDigits_le_iff (by decide) hk).2 ?_
  rcases hn.lt_or_eq with hlt | rfl
  · exact (strip_le n e).trans_lt hlt
  · have hne : 10 ^ k ≠ 0 := by positivity
    rw [strip, if_neg hne, if_pos (Nat.mod_eq_zero_of_dvd (dvd_pow_self 10 hk.ne'))]
    exact (strip_le _ _).trans_lt (Nat.div_lt_self (Nat.pos_of_ne_zero hne) (by decide))

theorem leadingZeros_bounds {num den : ℕ} (hnum : 0 < num) (hlt : num < den) :
    num * 10 ^ leadingZeros num den < den ∧ den ≤ num * 10 ^ (leadingZeros num den + 1) := by
  fun_induction leadingZeros num den with
  | case1 num h =>
    have hle := h.resolve_left hnum.ne'
    simpa using ⟨hlt, hle⟩
  | case2 num h ih =>
    rw [not_or, not_le] at h
    obtain ⟨hbelow, habove⟩ := ih (by omega) h.2
    rw [mul_assoc, ← pow_succ'] at hbelow habove
    exact ⟨hbelow, habove⟩

theorem placeOf_bounds {num den : ℕ} (hnum : 0 < num) (hden : 0 < den) :
    (10 : ℚ) ^ (placeOf num den - 1) ≤ num / den ∧ (num / den : ℚ) < 10 ^ placeOf num den := by
  have hpos : (0 : ℚ) < den := Nat.cast_pos.2 hden
  rw [le_div_iff₀ hpos, div_lt_iff₀ hpos]
  unfold placeOf
  split
  case isTrue hle =>
    have hquot : 0 < num / den := Nat.div_pos hle hden
    have hlen : 0 < (Nat.toDigits 10 (num / den)).length := Nat.length_toDigits_pos
    have hbelow := pow_length_le hquot
    have habove := lt_pow_length (num / den)
    rw [Nat.le_div_iff_mul_le hden] at hbelow
    rw [Nat.div_lt_iff_lt_mul hden] at habove
    rw [← Nat.cast_pred hlen, zpow_natCast, zpow_natCast]
    exact ⟨mod_cast hbelow, mod_cast habove⟩
  case isFalse hlt =>
    obtain ⟨hbelow, habove⟩ := leadingZeros_bounds hnum (not_le.1 hlt)
    generalize leadingZeros num den = z at hbelow habove ⊢
    have hplace : -(z : ℤ) - 1 = -((z + 1 : ℕ) : ℤ) := by
      push_cast
      ring
    rw [hplace, zpow_neg, zpow_neg, zpow_natCast, zpow_natCast,
      inv_mul_le_iff₀ (by positivity), lt_inv_mul_iff₀ (by positivity), mul_comm _ (num : ℚ),
      mul_comm _ (num : ℚ)]
    exact ⟨mod_cast habove, mod_cast hbelow⟩

theorem rounds_of_readsBack {c : ℕ} (h : ReadsBack p c e) : Rounds (c * 10 ^ e) p := by
  rw [← show _ = p from h]
  exact Binary64.nearest_patternNearDecimal c e

theorem Rounds.readsBack {c : ℕ} (h : Rounds (c * 10 ^ e) p) : ReadsBack p c e :=
  (Binary64.nearest_patternNearDecimal c e).unique h

theorem Rounds.between {low high : ℚ} (hl : Rounds low p) (hh : Rounds high p) (hlow : low ≤ v)
    (hhigh : v ≤ high) : Rounds v p := by
  have hunits := Binary64.unitsPerOne_pos.le
  exact Nearest.between hl hh (mul_le_mul_of_nonneg_right hlow hunits)
    (mul_le_mul_of_nonneg_right hhigh hunits)

theorem Rounds.mono {p' : ℕ} (hv : Rounds v p) (hw : Rounds w p') (h : v ≤ w) : p ≤ p' :=
  Nearest.mono hv hw (mul_le_mul_of_nonneg_right h Binary64.unitsPerOne_pos.le)

theorem rounds_patternNearDecimal (e : ℤ) :
    Rounds (10 ^ e) (Binary64.patternNearDecimal 1 e) := by
  have hone := Binary64.nearest_patternNearDecimal 1 e
  rwa [Nat.cast_one, one_mul] at hone

theorem rounds_magnitude (hp : p ≤ infinityPattern) : Rounds (magnitude p) p := by
  rw [Rounds, Binary64.magnitude_mul_unitsPerOne]
  exact Binary64.nearest_unitsOf hp

theorem rounds_zero : Rounds (0 : ℕ) 0 := by
  rw [Rounds, Nat.cast_zero, zero_mul]
  exact Binary64.nearest_unitsOf (Nat.zero_le _)

/-- A number that is not strictly between the two multiples of `g` next to `v`. -/
def BesideCell (v g w : ℚ) : Prop :=
  ∀ n : ℕ, n * g ≤ v → v < (n + 1) * g → w ≤ n * g ∨ (n + 1) * g ≤ w

theorem besideCell_multiple {g : ℚ} (hg : 0 < g) (m : ℕ) : BesideCell v g (m * g) := by
  intro n hle hlt
  rcases Nat.lt_or_ge n m with hm | hm
  · exact .inr (mul_le_mul_of_nonneg_right (mod_cast hm) hg.le)
  · exact .inl (mul_le_mul_of_nonneg_right (mod_cast hm) hg.le)

theorem besideCell_value {place : ℤ} (hk : 0 < k) (hv : 10 ^ (place - 1) ≤ v)
    (hd : d.digits.length ≤ k) : BesideCell v (10 ^ (place - k)) d.value := by
  have hg : (0 : ℚ) < 10 ^ (place - k : ℤ) := by positivity
  rcases le_or_gt (place - k) d.exponent with hle | hlt
  · obtain ⟨j, hj⟩ := Int.eq_ofNat_of_zero_le (sub_nonneg.2 hle)
    have hvalue : d.value = (d.coefficient * 10 ^ j : ℕ) * 10 ^ (place - k : ℤ) := by
      rw [value, show d.exponent = j + (place - k) by omega, zpow_add₀ (by norm_num), zpow_natCast]
      push_cast
      ring
    rw [hvalue]
    exact besideCell_multiple hg _
  · have hpower : (10 : ℚ) ^ (place - 1) = (10 ^ (k - 1) : ℕ) * 10 ^ (place - k : ℤ) := by
      rw [show place - 1 = ((k - 1 : ℕ) : ℤ) + (place - k) by omega, zpow_add₀ (by norm_num),
        zpow_natCast]
      push_cast
      rfl
    have hbelow : d.value ≤ 10 ^ (place - 1) := by
      refine d.value_lt_pow.le.trans (zpow_le_zpow_right₀ (by norm_num) ?_)
      rw [pointPlace]
      omega
    intro n hle habove
    refine .inl (hbelow.trans ?_)
    rw [hpower] at hv ⊢
    exact (besideCell_multiple hg _ n hle habove).resolve_right fun h => by linarith

theorem magnitude_mul_den (p : ℕ) (e : ℤ) :
    magnitude p * (unitsPerOne * 10 ^ e.toNat : ℕ)
      = (unitsOf p * 10 ^ (-e).toNat : ℕ) * 10 ^ e := by
  have hsplit : (10 : ℚ) ^ e * 10 ^ (-e).toNat = 10 ^ e.toNat := by
    rw [← zpow_natCast, ← zpow_natCast, ← zpow_add₀ (by norm_num)]
    congr 1
    omega
  have hunits := Binary64.magnitude_mul_unitsPerOne p
  generalize unitsPerOne = one at hunits ⊢
  push_cast
  linear_combination 10 ^ e.toNat * hunits - unitsOf p * hsplit

theorem quotient_bounds {num den : ℕ} {g : ℚ} (hg : 0 < g) (hden : 0 < den)
    (hv : v * den = num * g) :
    (num / den : ℕ) * g ≤ v ∧ v < ((num / den : ℕ) + 1) * g ∧
      (2 * (num % den) < den ↔ 2 * (v - (num / den : ℕ) * g) < g) := by
  have hpos : (0 : ℚ) < den := Nat.cast_pos.2 hden
  have hrem : ((num % den : ℕ) : ℚ) < den := Nat.cast_lt.2 (Nat.mod_lt num hden)
  have hdivision : (den * (num / den : ℕ) + (num % den : ℕ) : ℚ) = num :=
    mod_cast Nat.div_add_mod num den
  have hover : (v - (num / den : ℕ) * g) * den = (num % den : ℕ) * g := by
    linear_combination hv - g * hdivision
  refine ⟨?_, ?_, ?_⟩
  · refine sub_nonneg.1 (nonneg_of_mul_nonneg_left ?_ hpos)
    rw [hover]
    positivity
  · refine lt_of_mul_lt_mul_right ?_ hpos.le
    linear_combination mul_lt_mul_of_pos_right hrem hg + hover
  · have hcast : 2 * (num % den) < den ↔ (2 * (num % den : ℕ) : ℚ) < den := by norm_cast
    rw [hcast]
    constructor
    · intro hlt
      refine lt_of_mul_lt_mul_right ?_ hpos.le
      linear_combination mul_lt_mul_of_pos_right hlt hg + 2 * hover
    · intro hlt
      refine lt_of_mul_lt_mul_right ?_ hg.le
      linear_combination mul_lt_mul_of_pos_right hlt hpos - 2 * hover

theorem exists_onGrid?_eq (p : ℕ) (e : ℤ) :
    ∃ n : ℕ, n * 10 ^ e ≤ magnitude p ∧ magnitude p < (n + 1) * 10 ^ e ∧
      onGrid? p e = (if 2 * (magnitude p - n * 10 ^ e) < 10 ^ e then [n, n + 1]
        else [n + 1, n]).find? fun c => ReadsBack p c e := by
  have hunits : 0 < unitsPerOne := Nat.cast_pos.1 Binary64.unitsPerOne_pos
  have hden : 0 < unitsPerOne * 10 ^ e.toNat := Nat.mul_pos hunits (by positivity)
  obtain ⟨hbelow, habove, hhalf⟩ :=
    quotient_bounds (by positivity) hden (magnitude_mul_den p e)
  refine ⟨_, hbelow, habove, ?_⟩
  unfold onGrid?
  simp only [Nat.pow_eq, hhalf]

theorem rounds_of_onGrid? {c : ℕ} (h : onGrid? p e = some c) : Rounds (c * 10 ^ e) p := by
  obtain ⟨n, -, -, hgrid⟩ := exists_onGrid?_eq p e
  have hfound := List.find?_some (hgrid ▸ h)
  exact rounds_of_readsBack (of_decide_eq_true hfound)

theorem le_pow_of_onGrid? {place : ℤ} {c : ℕ} (hv : magnitude p < 10 ^ place)
    (h : onGrid? p (place - k) = some c) : c ≤ 10 ^ k := by
  obtain ⟨n, hbelow, -, hgrid⟩ := exists_onGrid?_eq p (place - k)
  have hmem := List.mem_of_find?_eq_some (hgrid ▸ h)
  have hc : c ≤ n + 1 := by
    split at hmem <;> simp at hmem <;> omega
  have hpower : (10 : ℚ) ^ place = 10 ^ k * 10 ^ (place - k) := by
    rw [← zpow_natCast, ← zpow_add₀ (by norm_num), add_sub_cancel]
  have hn : (n : ℚ) < 10 ^ k := by
    refine lt_of_mul_lt_mul_right ?_ (by positivity : (0 : ℚ) ≤ 10 ^ (place - k))
    rw [← hpower]
    exact hbelow.trans_lt hv
  exact hc.trans (mod_cast hn)

theorem onGrid?_of_readsBack {n c : ℕ} (hbelow : n * 10 ^ e ≤ magnitude p)
    (habove : magnitude p < (n + 1) * 10 ^ e) (hgrid : onGrid? p e =
      (if 2 * (magnitude p - n * 10 ^ e) < 10 ^ e then [n, n + 1]
        else [n + 1, n]).find? fun c => ReadsBack p c e)
    (hc : c = n ∨ c = n + 1) (hread : ReadsBack p c e) :
    ∃ best, onGrid? p e = some best ∧
      |magnitude p - best * 10 ^ e| ≤ |magnitude p - c * 10 ^ e| ∧
      (|magnitude p - best * 10 ^ e| = |magnitude p - c * 10 ^ e| → c ≤ best) := by
  have hdown : |magnitude p - n * 10 ^ e| = magnitude p - n * 10 ^ e :=
    abs_of_nonneg (sub_nonneg.2 hbelow)
  have hup : |magnitude p - (n + 1 : ℕ) * 10 ^ e| = (n + 1) * 10 ^ e - magnitude p := by
    rw [Nat.cast_succ, abs_of_nonpos (by linarith), neg_sub]
  rw [hgrid]
  by_cases hhalf : 2 * (magnitude p - n * 10 ^ e) < 10 ^ e
  · rw [if_pos hhalf]
    by_cases hn : ReadsBack p n e
    · refine ⟨n, by simp [hn], ?_⟩
      rcases hc with rfl | rfl
      · exact ⟨le_rfl, fun _ => le_rfl⟩
      · rw [hdown, hup]
        exact ⟨by linarith, fun htie => by linarith⟩
    · obtain rfl := hc.resolve_left fun heq => hn (heq ▸ hread)
      exact ⟨n + 1, by simp [hn, hread], le_rfl, fun _ => le_rfl⟩
  · rw [if_neg hhalf]
    by_cases hn : ReadsBack p (n + 1) e
    · refine ⟨n + 1, by simp [hn], ?_⟩
      rcases hc with rfl | rfl
      · rw [hdown, hup]
        exact ⟨by linarith, fun _ => Nat.le_succ _⟩
      · exact ⟨le_rfl, fun _ => le_rfl⟩
    · obtain rfl := hc.resolve_right fun heq => hn (heq ▸ hread)
      exact ⟨c, by simp [hn, hread], le_rfl, fun _ => le_rfl⟩

theorem exists_candidate {n : ℕ} (hw : Rounds w p) (hp : p ≤ infinityPattern)
    (hbelow : n * 10 ^ e ≤ magnitude p) (habove : magnitude p < (n + 1) * 10 ^ e)
    (hside : w ≤ n * 10 ^ e ∨ (n + 1) * 10 ^ e ≤ w) :
    ∃ c, (c = n ∨ c = n + 1) ∧ ReadsBack p c e ∧
      |magnitude p - c * 10 ^ e| ≤ |magnitude p - w| ∧
      (|magnitude p - c * 10 ^ e| = |magnitude p - w| → w ≤ c * 10 ^ e) := by
  have hself := rounds_magnitude hp
  rcases hside with hle | hle
  · refine ⟨n, .inl rfl, (hw.between hself hle hbelow).readsBack, ?_, fun _ => hle⟩
    rw [abs_of_nonneg (sub_nonneg.2 hbelow), abs_of_nonneg (by linarith)]
    linarith
  · rw [← Nat.cast_succ] at hle habove
    refine ⟨n + 1, .inr rfl, (hself.between hw habove.le hle).readsBack, ?_, ?_⟩ <;>
      rw [abs_of_nonpos (by linarith), abs_of_nonpos (by linarith)]
    · linarith
    · intro htie
      linarith

/-- One of the two multiples next to a number stands for all others that read as it: it is nearer,
or as near and not smaller. -/
theorem onGrid?_of_besideCell (hw : Rounds w p) (hp : p ≤ infinityPattern)
    (hbeside : BesideCell (magnitude p) (10 ^ e) w) :
    ∃ c, onGrid? p e = some c ∧
      |magnitude p - c * 10 ^ e| ≤ |magnitude p - w| ∧
      (|magnitude p - c * 10 ^ e| = |magnitude p - w| → w ≤ c * 10 ^ e) := by
  obtain ⟨n, hbelow, habove, hgrid⟩ := exists_onGrid?_eq p e
  obtain ⟨c, hc, hread, hnear, htie⟩ :=
    exists_candidate hw hp hbelow habove (hbeside n hbelow habove)
  obtain ⟨best, hbest, hnear', htie'⟩ := onGrid?_of_readsBack hbelow habove hgrid hc hread
  refine ⟨best, hbest, hnear'.trans hnear, fun heq => ?_⟩
  have hle : (c : ℚ) ≤ best := Nat.cast_le.2 (htie' (le_antisymm hnear' (heq ▸ hnear)))
  exact (htie (le_antisymm hnear (heq ▸ hnear'))).trans
    (mul_le_mul_of_nonneg_right hle (by positivity))

theorem exists_near_multiple (p : ℕ) (e : ℤ) :
    ∃ m : ℕ, 2 * |m * 10 ^ e - magnitude p| ≤ 10 ^ e := by
  obtain ⟨n, hbelow, habove, -⟩ := exists_onGrid?_eq p e
  rcases le_total (2 * (magnitude p - n * 10 ^ e)) (10 ^ e) with hhalf | hhalf
  · refine ⟨n, ?_⟩
    rw [abs_of_nonpos (by linarith)]
    linarith
  · refine ⟨n + 1, ?_⟩
    rw [Nat.cast_succ, abs_of_nonneg (by linarith)]
    linarith

/-- Seventeen digits tell a number from its neighbours, since `10 ^ 16` is more than `2 ^ 53`. -/
theorem exists_seventeen {place : ℤ} (hp : p < infinityPattern)
    (hplace : 10 ^ (place - 1) ≤ magnitude p) :
    ∃ w, Rounds w p ∧ BesideCell (magnitude p) (10 ^ (place - 17)) w := by
  have hg : (0 : ℚ) < 10 ^ (place - 17) := by positivity
  have hpower : (10 : ℚ) ^ (place - 1) = 10 ^ 16 * 10 ^ (place - 17) := by
    rw [show place - 1 = ((16 : ℕ) : ℤ) + (place - 17) by ring, zpow_add₀ (by norm_num),
      zpow_natCast]
  obtain ⟨m, hm⟩ := exists_near_multiple p (place - 17)
  refine ⟨_, Binary64.nearest_of_close hp ?_, besideCell_multiple hg m⟩
  have hunits := Binary64.unitsPerOne_pos
  rw [← Binary64.magnitude_mul_unitsPerOne p, ← sub_mul, abs_mul, abs_of_pos hunits, ← mul_assoc]
  refine mul_lt_mul_of_pos_right ?_ hunits
  rw [Binary64.fractionWeight_eq]
  push_cast
  linarith

theorem placeOf_magnitude (h0 : 0 < p) :
    (10 : ℚ) ^ (placeOf (unitsOf p) unitsPerOne - 1) ≤ magnitude p ∧
      magnitude p < 10 ^ placeOf (unitsOf p) unitsPerOne :=
  placeOf_bounds (Binary64.unitsOf_strictMono h0) (Nat.cast_pos.1 Binary64.unitsPerOne_pos)

theorem exists_shortest_eq (h0 : 0 < p) (hp : p < infinityPattern) :
    ∃ k c : ℕ, 0 < k ∧ onGrid? p (placeOf (unitsOf p) unitsPerOne - k) = some c ∧
      (∀ j : ℕ, 0 < j → j < k → onGrid? p (placeOf (unitsOf p) unitsPerOne - j) = none) ∧
      shortest p = strip c (placeOf (unitsOf p) unitsPerOne - k) := by
  obtain ⟨w, hw, hbeside⟩ := exists_seventeen hp (placeOf_magnitude h0).1
  obtain ⟨c, hc, -⟩ := onGrid?_of_besideCell hw hp.le hbeside
  unfold shortest
  generalize placeOf (unitsOf p) unitsPerOne = place at hc ⊢
  simp only
  rcases hfind : (List.range' 1 17).findSome? fun digits : ℕ =>
    (onGrid? p (place - digits)).map fun c => strip c (place - digits) with _ | d
  · have hnone := List.findSome?_eq_none_iff.1 hfind 17 (by decide)
    simp [hc] at hnone
  · obtain ⟨fewer, k, more, hrange, hk, hfewer⟩ := List.findSome?_eq_some_iff.1 hfind
    obtain ⟨c, hc, rfl⟩ := Option.map_eq_some_iff.1 hk
    obtain ⟨n, -, rfl, hrest⟩ := List.range'_eq_append_iff.1 hrange
    obtain ⟨rfl, -, -⟩ := List.range'_eq_cons_iff.1 hrest.symm
    refine ⟨_, c, by omega, hc, fun j hj hlt => Option.map_eq_none_iff.1 (hfewer j ?_), rfl⟩
    exact List.mem_range'_1.2 ⟨hj, by omega⟩

theorem isShortest_shortest (h0 : 0 < p) (hp : p < infinityPattern) :
    IsShortest p (shortest p) := by
  obtain ⟨hlow, hhigh⟩ := placeOf_magnitude h0
  obtain ⟨k, c, hk, hc, hfewer, heq⟩ := exists_shortest_eq h0 hp
  generalize placeOf (unitsOf p) unitsPerOne = place at *
  rw [heq]
  have hrounds := rounds_of_onGrid? hc
  have hvalue := strip_value c (place - k)
  have hlength : (strip c (place - k)).digits.length ≤ k :=
    strip_length_le hk (le_pow_of_onGrid? hhigh hc) _
  have hbest : ∀ d' : Decimal, Rounds d'.value p → d'.digits.length ≤ k →
      |magnitude p - c * 10 ^ (place - k : ℤ)| ≤ |magnitude p - d'.value| ∧
      (|magnitude p - c * 10 ^ (place - k : ℤ)| = |magnitude p - d'.value| →
        d'.value ≤ c * 10 ^ (place - k : ℤ)) := fun d' hd' hlen => by
    obtain ⟨c', hc', hnear, htie⟩ :=
      onGrid?_of_besideCell hd' hp.le (besideCell_value hk hlow hlen)
    obtain rfl : c = c' := Option.some.inj (hc.symm.trans hc')
    exact ⟨hnear, htie⟩
  constructor
  case stripped =>
    refine strip_mod ?_ _
    rintro rfl
    rw [Nat.cast_zero, zero_mul] at hrounds
    exact absurd h0 (not_lt.2 (hrounds.mono rounds_zero Nat.cast_zero.ge))
  case rounds => rwa [hvalue]
  case fewest =>
    intro d' hd'
    refine hlength.trans ?_
    by_contra hlt
    have hpos : 0 < d'.digits.length := Nat.length_toDigits_pos
    obtain ⟨c', hc', -⟩ := onGrid?_of_besideCell hd' hp.le (besideCell_value hpos hlow le_rfl)
    rw [hfewer _ hpos (not_le.1 hlt)] at hc'
    cases hc'
  case nearest =>
    intro d' hd' hlen
    rw [hvalue]
    exact (hbest d' hd' (hlen.trans_le hlength)).1
  case largest_of_tie =>
    intro d' hd' hlen htie
    rw [hvalue] at htie ⊢
    exact (hbest d' hd' (hlen.trans_le hlength)).2 htie

theorem exists_isShortest (h0 : 0 < p) (hp : p < infinityPattern) : ∃ d, IsShortest p d :=
  ⟨_, isShortest_shortest h0 hp⟩

namespace IsShortest

variable {d' : Decimal}

theorem coefficient_pos (h : IsShortest p d) : 0 < d.coefficient :=
  Nat.pos_of_ne_zero fun hzero => h.stripped (by rw [hzero])

theorem value_pos (h : IsShortest p d) : 0 < d.value :=
  mul_pos (Nat.cast_pos.2 h.coefficient_pos) (by positivity)

theorem unique (h : IsShortest p d) (h' : IsShortest p d') : d' = d := by
  have hlength := le_antisymm (h.fewest d' h'.rounds) (h'.fewest d h.rounds)
  have hdistance := le_antisymm (h.nearest d' h'.rounds hlength.symm)
    (h'.nearest d h.rounds hlength)
  have hvalue := le_antisymm (h.largest_of_tie d' h'.rounds hlength.symm hdistance)
    (h'.largest_of_tie d h.rounds hlength hdistance.symm)
  -- Their leading digits stand in the same place.
  have hplace : d.pointPlace - 1 < d'.pointPlace := (zpow_lt_zpow_iff_right₀ (by norm_num)).1
    ((pow_le_value h.coefficient_pos).trans_lt (hvalue ▸ d'.value_lt_pow))
  have hplace' : d'.pointPlace - 1 < d.pointPlace := (zpow_lt_zpow_iff_right₀ (by norm_num)).1
    ((pow_le_value h'.coefficient_pos).trans_lt (hvalue ▸ d.value_lt_pow))
  have hexponent : d'.exponent = d.exponent := by
    unfold pointPlace at hplace hplace'
    omega
  have hcoefficient : d'.coefficient = d.coefficient := by
    have hpower : (10 : ℚ) ^ d.exponent ≠ 0 := by positivity
    rw [value, value, hexponent] at hvalue
    exact Nat.cast_injective (mul_right_cancel₀ hpower hvalue)
  cases d
  cases d'
  exact congrArg₂ Decimal.mk hcoefficient hexponent

theorem patternNearDecimal_le_iff {m : ℤ} (h : IsShortest p d)
    (hm : IsShortest (Binary64.patternNearDecimal 1 m) ⟨1, m⟩) :
    Binary64.patternNearDecimal 1 m ≤ p ↔ m < d.pointPlace := by
  constructor
  · intro hle
    by_contra hplace
    have hvalue : d.value ≤ 10 ^ m :=
      d.value_lt_pow.le.trans (zpow_le_zpow_right₀ (by norm_num) (not_lt.1 hplace))
    obtain rfl := hle.antisymm (h.rounds.mono (rounds_patternNearDecimal m) hvalue)
    obtain rfl := hm.unique h
    have hlength : 0 < (Decimal.mk 1 m).digits.length := Nat.length_toDigits_pos
    simp only [pointPlace] at hplace
    omega
  · intro hlt
    have hpower : (10 : ℚ) ^ m ≤ 10 ^ (d.pointPlace - 1) :=
      zpow_le_zpow_right₀ (by norm_num) (by omega)
    exact (rounds_patternNearDecimal m).mono h.rounds
      (hpower.trans (pow_le_value h.coefficient_pos))

end IsShortest

end Decimal

end PrefixLang
