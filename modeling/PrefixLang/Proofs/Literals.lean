import PrefixLang.Evaluation
import PrefixLang.Proofs.NameTable
import PrefixLang.Proofs.NumberLayout
import PrefixLang.Proofs.Parsing
import PrefixLang.Proofs.Scanning
import PrefixLang.Session
/-!
Number literals from source to result. A row of digits is one token, and as a program it shows the
number that is nearest to what it says. Below `10 ^ 21` this number is whole and is shown as a row
of digits again, so that what was shown can be read in place of what was written:
`literals_survive_printing`. Only a row that is too long for its span shows nothing.
-/

namespace PrefixLang

open Binary64 (Nearest infinityPattern unitsOf unitsPerOne fractionWeight magnitude)

variable {ds : List Char}

theorem bytes_digits (h : ∀ c ∈ ds, c.isDigit = true) : bytes ds = ds.length := by
  induction ds with
  | nil => rfl
  | cons c rest ih =>
    have hsize : c.utf8Size = 1 := by
      have hrange := Char.isDigit_iff_toNat.1 (h c List.mem_cons_self)
      exact Char.utf8Size_eq_one_iff.2 (UInt32.le_iff_toNat_le.2 (hrange.2.trans (by decide)))
    rw [bytes_cons, hsize, ih fun c hc => h c (List.mem_cons_of_mem _ hc), List.length_cons]
    omega

def literal (ds : List Char) : Binary64 := Binary64.ofNat (Nat.ofDigitChars 10 ds 0)

theorem lex_digits (names : NameTable) (hne : ds ≠ []) (h : ∀ c ∈ ds, c.isDigit = true) :
    lex names (String.ofList ds) = (.ok [⟨.number (literal ds), ⟨0, ds.length⟩⟩,
      ⟨.endOfInput, Span.point ds.length⟩], names) := by
  obtain ⟨c, rest, rfl⟩ := List.exists_cons_of_ne_nil hne
  have hrest : ∀ c ∈ rest, c.isDigit = true := fun c hc => h c (List.mem_cons_of_mem _ hc)
  have hread := Piece.read?_digits rest (h c List.mem_cons_self)
  rw [List.takeWhile_eq_self_iff.2 hrest, List.dropWhile_eq_nil_iff.2 hrest] at hread
  rw [lex, Lexeme.scan_eq_scanList, String.toList_ofList, Lexeme.scanList_some hread,
    Lexeme.scanList_nil, bytes_digits h, Nat.zero_add]
  simp only [Lexeme.ofPiece, List.append_nil, List.map_cons, List.map_nil, Token.internAll_cons,
    Token.internAll_nil, bytes_digits h, Nat.zero_add]
  rfl

theorem parse_number (v : Binary64) (s stop : Span) :
    parse [⟨.number v, s⟩, ⟨.endOfInput, stop⟩] = .ok [.number v s] := by
  have hend : ∀ t ∈ [(⟨.number v, s⟩ : Token Name)], t.kind ≠ .endOfInput := by simp
  have hone : Forest.statements stop [⟨.number v, s⟩] = .ok [.number v s] :=
    Forest.statements_ok_iff.2 ⟨[[_]], rfl, .cons (.number v s) .nil⟩
  exact (parse_append_end stop hend).trans hone

theorem evaluate_number (names : NameTable) (env : Environment) (v : Binary64) (s : Span) :
    evaluate names [(.number v s : Expr Empty)] env = (.ok [.value (.number v)], env) := by
  simp only [evaluate, evaluate]
  rfl

theorem runSource_digits (hne : ds ≠ []) (h : ∀ c ∈ ds, c.isDigit = true) :
    runSource .plain (String.ofList ds) = .ok (literal ds).resultText := by
  rw [runSource, Session.run, Session.evaluate_eq, Session.read, lex_digits _ hne h]
  simp only [Except.mapError, bind, Except.bind, parse_number, evaluate_number]
  rfl

theorem utf8ByteSize_digits (h : ∀ c ∈ ds, c.isDigit = true) :
    (String.ofList ds).utf8ByteSize = ds.length := bytes_digits h

theorem runSourceBounded_digits (hne : ds ≠ []) (hlength : ds.length ≤ Span.maxOffset)
    (h : ∀ c ∈ ds, c.isDigit = true) :
    runSourceBounded .plain (String.ofList ds) = .ok (.ok (literal ds).resultText) := by
  rw [runSourceBounded_of_le _ ((utf8ByteSize_digits h).trans_le hlength), runSource_digits hne h]

theorem lexBounded_digits (names : NameTable) (hne : ds ≠ []) (hlength : ds.length ≤ Span.maxOffset)
    (h : ∀ c ∈ ds, c.isDigit = true) :
    lexBounded names (String.ofList ds) = .ok (.ok [⟨.number (literal ds), ⟨0, ds.length⟩⟩,
      ⟨.endOfInput, Span.point ds.length⟩], names) := by
  rw [lexBounded_of_le _ ((utf8ByteSize_digits h).trans_le hlength), lex_digits names hne h]

theorem runSourceBounded_long_digits (format : Format) (hlength : Span.maxOffset < ds.length)
    (h : ∀ c ∈ ds, c.isDigit = true) :
    runSourceBounded format (String.ofList ds) = .error (.stopTooLarge ds.length) := by
  obtain ⟨c, rest, rfl⟩ := List.exists_cons_of_ne_nil (List.ne_nil_of_length_pos
    (Nat.zero_lt_of_lt hlength))
  have hrest : ∀ c ∈ rest, c.isDigit = true := fun c hc => h c (List.mem_cons_of_mem _ hc)
  have hread := Piece.read?_digits rest (h c List.mem_cons_self)
  rw [List.takeWhile_eq_self_iff.2 hrest] at hread
  rw [runSourceBounded, Lexeme.checkSpans_eq, String.toList_ofList, Lexeme.checkFrom_some hread,
    if_neg (by simp), utf8ByteSize_digits h, Nat.zero_add, Span.ofRange, if_neg (Nat.not_lt_zero _),
    if_pos hlength]
  rfl

namespace Decimal

variable {p n m : ℕ} {d : Decimal}

theorem magnitude_eq_of_rounds (hn : n ≤ 2 * fractionWeight) (h : Rounds n p) :
    magnitude p = n := by
  obtain ⟨p', hp'⟩ := Binary64.exists_unitsOf_whole hn
  have hle : p' ≤ infinityPattern := by
    refine le_trans ?_ Binary64.wholeFrom_le_infinityPattern
    rw [← Binary64.unitsOf_strictMono.le_iff_le, hp', Binary64.unitsOf_wholeFrom]
    exact Nat.mul_le_mul_right _ hn
  have hself := Binary64.nearest_unitsOf hle
  rw [hp', Nat.cast_mul] at hself
  obtain rfl := h.unique hself
  exact Binary64.magnitude_of_unitsOf hp'

theorem rounds_wholeFrom : Rounds (2 * fractionWeight : ℕ) Binary64.wholeFrom := by
  have hself := rounds_magnitude Binary64.wholeFrom_le_infinityPattern
  rwa [Binary64.magnitude_of_unitsOf Binary64.unitsOf_wholeFrom] at hself

theorem exists_magnitude_eq (h : Rounds n p) : ∃ v : ℕ, magnitude p = v := by
  rcases Nat.le_total n (2 * fractionWeight) with hn | hn
  · exact ⟨n, magnitude_eq_of_rounds hn h⟩
  · obtain ⟨v, hv⟩ := Binary64.exists_whole (rounds_wholeFrom.mono h (Nat.cast_le.2 hn))
    exact ⟨v, Binary64.magnitude_of_unitsOf hv⟩

theorem IsShortest.pow_le_of_le_magnitude {m : ℤ} (h : IsShortest p d) (hp : p ≤ infinityPattern)
    (hm : 10 ^ m ≤ magnitude p) : 10 ^ m ≤ d.value := by
  by_contra hlt
  rw [not_le] at hlt
  have hvalue : (Decimal.mk 1 m).value = 10 ^ m := by rw [value, Nat.cast_one, one_mul]
  have hlength : (Decimal.mk 1 m).digits.length = 1 := by
    change (Nat.toDigits 10 1).length = 1
    decide
  have hrounds : Rounds (Decimal.mk 1 m).value p := by
    rw [hvalue]
    exact h.rounds.between (rounds_magnitude hp) hlt.le hm
  have hpos : 0 < d.digits.length := Nat.length_toDigits_pos
  have hfewest := h.fewest _ hrounds
  have hnearest := h.nearest _ hrounds (by omega)
  rw [hvalue, abs_of_nonneg (by linarith), abs_of_nonneg (by linarith)] at hnearest
  linarith

theorem magnitude_pos (h0 : 0 < p) : 0 < magnitude p :=
  div_pos (Nat.cast_pos.2 (Binary64.unitsOf_strictMono h0)) Binary64.unitsPerOne_pos

theorem IsShortest.exponent_nonneg (h : IsShortest p d) (h0 : 0 < p) (hp : p ≤ infinityPattern)
    (hn : Rounds n p) : 0 ≤ d.exponent := by
  obtain ⟨v, hv⟩ := exists_magnitude_eq hn
  have hpos : 0 < v := Nat.cast_pos.1 (hv ▸ magnitude_pos h0)
  have hself : Rounds (Decimal.mk v 0).value p := by
    rw [value, zpow_zero, mul_one, ← hv]
    exact rounds_magnitude hp
  have hfewest : d.digits.length ≤ (Nat.toDigits 10 v).length := h.fewest _ hself
  have hpower : (10 : ℚ) ^ (((Nat.toDigits 10 v).length - 1 : ℕ) : ℤ) ≤ magnitude p := by
    rw [zpow_natCast, hv]
    exact mod_cast pow_length_le hpos
  have hplace := (zpow_lt_zpow_iff_right₀ (by norm_num : (1 : ℚ) < 10)).1
    ((h.pow_le_of_le_magnitude hp hpower).trans_lt d.value_lt_pow)
  unfold pointPlace at hplace
  omega

theorem toDigits_mul_pow (hn : 0 < n) (j : ℕ) :
    Nat.toDigits 10 (n * 10 ^ j) = Nat.toDigits 10 n ++ List.replicate j '0' := by
  induction j with
  | zero => simp
  | succ j ih =>
    have hpos : 0 < n * 10 ^ j := by positivity
    have hstep := Nat.toDigits_append_toDigits (by decide) hpos (by decide : 0 < 10)
    rw [Nat.toDigits_zero, ih, List.append_assoc, ← List.replicate_succ', add_zero] at hstep
    rw [hstep]
    ring_nf

theorem isShortest_wholeFrom : IsShortest Binary64.wholeFrom ⟨9007199254740992, 0⟩ := by
  obtain ⟨hpos, hfinite, hshortest⟩ : 0 < Binary64.wholeFrom ∧
      Binary64.wholeFrom < infinityPattern ∧
      shortest Binary64.wholeFrom = ⟨9007199254740992, 0⟩ := by decide +kernel
  exact hshortest ▸ isShortest_shortest hpos hfinite

/-- The decimal for a whole number of up to 53 bits is the number. Its successor reads as `2 ^ 53`
too, but is farther. -/
theorem IsShortest.value_eq (h : IsShortest p d) (hvalue : d.value = m)
    (hn : n ≤ 2 * fractionWeight) (hrounds : Rounds n p) : m = n := by
  have hm : Rounds m p := hvalue ▸ h.rounds
  rcases Nat.lt_or_ge (2 * fractionWeight) m with hlarge | hsmall
  · have hle := rounds_wholeFrom.mono hm (Nat.cast_le.2 hlarge.le)
    obtain rfl := hle.antisymm (hrounds.mono rounds_wholeFrom (Nat.cast_le.2 hn))
    obtain rfl := isShortest_wholeFrom.unique h
    rw [value, zpow_zero, mul_one] at hvalue
    obtain rfl := Nat.cast_injective hvalue
    exact absurd hlarge (by decide)
  · have hmagnitude := magnitude_eq_of_rounds hsmall hm
    rw [magnitude_eq_of_rounds hn hrounds] at hmagnitude
    exact (Nat.cast_injective hmagnitude).symm

end Decimal

namespace Binary64

open Decimal

variable {x : Binary64} {n : ℕ}

theorem lt_scientificFrom {p : ℕ} (h : magnitude p < 10 ^ 21) : p < scientificFrom := by
  have hbound : unitsOf scientificFrom = 10 ^ 21 * unitsPerOne := by decide +kernel
  rw [← unitsOf_strictMono.lt_iff_lt, hbound]
  rw [magnitude, div_lt_iff₀ unitsPerOne_pos] at h
  exact mod_cast h

theorem resultText_of_whole_decimal {d : Decimal} (hsign : x.isNegative = false)
    (h0 : x.isZero = false) (hfinite : x.pattern < infinityPattern) (hd : IsShortest x.pattern d)
    (hexponent : 0 ≤ d.exponent) (hplace : d.pointPlace ≤ 21) :
    x.resultText = String.ofList (Nat.toDigits 10 (d.coefficient * 10 ^ d.exponent.toNat)) := by
  obtain ⟨text, hlaid, htext⟩ := exists_laidOut h0 hfinite hd
  have hlength : 0 < d.digits.length := Nat.length_toDigits_pos
  have hpoint : d.pointPlace = d.digits.length + d.exponent := rfl
  rw [htext, hsign, signed, toDigits_mul_pow hd.coefficient_pos]
  cases hlaid with
  | whole =>
    rw [hpoint, add_sub_cancel_left]
    rfl
  | mixed | fraction | large | small => omega

theorem resultText_of_isZero (h0 : x.isZero = true) :
    x.resultText = String.ofList (Nat.toDigits 10 0) := by
  have hpattern : x.pattern = 0 := of_decide_eq_true h0
  have hnumber : x.isNaN = false := decide_eq_false (by omega)
  have hbounded : x.isInfinite = false := decide_eq_false (by rw [hpattern]; decide)
  rw [resultText, hnumber, hbounded, h0]
  rfl

theorem resultText_whole (hsign : x.isNegative = false) (hx : Rounds n x.pattern)
    (hsmall : magnitude x.pattern < 10 ^ 21) :
    ∃ m : ℕ, Rounds m x.pattern ∧ x.resultText = String.ofList (Nat.toDigits 10 m) ∧
      (Nat.toDigits 10 m).length ≤ 21 ∧ (n ≤ 2 * fractionWeight → m = n) := by
  have hbound := lt_scientificFrom hsmall
  have hfinite : x.pattern < infinityPattern := hbound.trans scientificFrom_lt_infinityPattern
  rcases h0 : x.isZero
  case true =>
    have hpattern : x.pattern = 0 := of_decide_eq_true h0
    rw [hpattern] at hx ⊢
    refine ⟨0, rounds_zero, resultText_of_isZero h0, by decide, fun hn => ?_⟩
    have hmagnitude := magnitude_eq_of_rounds hn hx
    rw [magnitude_eq_of_rounds (Nat.zero_le _) rounds_zero] at hmagnitude
    exact Nat.cast_injective hmagnitude
  case false =>
    obtain ⟨d, hd⟩ := exists_isShortest (pattern_pos h0) hfinite
    have hexponent := hd.exponent_nonneg (pattern_pos h0) hfinite.le hx
    have hvalue : d.value = (d.coefficient * 10 ^ d.exponent.toNat : ℕ) := by
      rw [value, ← Int.toNat_of_nonneg hexponent, zpow_natCast, Int.toNat_natCast]
      push_cast
      rfl
    have hplace : d.pointPlace ≤ 21 :=
      not_lt.1 (mt (hd.patternNearDecimal_le_iff isShortest_scientificFrom).2 hbound.not_ge)
    have hlength : (Nat.toDigits 10 (d.coefficient * 10 ^ d.exponent.toNat)).length ≤ 21 := by
      have hpoint : d.pointPlace = (Nat.toDigits 10 d.coefficient).length + d.exponent := rfl
      rw [toDigits_mul_pow hd.coefficient_pos, List.length_append, List.length_replicate]
      omega
    exact ⟨_, hvalue ▸ hd.rounds,
      resultText_of_whole_decimal hsign h0 hfinite hd hexponent hplace, hlength,
      fun hn => hd.value_eq hvalue hn hx⟩

theorem ofPattern_false {p : ℕ} (h : p ≤ infinityPattern) :
    (ofPattern false p).isNegative = false ∧ (ofPattern false p).pattern = p := by
  have hinfinity : infinityPattern = 9218868437227405312 := rfl
  have hbits : (ofPattern false p).bits.toNat = p := by
    simp only [ofPattern, Bool.false_eq_true, ↓reduceIte, UInt64.toNat_ofNat']
    omega
  have hlt : p < signWeight := h.trans_lt (by decide)
  rw [isNegative, pattern, hbits]
  exact ⟨decide_eq_false (not_le.2 hlt), Nat.mod_eq_of_lt hlt⟩

theorem ofNat_eq (hsign : x.isNegative = false) (hx : Rounds n x.pattern) : ofNat n = x := by
  have hnear := nearest_patternNear (n * unitsPerOne) Nat.one_pos
  rw [Nat.cast_one, div_one, Nat.cast_mul] at hnear
  obtain ⟨hsign', hpattern⟩ := ofPattern_false hnear.le_infinity
  exact eq_of_pattern (hsign'.trans hsign.symm) (hpattern.trans (hnear.unique hx))

end Binary64

open Decimal (Rounds)

/-- Let `x` be the number that is nearest to a row of digits, and below `10 ^ 21`. If the row is not
too long for a span, it shows a row of digits without zeros in front; both rows are read as `x`, and
the second one shows itself. If the number written has no more than 53 bits, it is shown as it is.
-/
theorem literals_survive_printing {ds : List Char} {x : Binary64} (hne : ds ≠ [])
    (hlength : ds.length ≤ Span.maxOffset) (hdigits : ∀ c ∈ ds, c.isDigit = true)
    (hsign : x.isNegative = false)
    (hx : Nearest (Nat.ofDigitChars 10 ds 0 * unitsPerOne) x.pattern)
    (hsmall : magnitude x.pattern < 10 ^ 21) :
    ∃ shown, shown ≠ [] ∧ (∀ c ∈ shown, c.isDigit = true) ∧
      (shown = ['0'] ∨ shown.head? ≠ some '0') ∧
      runSourceBounded .plain (String.ofList ds) = .ok (.ok (String.ofList shown)) ∧
      runSourceBounded .plain (String.ofList shown) = .ok (.ok (String.ofList shown)) ∧
      (∀ names,
        lexBounded names (String.ofList ds) = .ok (.ok [⟨.number x, ⟨0, ds.length⟩⟩,
          ⟨.endOfInput, Span.point ds.length⟩], names) ∧
        lexBounded names (String.ofList shown) = .ok (.ok [⟨.number x, ⟨0, shown.length⟩⟩,
          ⟨.endOfInput, Span.point shown.length⟩], names)) ∧
      (Nat.ofDigitChars 10 ds 0 ≤ 2 ^ 53 → shown = Nat.toDigits 10 (Nat.ofDigitChars 10 ds 0)) := by
  obtain ⟨m, hm, htext, hplaces, hexact⟩ := Binary64.resultText_whole hsign hx hsmall
  have hshown : ∀ c ∈ Nat.toDigits 10 m, c.isDigit = true := fun c =>
    Nat.isDigit_of_mem_toDigits (by decide) (by decide)
  have hfits : (Nat.toDigits 10 m).length ≤ Span.maxOffset := hplaces.trans (by decide)
  have hliteral : literal ds = x := Binary64.ofNat_eq hsign hx
  have hliteral' : literal (Nat.toDigits 10 m) = x := by
    rw [literal, Nat.ofDigitChars_toDigits (by decide) (by decide)]
    exact Binary64.ofNat_eq hsign hm
  refine ⟨Nat.toDigits 10 m, Nat.toDigits_ne_nil, hshown, ?_, ?_, ?_, fun names => ⟨?_, ?_⟩, ?_⟩
  · by_cases hzero : m = 0
    · exact .inl (by rw [hzero, Nat.toDigits_zero])
    · exact .inr (mt Decimal.eq_zero_of_head?_toDigits hzero)
  · rw [runSourceBounded_digits hne hlength hdigits, hliteral, htext]
  · rw [runSourceBounded_digits Nat.toDigits_ne_nil hfits hshown, hliteral', htext]
  · rw [lexBounded_digits names hne hlength hdigits, hliteral]
  · rw [lexBounded_digits names Nat.toDigits_ne_nil hfits hshown, hliteral']
  · exact fun hn => congrArg (Nat.toDigits 10) (hexact hn)

/-- One more than `2 ^ 64`, with zeros in front, is shown as the shortest whole number that reads as
`2 ^ 64`. -/
theorem longLiteral_survives :
    runSourceBounded .plain "00018446744073709551617" = .ok (.ok "18446744073709552000") ∧
      runSourceBounded .plain "18446744073709552000" = .ok (.ok "18446744073709552000") := by
  have hdigits : ∀ c ∈ "00018446744073709551617".toList, c.isDigit = true :=
    List.all_eq_true.1 (by decide)
  have hnear := Binary64.nearest_patternNear (18446744073709551617 * unitsPerOne) Nat.one_pos
  obtain ⟨hpattern, hsmall, hshown⟩ :
      Binary64.patternNear (18446744073709551617 * unitsPerOne) 1
        = Binary64.pattern ⟨0x43f0000000000000⟩ ∧
      magnitude (Binary64.pattern ⟨0x43f0000000000000⟩) < 10 ^ 21 ∧
      runSource .plain "00018446744073709551617" = .ok "18446744073709552000" := by
    decide +kernel
  have hvalue : Nat.ofDigitChars 10 "00018446744073709551617".toList 0 = 18446744073709551617 := by
    decide
  rw [hpattern, Nat.cast_one, div_one, Nat.cast_mul, ← hvalue] at hnear
  obtain ⟨shown, -, -, -, hfirst, hsecond, -⟩ := literals_survive_printing
    (x := ⟨0x43f0000000000000⟩) (by decide) (by decide) hdigits (by decide) hnear hsmall
  rw [String.ofList_toList, runSourceBounded_of_le _ (by decide), hshown] at hfirst
  rw [← Except.ok.inj (Except.ok.inj hfirst)] at hsecond
  rw [runSourceBounded_of_le _ (by decide), hshown]
  exact ⟨rfl, hsecond⟩

theorem ofDigitChars_zeros (n : ℕ) : Nat.ofDigitChars 10 (List.replicate n '0') 0 = 0 := by
  induction n with
  | zero => rfl
  | succ n ih => rwa [List.replicate_succ, Nat.ofDigitChars_cons]

theorem long_zeros_show_nothing {n : ℕ} (hn : Span.maxOffset < n) :
    List.replicate n '0' ≠ [] ∧ (∀ c ∈ List.replicate n '0', c.isDigit = true) ∧
      (∃ x : Binary64, x.isNegative = false ∧
        Nearest (Nat.ofDigitChars 10 (List.replicate n '0') 0 * unitsPerOne) x.pattern ∧
        magnitude x.pattern < 10 ^ 21) ∧
      runSourceBounded .plain (String.ofList (List.replicate n '0'))
        = .error (.stopTooLarge n) := by
  have hlength : (List.replicate n '0').length = n := List.length_replicate
  have hdigits : ∀ c ∈ List.replicate n '0', c.isDigit = true := by
    intro c hc
    rw [List.eq_of_mem_replicate hc]
    decide
  have hne : List.replicate n '0' ≠ [] := List.ne_nil_of_length_pos (by omega)
  refine ⟨hne, hdigits, ⟨⟨0⟩, by decide, ?_, by decide +kernel⟩, ?_⟩
  · rw [ofDigitChars_zeros]
    exact Decimal.rounds_zero
  · rw [runSourceBounded_long_digits .plain (hlength.symm ▸ hn) hdigits, hlength]

/-- The zeros say a number below `10 ^ 21`, but the span of their token would end one byte too far.
-/
theorem endlessZeros_show_nothing :
    List.replicate 4294967296 '0' ≠ [] ∧
      (∀ c ∈ List.replicate 4294967296 '0', c.isDigit = true) ∧
      (∃ x : Binary64, x.isNegative = false ∧
        Nearest (Nat.ofDigitChars 10 (List.replicate 4294967296 '0') 0 * unitsPerOne) x.pattern ∧
        magnitude x.pattern < 10 ^ 21) ∧
      runSourceBounded .plain (String.ofList (List.replicate 4294967296 '0'))
        = .error (.stopTooLarge 4294967296) :=
  long_zeros_show_nothing (by decide)

end PrefixLang
