import FrameEngine.Proofs.Decimal.Shortest

/-!
# FrameEngine.Proofs.Decimal.Nearest

A finite number is the nearest one to every decimal of its rounding interval (`ofRatio_of_covers`),
the shortest of them among these. So whoever sets out the digits of a number in another way reads
the number back, as long as the decimal stays the same (`ofDecimal_of_value`).
-/

namespace FrameEngine
namespace Binary64

/-! ## Rounding to an integer -/

/-- The nearest integer is within a half, and a half away only if it is even. -/
theorem roundEven_eq {n d s : Nat} (hd : 0 < d) (hlow : 2 * (s * d) ≤ 2 * n + d)
    (hhigh : 2 * n ≤ 2 * (s * d) + d)
    (heven : s % 2 = 0 ∨ (2 * (s * d) < 2 * n + d ∧ 2 * n < 2 * (s * d) + d)) :
    roundEven n d = s := by
  have hn := Nat.div_add_mod' n d
  have hr := Nat.mod_lt n hd
  unfold roundEven
  generalize n / d = q at *
  generalize n % d = r at *
  have hle : q ≤ s := by
    refine Nat.le_of_lt_succ (Nat.lt_of_mul_lt_mul_right (a := d) ?_)
    rw [Nat.succ_mul]
    omega
  have hge : s ≤ q + 1 := by
    refine Nat.le_of_lt_succ (Nat.lt_of_mul_lt_mul_right (a := d) ?_)
    rw [Nat.succ_mul, Nat.succ_mul]
    omega
  dsimp only
  rcases Nat.eq_or_lt_of_le hle with rfl | hlt
  · split
    · rfl
    · rw [if_neg (by omega)]
      omega
  · obtain rfl : s = q + 1 := by omega
    rw [Nat.add_one_mul q d] at hlow hhigh heven
    rw [if_neg (by omega)]
    split <;> omega

/-! ## The bits of a number -/

theorem magnitudeBits_eq (x : Binary64) :
    x.magnitudeBits = x.shift * twoTo 52 + x.significand := by
  have hdiv := Nat.div_add_mod' x.magnitudeBits (twoTo 52)
  unfold shift significand exponentField
  generalize x.magnitudeBits / twoTo 52 = q at *
  split
  · subst q
    omega
  · obtain ⟨k, rfl⟩ := Nat.exists_eq_add_one_of_ne_zero ‹_›
    rw [Nat.add_sub_cancel]
    rw [Nat.succ_mul] at hdiv
    omega

theorem ofMagnitude_magnitudeBits (x : Binary64) : ofMagnitude x.isNegative x.magnitudeBits = x := by
  have hsize := signedLimit_eq
  have hlt := x.bits.toNat_lt_size
  have hdiv := Nat.div_add_mod' x.bits.toNat signedLimit
  have hbits : (if x.isNegative then signedLimit else 0) + x.magnitudeBits = x.bits.toNat := by
    unfold isNegative magnitudeBits
    have hsign : x.bits.toNat / signedLimit < 2 := by
      refine (Nat.div_lt_iff_lt_mul (by decide)).2 ?_
      rw [hsize]
      exact hlt
    generalize x.bits.toNat / signedLimit = sign at *
    obtain rfl | rfl : sign = 0 ∨ sign = 1 := by omega
    · simpa using hdiv
    · simpa using hdiv
  rw [ofMagnitude, hbits, UInt64.ofNat_toNat]

theorem le_significand {x : Binary64} (h : 0 < x.shift) : twoTo 52 ≤ x.significand := by
  have hne : x.exponentField ≠ 0 := by
    unfold shift at h
    omega
  rw [significand, if_neg hne]
  exact Nat.le_add_right _ _

end Binary64

namespace Decimal

open Binary64

/-! ## Rounding back -/

/-- A quotient in units lies in the interval. -/
def Interval.Covers (i : Interval) (n d : Nat) : Prop :=
  i.low * d ≤ 4 * n ∧ 4 * n ≤ i.high * d ∧
    (i.closed = true ∨ (i.low * d < 4 * n ∧ 4 * n < i.high * d))

theorem lt_of_log2_lt {units d shift : Nat} (hd : 0 < d) (h : Nat.log2 (units / d) - 52 < shift) :
    units < twoTo 52 * (d * twoTo shift) := by
  have hq : units / d < twoTo (52 + shift) := by
    rw [twoTo_eq]
    exact Nat.lt_of_lt_of_le Nat.lt_log2_self (Nat.pow_le_pow_right (by decide) (by omega))
  rw [Nat.div_lt_iff_lt_mul hd, twoTo_add] at hq
  rwa [Nat.mul_comm d, ← Nat.mul_assoc]

theorem le_of_lt_log2 {units d shift : Nat} (hd : 0 < d) (h : shift < Nat.log2 (units / d) - 52) :
    twoTo 53 * (d * twoTo shift) ≤ units := by
  have hne : units / d ≠ 0 := by
    intro hzero
    rw [hzero] at h
    simp at h
  have hq : twoTo (53 + shift) ≤ units / d := by
    rw [twoTo_eq]
    exact Nat.le_trans (Nat.pow_le_pow_right (by decide) (by omega)) (Nat.log2_self_le hne)
  rw [Nat.le_div_iff_mul_le hd, twoTo_add] at hq
  rwa [Nat.mul_comm d, ← Nat.mul_assoc]

/-- How far the interval goes below a number, in quarters of its last digit: half as far at a power
of two. -/
def gapBelow (x : Binary64) : Nat := if x.significand = twoTo 52 ∧ 0 < x.shift then 1 else 2

/-- The interval of a number, in multiples of its last digit. -/
theorem covers_iff {x : Binary64} {n d : Nat} :
    (Interval.of x).Covers n d ↔
      4 * (x.significand * (d * twoTo x.shift)) - gapBelow x * (d * twoTo x.shift) ≤ 4 * n ∧
      4 * n ≤ 4 * (x.significand * (d * twoTo x.shift)) + 2 * (d * twoTo x.shift) ∧
      (x.significand % 2 = 0 ∨
        (4 * (x.significand * (d * twoTo x.shift)) - gapBelow x * (d * twoTo x.shift) < 4 * n ∧
          4 * n < 4 * (x.significand * (d * twoTo x.shift)) + 2 * (d * twoTo x.shift))) := by
  have hvalue : x.units * d = x.significand * (d * twoTo x.shift) := by
    rw [units]; ac_rfl
  have hhigh : (Interval.of x).high * d =
      4 * (x.significand * (d * twoTo x.shift)) + 2 * (d * twoTo x.shift) := by
    rw [← hvalue, Nat.mul_comm d, ← Nat.mul_assoc, ← Nat.mul_assoc, ← Nat.add_mul]; rfl
  have hlow : (Interval.of x).low * d =
      4 * (x.significand * (d * twoTo x.shift)) - gapBelow x * (d * twoTo x.shift) := by
    rw [← hvalue, Nat.mul_comm d, ← Nat.mul_assoc, ← Nat.mul_assoc, ← Nat.sub_mul]
    unfold Interval.of gapBelow
    dsimp only
    split <;> simp only [Nat.one_mul]
  have hclosed : (Interval.of x).closed = true ↔ x.significand % 2 = 0 := by
    simp [Interval.of]
  rw [Interval.Covers, hlow, hhigh, hclosed]

section

variable {x : Binary64} {units d : Nat}

theorem gapBelow_le (x : Binary64) : gapBelow x ≤ 2 := by
  unfold gapBelow
  split <;> omega

/-- A quotient in the interval has no more digits in front than the number. -/
theorem log2_le_of_covers (hd : 0 < d) (h : (Interval.of x).Covers units d) :
    Nat.log2 (units / d) - 52 ≤ x.shift := by
  obtain ⟨-, hhigh, -⟩ := covers_iff.1 h
  refine Nat.le_of_not_lt fun hgt => ?_
  have h53 : twoTo 53 = twoTo 52 + twoTo 52 := by rw [twoTo_succ]; omega
  have hgap : 0 < d * twoTo x.shift := Nat.mul_pos hd (twoTo_pos _)
  have habove := le_of_lt_log2 hd hgt
  have hsig := significand_lt x
  have hmul := Nat.mul_le_mul_right (d * twoTo x.shift) (Nat.succ_le_of_lt hsig)
  rw [Nat.succ_mul] at hmul
  omega

/-- It has less only just below a power of two. -/
theorem significand_of_log2_lt (hd : 0 < d) (h : (Interval.of x).Covers units d)
    (hlt : Nat.log2 (units / d) - 52 < x.shift) : x.significand = twoTo 52 := by
  obtain ⟨hlow, -, -⟩ := covers_iff.1 h
  refine Nat.le_antisymm (Nat.le_of_not_lt fun hgreater => ?_) (le_significand (by omega))
  have hgap : 0 < d * twoTo x.shift := Nat.mul_pos hd (twoTo_pos _)
  have hbelow := lt_of_log2_lt hd hlt
  have hmul := Nat.mul_le_mul_right (d * twoTo x.shift) (Nat.succ_le_of_lt hgreater)
  have htwo := Nat.mul_le_mul_right (d * twoTo x.shift) (gapBelow_le x)
  rw [Nat.succ_mul] at hmul
  omega

theorem roundEven_of_covers (hd : 0 < d) (h : (Interval.of x).Covers units d) :
    roundEven units (d * twoTo x.shift) = x.significand := by
  obtain ⟨hlow, hhigh, hclosed⟩ := covers_iff.1 h
  have htwo := Nat.mul_le_mul_right (d * twoTo x.shift) (gapBelow_le x)
  refine roundEven_eq (Nat.mul_pos hd (twoTo_pos _)) (by omega) (by omega) ?_
  rcases hclosed with heven | ⟨hlow, hhigh⟩
  · exact .inl heven
  · exact .inr ⟨by omega, by omega⟩

/-- Just below a power of two the exponent is one less, and the quotient is rounded up to the
power. -/
theorem roundEven_of_covers_power {k : Nat} (hd : 0 < d) (h : (Interval.of x).Covers units d)
    (hpower : x.significand = twoTo 52) (hk : x.shift = k + 1)
    (hlog : Nat.log2 (units / d) - 52 ≤ k) :
    Nat.log2 (units / d) - 52 = k ∧ roundEven units (d * twoTo k) = twoTo 53 := by
  obtain ⟨hlow, -, -⟩ := covers_iff.1 h
  have hdouble : d * twoTo x.shift = 2 * (d * twoTo k) := by
    rw [hk, twoTo_succ]
    ac_rfl
  have hbelow := lt_of_log2_lt hd (Nat.lt_of_le_of_lt hlog (by omega : k < x.shift))
  have hone : gapBelow x = 1 := if_pos ⟨hpower, by omega⟩
  have h52 : twoTo 52 * (2 * (d * twoTo k)) = 2 * (twoTo 52 * (d * twoTo k)) := by ac_rfl
  have h53 : twoTo 53 * (d * twoTo k) = 2 * (twoTo 52 * (d * twoTo k)) := by
    rw [twoTo_succ, Nat.mul_assoc]
  have hgap : 0 < d * twoTo k := Nat.mul_pos hd (twoTo_pos k)
  have hleast := Nat.le_mul_of_pos_left (d * twoTo k) (twoTo_pos 52)
  rw [hone, hpower, hdouble] at hlow
  rw [hdouble] at hbelow
  refine ⟨Nat.le_antisymm hlog (Nat.le_of_not_lt fun hless => ?_), ?_⟩
  · have hsmall := lt_of_log2_lt hd hless
    omega
  · exact roundEven_eq hgap (by omega) (by omega) (.inl (by decide))

end

/-- A quotient in the rounding interval of a number is rounded to it. -/
theorem roundedBits_of_covers {x : Binary64} {n d : Nat} (hd : 0 < d)
    (h : (Interval.of x).Covers (n * unit) d) : roundedBits n d = x.magnitudeBits := by
  have hbits : roundedBits n d = (Nat.log2 (n * unit / d) - 52) * twoTo 52 +
      roundEven (n * unit) (d * twoTo (Nat.log2 (n * unit / d) - 52)) := rfl
  rw [hbits, magnitudeBits_eq]
  rcases Nat.eq_or_lt_of_le (log2_le_of_covers hd h) with heq | hlt
  · rw [heq, roundEven_of_covers hd h]
  · have hpower := significand_of_log2_lt hd h hlt
    obtain ⟨k, hk⟩ := Nat.exists_eq_add_one_of_ne_zero (Nat.ne_of_gt (Nat.zero_lt_of_lt hlt))
    obtain ⟨hlog, hround⟩ := roundEven_of_covers_power hd h hpower hk (by omega)
    have h53 : twoTo 53 = twoTo 52 + twoTo 52 := by rw [twoTo_succ]; omega
    rw [hlog, hround, hk, hpower, h53, Nat.add_one_mul k]
    omega

theorem ofRatio_of_covers {x : Binary64} {n d : Nat} (hf : x.isFinite = true) (hd : 0 < d)
    (h : (Interval.of x).Covers (n * unit) d) : ofRatio x.isNegative n d = x := by
  have hbits := roundedBits_of_covers hd h
  have hfin := (isFinite_iff x).1 hf
  rw [ofRatio_eq, hbits, Nat.min_eq_left (Nat.le_of_lt hfin), ofMagnitude_magnitudeBits]

/-! ## The decimals of the interval -/

/-- A number lies in the interval. -/
def Interval.Contains (i : Interval) (v : ℚ) : Prop :=
  i.low ≤ v * (4 * unit) ∧ v * (4 * unit) ≤ i.high ∧
    (i.closed = true ∨ (i.low < v * (4 * unit) ∧ v * (4 * unit) < i.high))

theorem covers_of_contains {i : Interval} {n d : Nat} (hd : 0 < d) (h : i.Contains (n / d)) :
    i.Covers (n * unit) d := by
  have hd' : (0 : ℚ) < d := Nat.cast_pos.2 hd
  have hv : (n : ℚ) / d * (4 * unit) = 4 * (n * unit) / d := by ring
  simp only [Interval.Contains, hv, le_div_iff₀ hd', div_le_iff₀ hd', lt_div_iff₀ hd',
    div_lt_iff₀ hd'] at h
  simp only [Interval.Covers]
  exact_mod_cast h

theorem contains_of_holds {i : Interval} {s : Scientific}
    (h : i.holds s.exponent s.digits = true) : i.Contains s.value := by
  simp only [Interval.Contains, ← not_le, le_value_iff, value_le_iff]
  unfold Interval.holds at h
  split at h
  · rename_i hclosed
    simp only [Bool.and_eq_true, decide_eq_true_eq] at h
    exact ⟨h.1, h.2, .inl hclosed⟩
  · simp only [Bool.and_eq_true, decide_eq_true_eq] at h
    exact ⟨h.1.le, h.2.le, .inr ⟨h.1.not_ge, h.2.not_ge⟩⟩

/-- The shortest decimal of a number lies in its rounding interval. -/
theorem contains_shortest {x : Binary64} (hx : x.isZero = false) (tie : Tie) :
    (Interval.of x).Contains (shortest tie x).value := by
  obtain ⟨s, n, _, hgrid, hshort⟩ := exists_onGrid?_of_shortest hx tie
  obtain ⟨he, _, hholds, _⟩ := onGrid?_spec hgrid
  rw [← he] at hholds
  rw [hshort, value_strip]
  exact contains_of_holds (hholds)

/-! ## The decimals of any digits -/

theorem two_pow_le_ten_pow : (2 : Nat) ^ 13301 ≤ 10 ^ 4004 := by decide +kernel

/-- How many digits `2 ^ k` has, estimated. -/
def estimate (k : Nat) : Nat := k * 30103 / 100000

theorem two_pow_lt (k : Nat) : 2 ^ k < 10 ^ (estimate k + 1) := by
  refine pow_lt_pow_of_ratio (by decide) two_pow_le_ten_pow ?_
  unfold estimate
  omega

theorem ten_pow_lt {k : Nat} (hk : k < 90000) : 10 ^ estimate k < 2 ^ (k + 3) := by
  have h := @tenTo_lt_twoTo (estimate k) (k + 3)
  rw [tenTo_eq, twoTo_eq] at h
  refine h ?_
  unfold estimate
  omega

/-- The estimate of the leading exponent of a decimal is next to it. -/
theorem value_bounds {s : Scientific} (h0 : s.digits ≠ 0) (hsize : s.digits < tenTo 2000) :
    (10 : ℚ) ^ (s.exponent + (estimate (Nat.log2 s.digits) : Int) - 1) ≤ s.value ∧
      s.value ≤ (10 : ℚ) ^ (s.exponent + (estimate (Nat.log2 s.digits) : Int) + 2) := by
  have hlow := Nat.log2_self_le h0
  have hhigh := @Nat.lt_log2_self s.digits
  have hk : Nat.log2 s.digits < 90000 := by
    have hpow : tenTo 2000 < 2 ^ 8000 := twoTo_eq 8000 ▸ tenTo_lt_twoTo (by decide)
    have := (Nat.log2_lt h0).2 (Nat.lt_trans hsize hpow)
    omega
  have htwo := two_pow_lt (Nat.log2 s.digits)
  have hten := ten_pow_lt hk
  rw [Nat.pow_succ] at hhigh htwo
  rw [Nat.pow_add] at hten
  have hten' : 10 ^ estimate (Nat.log2 s.digits) ≤ 10 * s.digits := by omega
  have htwo' : s.digits ≤ 10 ^ estimate (Nat.log2 s.digits) * 100 := by omega
  have hpos : (0 : ℚ) < (10 : ℚ) ^ s.exponent := zpow_pos (by norm_num) _
  have hadd (n : Int) : (10 : ℚ) ^ (s.exponent + (estimate (Nat.log2 s.digits) : Int) + n) =
      (10 : ℚ) ^ estimate (Nat.log2 s.digits) * (10 : ℚ) ^ n * (10 : ℚ) ^ s.exponent := by
    rw [zpow_add₀ (by norm_num), zpow_add₀ (by norm_num), zpow_natCast]
    ring
  rw [sub_eq_add_neg, hadd, hadd, Scientific.value]
  constructor
  · refine mul_le_mul_of_nonneg_right ?_ hpos.le
    have : (10 : ℚ) ^ estimate (Nat.log2 s.digits) ≤ 10 * s.digits := by exact_mod_cast hten'
    rw [zpow_neg_one]
    linarith
  · refine mul_le_mul_of_nonneg_right ?_ hpos.le
    have : (s.digits : ℚ) ≤ (10 : ℚ) ^ estimate (Nat.log2 s.digits) * 100 := by
      exact_mod_cast htwo'
    norm_num
    linarith

theorem interval_bounds {x : Binary64} (hf : x.isFinite = true) (hx : x.isZero = false) :
    1 ≤ (Interval.of x).low ∧ (Interval.of x).high < 6 * tenTo 700 := by
  have hunits := units_lt hf
  have hpos := units_pos hx
  have hgap : twoTo x.shift ≤ x.units := Nat.le_mul_of_pos_left _ (significand_pos hx)
  have hlow : 4 * x.units - 2 * twoTo x.shift ≤ (Interval.of x).low := by
    unfold Interval.of
    dsimp only
    split <;> omega
  have hhigh : (Interval.of x).high = 4 * x.units + 2 * twoTo x.shift := rfl
  omega

/-- A decimal in the interval of a finite number is too small for the exponents that are taken for
infinite. -/
theorem exponent_le_of_contains {x : Binary64} (hf : x.isFinite = true) (hx : x.isZero = false)
    {v : ℚ} (h : (Interval.of x).Contains v) {e : Int} (hv : (10 : ℚ) ^ (e - 1) ≤ v) : e ≤ 400 := by
  refine Int.not_lt.1 fun hlt => ?_
  have hunit := cast_unit_pos
  have hbig : 6 * tenTo 700 ≤ tenTo 400 * (4 * unit) := by
    have hsplit : tenTo 700 = tenTo 400 * tenTo 300 := tenTo_add 400 300
    have hless : tenTo 300 < twoTo 1073 := tenTo_lt_twoTo (by decide)
    have hunit : unit = 2 * twoTo 1073 := twoTo_succ 1073
    rw [hsplit, Nat.mul_left_comm]
    exact Nat.mul_le_mul_left _ (by omega)
  have hvalue : (tenTo 400 : ℚ) ≤ v := by
    refine le_trans ?_ hv
    rw [tenTo_eq, Nat.cast_pow, Nat.cast_ofNat, ← zpow_natCast]
    exact zpow_le_zpow_right₀ (by norm_num) (by omega)
  have hcontra : (tenTo 400 : ℚ) * (4 * unit) < (6 * tenTo 700 : Nat) :=
    calc (tenTo 400 : ℚ) * (4 * unit) ≤ v * (4 * unit) :=
          mul_le_mul_of_nonneg_right hvalue (by linarith)
      _ ≤ (Interval.of x).high := h.2.1
      _ < (6 * tenTo 700 : Nat) := Nat.cast_lt.2 (interval_bounds hf hx).2
  exact Nat.not_lt.2 hbig (by exact_mod_cast hcontra)

/-- And too large for those that are taken for zero. -/
theorem le_exponent_of_contains {x : Binary64} (hf : x.isFinite = true) (hx : x.isZero = false)
    {v : ℚ} (h : (Interval.of x).Contains v) {e : Int} (hv : v ≤ (10 : ℚ) ^ (e + 2)) :
    -400 ≤ e := by
  refine Int.not_lt.1 fun hlt => ?_
  have hunit := cast_unit_pos
  have hsmall : 4 * unit < tenTo 399 :=
    (twoTo_add 2 1074).symm ▸ twoTo_lt_tenTo (by decide)
  have hpos : (0 : ℚ) < (tenTo 399 : Nat) := Nat.cast_pos.2 (tenTo_pos _)
  have hvalue : v ≤ ((tenTo 399 : Nat) : ℚ)⁻¹ := by
    refine le_trans hv ?_
    rw [tenTo_eq, Nat.cast_pow, Nat.cast_ofNat, ← zpow_natCast, ← zpow_neg]
    exact zpow_le_zpow_right₀ (by norm_num) (by omega)
  have hlow : (1 : ℚ) ≤ v * (4 * unit) :=
    le_trans (by exact_mod_cast (interval_bounds hf hx).1) h.1
  have hcontra : (1 : ℚ) * (tenTo 399 : Nat) ≤ 4 * unit :=
    calc (1 : ℚ) * (tenTo 399 : Nat) ≤ v * (4 * unit) * (tenTo 399 : Nat) :=
          mul_le_mul_of_nonneg_right hlow hpos.le
      _ ≤ ((tenTo 399 : Nat) : ℚ)⁻¹ * (4 * unit) * (tenTo 399 : Nat) := by
          refine mul_le_mul_of_nonneg_right ?_ hpos.le
          exact mul_le_mul_of_nonneg_right hvalue (by linarith)
      _ = 4 * unit := by field_simp
  rw [one_mul] at hcontra
  exact Nat.not_le.2 hsmall (by exact_mod_cast hcontra)

/-- Inside the range of the format a decimal is rounded as a quotient. -/
theorem ofDecimal_eq_ofRatio {x : Binary64} (hf : x.isFinite = true) {s : Scientific}
    (h0 : s.digits ≠ 0) (hsize : s.digits < tenTo 2000) (h : (Interval.of x).Contains s.value)
    (hx : x.isZero = false) (negative : Bool) :
    ofDecimal negative s.digits s.exponent =
      ofRatio negative (s.digits * tenTo s.exponent.toNat) (tenTo (-s.exponent).toNat) := by
  obtain ⟨hlow, hhigh⟩ := value_bounds h0 hsize
  have hlead : s.exponent + (Nat.log2 s.digits : Int) * 30103 / 100000 =
      s.exponent + (estimate (Nat.log2 s.digits) : Int) := by
    unfold estimate
    omega
  have hmost := exponent_le_of_contains hf hx h hlow
  have hleast := le_exponent_of_contains hf hx h hhigh
  unfold ofDecimal
  dsimp only
  rw [if_neg h0, hlead, if_neg (Int.not_lt.2 hmost), if_neg (Int.not_lt.2 hleast)]
  by_cases he : 0 ≤ s.exponent
  · have hneg : (-s.exponent).toNat = 0 := by omega
    rw [if_pos he, hneg]
    rfl
  · have hpos : s.exponent.toNat = 0 := by omega
    rw [if_neg he, hpos, tenTo_zero, Nat.mul_one]

theorem value_eq_div (s : Scientific) :
    s.value =
      ((s.digits * tenTo s.exponent.toNat : Nat) : ℚ) / (tenTo (-s.exponent).toNat : Nat) := by
  rw [Scientific.value, zpow_eq_tenTo, Nat.cast_mul]
  ring

/-- A finite number is read from every decimal that is equal to its shortest one. -/
theorem ofDecimal_of_value {x : Binary64} (hf : x.isFinite = true) {tie : Tie} {s : Scientific}
    (hsize : s.digits < tenTo 2000) (hv : s.value = (shortest tie x).value) :
    ofDecimal x.isNegative s.digits s.exponent = x := by
  by_cases hx : x.isZero = true
  · have hzero : shortest tie x = ⟨0, 0⟩ := by rw [shortest, if_pos hx]
    have hdigits : s.digits = 0 := by
      rw [← value_eq_zero_iff, hv, hzero, value_eq_zero_iff]
    have hbits : x.magnitudeBits = 0 := of_decide_eq_true hx
    rw [ofDecimal, if_pos hdigits, zero, ← hbits, ofMagnitude_magnitudeBits]
  · have hx : x.isZero = false := Bool.eq_false_iff.2 hx
    have hcontains := contains_shortest hx tie
    have h0 : s.digits ≠ 0 := by
      rw [ne_eq, ← value_eq_zero_iff, hv, value_eq_zero_iff]
      exact (shortest_spec hx tie).2.1
    rw [← hv] at hcontains
    rw [ofDecimal_eq_ofRatio hf h0 hsize hcontains hx]
    rw [value_eq_div] at hcontains
    exact ofRatio_of_covers hf (tenTo_pos _) (covers_of_contains (tenTo_pos _) hcontains)

end Decimal
end FrameEngine
