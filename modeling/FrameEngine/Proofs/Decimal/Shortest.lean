import FrameEngine.Decimal.Shortest
import FrameEngine.Proofs.Decimal.Rounding
import Mathlib.Algebra.Order.Field.Power
import Mathlib.Data.Rat.Cast.Order
import Mathlib.Tactic.FieldSimp
import Mathlib.Tactic.Linarith
import Mathlib.Tactic.Ring
import Mathlib.Tactic.NormNum

/-!
# FrameEngine.Proofs.Decimal.Shortest

The shortest decimal of a finite number has a bounded count of digits and lies in the rounding
interval of the number (`shortest_spec`): of the grids that are tried the one of seventeen digits is
finer than the interval. Hence the product of its digits and its power of ten, each rounded to the
format, is finite again (`isFinite_digits_mul`). For the largest number that rests on the digits it
has, since one more in the last place would be too much.
-/

namespace FrameEngine

theorem tenTo_eq (n : Nat) : tenTo n = 10 ^ n := rfl

theorem tenTo_pos (n : Nat) : 0 < tenTo n := Nat.pow_pos (by decide)

theorem tenTo_le {m n : Nat} (h : m ≤ n) : tenTo m ≤ tenTo n :=
  Nat.pow_le_pow_right (by decide) h

theorem tenTo_add (m n : Nat) : tenTo (m + n) = tenTo m * tenTo n := Nat.pow_add 10 m n

/-- Powers of two bases, compared through one pair of exponents. -/
theorem pow_lt_pow_of_ratio {x y a b m n : Nat} (hy : 1 < y) (h : x ^ a ≤ y ^ b)
    (hlt : b * m < a * n) : x ^ m < y ^ n := by
  refine Nat.lt_of_not_le fun hle => ?_
  have hpow : y ^ (a * n) ≤ y ^ (b * m) :=
    calc y ^ (a * n) = (y ^ n) ^ a := by rw [← Nat.pow_mul, Nat.mul_comm]
      _ ≤ (x ^ m) ^ a := Nat.pow_le_pow_left hle a
      _ = (x ^ a) ^ m := by rw [← Nat.pow_mul, ← Nat.pow_mul, Nat.mul_comm]
      _ ≤ (y ^ b) ^ m := Nat.pow_le_pow_left h m
      _ = y ^ (b * m) := by rw [← Nat.pow_mul]
  have := (Nat.pow_le_pow_iff_right hy).1 hpow
  omega

theorem twoTo_lt_tenTo {m n : Nat} (h : 28 * m < 93 * n) : twoTo m < tenTo n := by
  rw [twoTo_eq, tenTo_eq]
  exact pow_lt_pow_of_ratio (by decide) (by decide : 2 ^ 93 ≤ 10 ^ 28) h

theorem tenTo_lt_twoTo {m n : Nat} (h : 196 * m < 59 * n) : tenTo m < twoTo n := by
  rw [twoTo_eq, tenTo_eq]
  exact pow_lt_pow_of_ratio (by decide) (by decide : 10 ^ 59 ≤ 2 ^ 196) h

/-- A power of ten as the quotient of two powers with exponents that are not negative. -/
theorem zpow_eq_tenTo (e : Int) : (10 : ℚ) ^ e = tenTo e.toNat / tenTo (-e).toNat := by
  simp only [tenTo_eq, Nat.cast_pow, Nat.cast_ofNat]
  rcases Int.le_total 0 e with h | h
  · obtain ⟨n, rfl⟩ := Int.eq_ofNat_of_zero_le h
    simp
  · obtain ⟨n, hn⟩ := Int.eq_ofNat_of_zero_le (Int.neg_nonneg.2 h)
    obtain rfl : e = -(n : Int) := by omega
    simp

namespace Decimal

open Binary64

/-- The number that a decimal is. -/
def Scientific.value (s : Scientific) : ℚ := s.digits * (10 : ℚ) ^ s.exponent

theorem value_eq_zero_iff (s : Scientific) : s.value = 0 ↔ s.digits = 0 := by
  have hpow : (10 : ℚ) ^ s.exponent ≠ 0 := zpow_ne_zero _ (by norm_num)
  rw [Scientific.value, mul_eq_zero, Nat.cast_eq_zero]
  exact or_iff_left hpow

/-- The number in a count of units. -/
def ofUnits (u : Nat) : ℚ := u / unit

theorem unit_pos : 0 < unit := twoTo_pos 1074

theorem cast_unit_pos : (0 : ℚ) < unit := Nat.cast_pos.2 unit_pos

theorem lt_digitCount {n : Nat} : n < 10 ^ digitCount n :=
  (Nat.length_toDigits_le_iff (by decide) Nat.length_toDigits_pos).1 (Nat.le_refl _)

theorem digitCount_le_of_lt {n k : Nat} (hk : 0 < k) (h : n < tenTo k) : digitCount n ≤ k :=
  (Nat.length_toDigits_le_iff (by decide) hk).2 h

theorem pow_digitCount_le {n : Nat} (hn : n ≠ 0) : 10 ^ (digitCount n - 1) ≤ n := by
  refine Nat.le_of_not_lt fun h => ?_
  rcases Nat.eq_zero_or_pos (digitCount n - 1) with h0 | h0
  · rw [h0] at h; omega
  · have := (Nat.length_toDigits_le_iff (by decide) h0).2 h
    unfold digitCount at *
    omega

/-- The leading digit of a number stands at its leading exponent, or one place above. -/
theorem leadingExponent_spec {u : Nat} (hu : u ≠ 0) :
    (10 : ℚ) ^ leadingExponent u ≤ ofUnits u ∧ ofUnits u ≤ (10 : ℚ) ^ (leadingExponent u + 1) := by
  have hunit := cast_unit_pos
  have hu' : (0 : ℚ) < u := Nat.cast_pos.2 (Nat.pos_of_ne_zero hu)
  unfold leadingExponent ofUnits
  split
  · rename_i h
    have hq : u / unit ≠ 0 := (Nat.div_pos h unit_pos).ne'
    obtain ⟨k, hk⟩ : ∃ k, digitCount (u / unit) = k + 1 :=
      ⟨_, (Nat.sub_add_cancel (Nat.length_toDigits_pos)).symm⟩
    have h1 := pow_digitCount_le hq
    have h2 := @lt_digitCount (u / unit)
    rw [hk] at h1 h2 ⊢
    rw [Nat.le_div_iff_mul_le unit_pos] at h1
    rw [Nat.div_lt_iff_lt_mul unit_pos] at h2
    have e1 : ((k + 1 : Nat) : Int) - 1 = k := by omega
    have e2 : (k : Int) + 1 = (k + 1 : Nat) := by omega
    rw [e1, e2, zpow_natCast, zpow_natCast, le_div_iff₀ hunit, div_le_iff₀ hunit]
    exact ⟨by exact_mod_cast h1, by exact_mod_cast h2.le⟩
  · rename_i h
    have hq : unit / u ≠ 0 := (Nat.div_pos (by omega) (Nat.pos_of_ne_zero hu)).ne'
    obtain ⟨k, hk⟩ : ∃ k, digitCount (unit / u) = k + 1 :=
      ⟨_, (Nat.sub_add_cancel (Nat.length_toDigits_pos)).symm⟩
    have h1 := pow_digitCount_le hq
    have h2 := @lt_digitCount (unit / u)
    rw [hk] at h1 h2 ⊢
    rw [Nat.le_div_iff_mul_le (Nat.pos_of_ne_zero hu)] at h1
    rw [Nat.div_lt_iff_lt_mul (Nat.pos_of_ne_zero hu)] at h2
    have e2 : -((k + 1 : Nat) : Int) + 1 = -(k : Int) := by omega
    have hpow : ∀ n : Nat, (0 : ℚ) < 10 ^ n := fun n => by positivity
    have hquot : (0 : ℚ) < u / unit := div_pos hu' hunit
    rw [e2, zpow_neg, zpow_neg, zpow_natCast, zpow_natCast, inv_le_comm₀ (hpow _) hquot, inv_div,
      le_inv_comm₀ hquot (hpow _), inv_div, div_le_iff₀ hu', le_div_iff₀ hu']
    exact ⟨by exact_mod_cast h2.le, by exact_mod_cast h1⟩

/-! ## The decimals of one grid -/

/-- By how much values are stretched so that the grid of an exponent has whole steps. -/
def stretch (e : Int) : Nat := tenTo (-e).toNat

/-- The step of the grid of an exponent in quarters of a unit, stretched. -/
def step (e : Int) : Nat := 4 * unit * tenTo e.toNat

theorem step_pos (e : Int) : 0 < step e :=
  Nat.mul_pos (Nat.mul_pos (by decide) unit_pos) (tenTo_pos _)

theorem cast_step (e : Int) : (step e : ℚ) = 4 * unit * (10 : ℚ) ^ e * stretch e := by
  have h : (0 : ℚ) < stretch e := Nat.cast_pos.2 (tenTo_pos _)
  rw [zpow_eq_tenTo]
  simp only [step, stretch, Nat.cast_mul, Nat.cast_ofNat] at *
  field_simp

theorem value_mul_stretch (s : Scientific) :
    s.value * (4 * unit) * stretch s.exponent = s.digits * step s.exponent := by
  rw [cast_step, Scientific.value]
  ring

theorem le_value_iff (s : Scientific) (m : Nat) :
    (m : ℚ) ≤ s.value * (4 * unit) ↔ m * stretch s.exponent ≤ s.digits * step s.exponent := by
  have ht : (0 : ℚ) < stretch s.exponent := Nat.cast_pos.2 (tenTo_pos _)
  rw [← mul_le_mul_iff_left₀ ht, value_mul_stretch]
  exact_mod_cast Iff.rfl

theorem value_le_iff (s : Scientific) (m : Nat) :
    s.value * (4 * unit) ≤ (m : ℚ) ↔ s.digits * step s.exponent ≤ m * stretch s.exponent := by
  have ht : (0 : ℚ) < stretch s.exponent := Nat.cast_pos.2 (tenTo_pos _)
  rw [← mul_le_mul_iff_left₀ ht, value_mul_stretch]
  exact_mod_cast Iff.rfl

/-- Whether a decimal of a grid lies in the interval. -/
def Interval.holds (i : Interval) (e : Int) (c : Nat) : Bool :=
  if i.closed then i.low * stretch e ≤ c * step e && c * step e ≤ i.high * stretch e
  else i.low * stretch e < c * step e && c * step e < i.high * stretch e

/-- A grid gives the nearest of its decimals, or else the second nearest, if they lie in the
interval; the nearest one is within half a step. -/
theorem onGrid?_cases (i : Interval) (tie : Tie) (e : Int) :
    ∃ near far : Nat, near ≤ i.value * stretch e / step e + 1 ∧
      far ≤ i.value * stretch e / step e + 1 ∧
      2 * (near * step e) ≤ 2 * (i.value * stretch e) + step e ∧
      2 * (i.value * stretch e) ≤ 2 * (near * step e) + step e ∧
      i.onGrid? tie e = if near ≠ 0 ∧ i.holds e near = true then some ⟨near, e⟩
        else if far ≠ 0 ∧ i.holds e far = true then some ⟨far, e⟩ else none := by
  have hd := Nat.div_add_mod (i.value * stretch e) (step e)
  have hr := Nat.mod_lt (i.value * stretch e) (step_pos e)
  have heq : i.onGrid? tie e =
      let below := i.value * stretch e / step e
      let rest := i.value * stretch e % step e
      let nearBelow := 2 * rest < step e || (2 * rest == step e && tie == .toEven && below % 2 == 0)
      let near := if nearBelow then below else below + 1
      let far := if nearBelow then below + 1 else below
      if near ≠ 0 ∧ i.holds e near = true then some ⟨near, e⟩
      else if far ≠ 0 ∧ i.holds e far = true then some ⟨far, e⟩ else none := rfl
  rw [heq]
  generalize i.value * stretch e / step e = below at *
  generalize i.value * stretch e % step e = rest at *
  have hs : (below + 1) * step e = step e * below + step e := by
    rw [Nat.add_mul, Nat.one_mul, Nat.mul_comm]
  have hb : below * step e = step e * below := Nat.mul_comm _ _
  dsimp only
  split
  · rename_i hn
    simp only [Bool.or_eq_true, decide_eq_true_eq, Bool.and_eq_true, beq_iff_eq] at hn
    exact ⟨below, below + 1, Nat.le_succ _, Nat.le_refl _, by omega, by omega, rfl⟩
  · rename_i hn
    simp only [Bool.or_eq_true, decide_eq_true_eq, Bool.and_eq_true, beq_iff_eq, not_or] at hn
    exact ⟨below + 1, below, Nat.le_refl _, Nat.le_succ _, by omega, by omega, rfl⟩

theorem le_high_of_holds {i : Interval} {e : Int} {c : Nat} (h : i.holds e c = true) :
    c * step e ≤ i.high * stretch e := by
  unfold Interval.holds at h
  split at h <;> simp only [Bool.and_eq_true, decide_eq_true_eq] at h <;> omega

theorem holds_of_lt {i : Interval} {e : Int} {c : Nat} (hl : i.low * stretch e < c * step e)
    (hh : c * step e < i.high * stretch e) : i.holds e c = true := by
  unfold Interval.holds
  split <;> simp only [Bool.and_eq_true, decide_eq_true_eq] <;> omega

/-- Whatever a grid gives lies in the interval and next to the value. -/
theorem onGrid?_spec {i : Interval} {tie : Tie} {e : Int} {s : Scientific}
    (h : i.onGrid? tie e = some s) :
    s.exponent = e ∧ s.digits ≠ 0 ∧ i.holds e s.digits = true ∧
      s.digits ≤ i.value * stretch e / step e + 1 := by
  obtain ⟨near, far, hnear, hfar, _, _, heq⟩ := onGrid?_cases i tie e
  rw [heq] at h
  split at h
  · rename_i hc
    cases h
    exact ⟨rfl, hc.1, hc.2, hnear⟩
  · split at h
    · rename_i hc
      cases h
      exact ⟨rfl, hc.1, hc.2, hfar⟩
    · cases h

/-- A grid that is fine enough gives a decimal. -/
theorem isSome_onGrid? {i : Interval} (tie : Tie) {e : Int} (hv : step e ≤ i.value * stretch e)
    (hl : 2 * (i.low * stretch e) + step e < 2 * (i.value * stretch e))
    (hh : 2 * (i.value * stretch e) + step e < 2 * (i.high * stretch e)) :
    (i.onGrid? tie e).isSome = true := by
  obtain ⟨near, far, _, _, h1, h2, heq⟩ := onGrid?_cases i tie e
  have hn : near ≠ 0 := by
    rintro rfl
    rw [Nat.zero_mul] at h2
    have := step_pos e
    omega
  rw [heq, if_pos ⟨hn, holds_of_lt (by omega) (by omega)⟩]
  rfl

/-! ## Seventeen digits -/

theorem significand_lt (x : Binary64) : x.significand < twoTo 53 := by
  have h := Nat.mod_lt x.magnitudeBits (twoTo_pos 52)
  have h53 : twoTo 53 = twoTo 52 + twoTo 52 := by rw [twoTo_succ]; omega
  unfold significand
  split
  · rename_i h0
    have := (Nat.div_eq_zero_iff_lt (twoTo_pos 52)).1 h0
    omega
  · omega

theorem significand_pos {x : Binary64} (hx : x.isZero = false) : 0 < x.significand := by
  have h0 : x.magnitudeBits ≠ 0 := of_decide_eq_false hx
  have := twoTo_pos 52
  unfold significand
  split <;> omega

theorem units_pos {x : Binary64} (hx : x.isZero = false) : 0 < x.units :=
  Nat.mul_pos (significand_pos hx) (twoTo_pos _)

/-- Sixteen places behind the leading one the grid is fine. -/
theorem step_le (u : Nat) (hu : u ≠ 0) :
    step (leadingExponent u - 16) * 10 ^ 16 ≤ 4 * u * stretch (leadingExponent u - 16) := by
  have hlead := (leadingExponent_spec hu).1
  have hunit := cast_unit_pos
  generalize he : leadingExponent u - 16 = e
  have hpow : (10 : ℚ) ^ leadingExponent u = (10 : ℚ) ^ e * 10 ^ 16 := by
    rw [show leadingExponent u = e + 16 by omega, zpow_add₀ (by norm_num)]
    norm_num
  have ht : (0 : ℚ) < stretch e := Nat.cast_pos.2 (tenTo_pos _)
  have hcast : (step e : ℚ) * 10 ^ 16 ≤ 4 * u * stretch e := by
    rw [hpow, ofUnits, le_div_iff₀ hunit] at hlead
    rw [cast_step]
    calc 4 * (unit : ℚ) * 10 ^ e * (stretch e : ℚ) * 10 ^ 16
        = 4 * ((10 : ℚ) ^ e * 10 ^ 16 * unit) * (stretch e : ℚ) := by ring
      _ ≤ 4 * (u : ℚ) * (stretch e : ℚ) :=
        mul_le_mul_of_nonneg_right (mul_le_mul_of_nonneg_left hlead (by norm_num)) ht.le
  exact_mod_cast hcast

theorem isSome_onGrid?_of_lead {x : Binary64} (hx : x.isZero = false) (tie : Tie) :
    ((Interval.of x).onGrid? tie (leadingExponent x.units - 16)).isSome = true := by
  have hu := units_pos hx
  have hs := step_le x.units hu.ne'
  have hsig := significand_lt x
  have hsig0 := significand_pos hx
  generalize leadingExponent x.units - 16 = e at *
  have hT : 0 < stretch e := tenTo_pos _
  have hG : 0 < twoTo x.shift * stretch e := Nat.mul_pos (twoTo_pos _) hT
  have h52 : twoTo 52 = 4503599627370496 := rfl
  have h53 : twoTo 53 = 9007199254740992 := rfl
  have hU : x.units * stretch e = x.significand * (twoTo x.shift * stretch e) := by
    rw [units]; ac_rfl
  have hU' : x.significand * (twoTo x.shift * stretch e) ≤
      9007199254740992 * (twoTo x.shift * stretch e) := Nat.mul_le_mul_right _ (by omega)
  have hgap : twoTo x.shift * stretch e ≤ x.units * stretch e := by
    rw [hU]; exact Nat.le_mul_of_pos_left _ hsig0
  have hv : (Interval.of x).value * stretch e = 4 * (x.units * stretch e) := by
    rw [← Nat.mul_assoc]; rfl
  have hh : (Interval.of x).high * stretch e =
      4 * (x.units * stretch e) + 2 * (twoTo x.shift * stretch e) := by
    rw [← Nat.mul_assoc, ← Nat.mul_assoc, ← Nat.add_mul]; rfl
  have hl : (Interval.of x).low * stretch e = 4 * (x.units * stretch e) -
      (if x.significand = twoTo 52 ∧ 0 < x.shift then 1 else 2) * (twoTo x.shift * stretch e) := by
    rw [← Nat.mul_assoc, ← Nat.mul_assoc, ← Nat.sub_mul]
    unfold Interval.of
    dsimp only
    split <;> simp only [Nat.one_mul]
  rw [Nat.mul_assoc] at hs
  generalize twoTo x.shift * stretch e = g at *
  generalize x.units * stretch e = v at *
  refine isSome_onGrid? tie ?_ ?_ ?_
  · omega
  · rw [hv, hl]
    split
    · rename_i hc
      rw [hc.1, h52] at hU
      omega
    · omega
  · omega

/-! ## The shortest decimal -/

theorem value_strip (s : Scientific) (fuel : Nat) : (s.strip fuel).value = s.value := by
  induction fuel generalizing s with
  | zero => rfl
  | succ fuel ih =>
    unfold Scientific.strip
    split
    · rename_i hc
      rw [ih]
      have hd : s.digits = s.digits / 10 * 10 := by omega
      unfold Scientific.value
      dsimp only
      rw [zpow_add₀ (by norm_num), zpow_one]
      conv_rhs => rw [hd]
      push_cast
      ring
    · rfl

theorem strip_bounds (s : Scientific) (fuel : Nat) :
    (s.strip fuel).digits ≤ s.digits ∧ s.exponent ≤ (s.strip fuel).exponent ∧
      (s.strip fuel).exponent ≤ s.exponent + fuel := by
  induction fuel generalizing s with
  | zero => exact ⟨Nat.le_refl _, Int.le_refl _, by simp [Scientific.strip]⟩
  | succ fuel ih =>
    unfold Scientific.strip
    split
    · obtain ⟨h1, h2, h3⟩ := ih ⟨s.digits / 10, s.exponent + 1⟩
      dsimp only at h1 h2 h3
      exact ⟨by omega, by omega, by push_cast; omega⟩
    · exact ⟨Nat.le_refl _, Int.le_refl _, by push_cast; omega⟩

/-- The quotient of the value by the step of a grid, at most so many digits behind the leading
one. -/
theorem value_div_step_le {u : Nat} (hu : u ≠ 0) (n : Nat) :
    4 * u * stretch (leadingExponent u - n) / step (leadingExponent u - n) ≤ 10 ^ (n + 1) := by
  have hlead := (leadingExponent_spec hu).2
  have hunit := cast_unit_pos
  generalize he : leadingExponent u - n = e
  have hpow : (10 : ℚ) ^ (leadingExponent u + 1) = (10 : ℚ) ^ e * 10 ^ (n + 1) := by
    rw [show leadingExponent u + 1 = e + (n + 1 : Nat) by push_cast; omega,
      zpow_add₀ (by norm_num), zpow_natCast]
  have ht : (0 : ℚ) < stretch e := Nat.cast_pos.2 (tenTo_pos _)
  refine Nat.div_le_of_le_mul ?_
  have hcast : 4 * (u : ℚ) * stretch e ≤ step e * 10 ^ (n + 1) := by
    rw [hpow, ofUnits, div_le_iff₀ hunit] at hlead
    rw [cast_step]
    calc 4 * (u : ℚ) * stretch e
        ≤ 4 * ((10 : ℚ) ^ e * 10 ^ (n + 1) * unit) * (stretch e : ℚ) :=
        mul_le_mul_of_nonneg_right (mul_le_mul_of_nonneg_left hlead (by norm_num)) ht.le
      _ = 4 * (unit : ℚ) * 10 ^ e * (stretch e : ℚ) * 10 ^ (n + 1) := by ring
  exact_mod_cast hcast

/-- The shortest decimal is one that a grid gives, without the zeros at its end. -/
theorem exists_onGrid?_of_shortest {x : Binary64} (hx : x.isZero = false) (tie : Tie) :
    ∃ (s : Scientific) (n : Nat), n < 17 ∧
      (Interval.of x).onGrid? tie (leadingExponent x.units - n) = some s ∧
      shortest tie x = s.strip 400 := by
  have hsome : ((List.range 17).findSome? fun (n : Nat) =>
      (Interval.of x).onGrid? tie (leadingExponent x.units - (n : Int))).isSome = true := by
    rw [List.findSome?_isSome_iff]
    exact ⟨16, by decide, isSome_onGrid?_of_lead hx tie⟩
  obtain ⟨s, hs⟩ := Option.isSome_iff_exists.1 hsome
  obtain ⟨n, hn, hgrid⟩ := List.exists_of_findSome?_eq_some hs
  refine ⟨s, n, List.mem_range.1 hn, hgrid, ?_⟩
  simp only [shortest, hx, Bool.false_eq_true, if_false, hs, Option.getD_some]

/-- The shortest decimal of a number other than zero: at most one above `10 ^ 17` in its digits,
not above the rounding interval, and with an exponent close to that of the leading digit. -/
theorem shortest_spec {x : Binary64} (hx : x.isZero = false) (tie : Tie) :
    (shortest tie x).digits ≤ 10 ^ 17 + 1 ∧ (shortest tie x).digits ≠ 0 ∧
      (shortest tie x).value * (4 * unit) ≤ (Interval.of x).high ∧
      leadingExponent x.units - 16 ≤ (shortest tie x).exponent ∧
      (shortest tie x).exponent ≤ leadingExponent x.units + 400 := by
  have hu := (units_pos hx).ne'
  obtain ⟨s, n, hn17, hgrid, hshort⟩ := exists_onGrid?_of_shortest hx tie
  obtain ⟨he, hne, hholds, hdigits⟩ := onGrid?_spec hgrid
  have hhigh := le_high_of_holds hholds
  have hb := strip_bounds s 400
  have hv := value_strip s 400
  have hd := value_div_step_le hu n
  rw [hshort, hv]
  refine ⟨?_, ?_, ?_, by omega, by omega⟩
  · have : 10 ^ (n + 1) ≤ 10 ^ 17 := Nat.pow_le_pow_right (by decide) (by omega)
    exact Nat.le_trans hb.1 (Nat.le_trans hdigits (Nat.succ_le_succ (Nat.le_trans hd this)))
  · rwa [ne_eq, ← value_eq_zero_iff, hv, value_eq_zero_iff]
  · rw [← he] at hhigh
    exact (value_le_iff s _).2 hhigh

/-! ## Reading the shortest decimal stays within the format -/

theorem exponentField_lt {x : Binary64} (hf : x.isFinite = true) : x.exponentField < 2047 :=
  of_decide_eq_true hf

theorem units_lt {x : Binary64} (hf : x.isFinite = true) : x.units < tenTo 700 := by
  have hs : x.shift ≤ 2046 := by
    have := exponentField_lt hf
    unfold shift; omega
  calc x.units ≤ twoTo 53 * twoTo 2046 :=
        Nat.mul_le_mul (Nat.le_of_lt (significand_lt x)) (twoTo_le hs)
    _ = twoTo 2099 := (twoTo_add 53 2046).symm
    _ < tenTo 700 := twoTo_lt_tenTo (by decide)

theorem leadingExponent_bounds {u : Nat} (h : u < tenTo 700) :
    -700 ≤ leadingExponent u ∧ leadingExponent u < 700 := by
  have hc : ∀ {n : Nat}, n < tenTo 700 → digitCount n ≤ 700 := digitCount_le_of_lt (by decide)
  unfold leadingExponent
  split
  · have := hc (Nat.lt_of_le_of_lt (Nat.div_le_self u unit) h)
    omega
  · have hu : unit < tenTo 700 := twoTo_lt_tenTo (by decide)
    have := hc (Nat.lt_of_le_of_lt (Nat.div_le_self unit u) hu)
    omega

theorem shortest_congr {x y : Binary64} (h : x.magnitudeBits = y.magnitudeBits) (tie : Tie) :
    shortest tie x = shortest tie y := by
  unfold shortest Interval.of units significand shift exponentField isZero
  rw [h]

/-- A decimal that is not above a bound has no more digits than the bound has steps of its
exponent. -/
theorem digits_le_of_value_le {s : Scientific} {high : Nat} (he : 0 ≤ s.exponent)
    (h : s.value * (4 * unit) ≤ high) :
    s.digits * (4 * unit * tenTo s.exponent.toNat) ≤ high := by
  obtain ⟨n, hn⟩ := Int.eq_ofNat_of_zero_le he
  rw [Scientific.value, hn, zpow_natCast] at h
  rw [hn, Int.toNat_natCast, tenTo_eq]
  have hcast : (s.digits : ℚ) * (4 * unit * 10 ^ n) ≤ high := by
    calc (s.digits : ℚ) * (4 * unit * 10 ^ n) = s.digits * 10 ^ n * (4 * unit) := by ring
      _ ≤ high := h
  exact_mod_cast hcast

/-- The bits of the largest number. -/
def largestBits : Nat := infinityBits - 1

/-- Above the rounding intervals of all numbers but the largest, in quarters of a unit. -/
def belowLargest : Nat :=
  4 * (ofMagnitude false (largestBits - 1)).units + 2 * twoTo 2045

theorem high_le_belowLargest {x : Binary64} (h : x.magnitudeBits < largestBits) :
    (Interval.of x).high ≤ belowLargest := by
  have hu : x.units ≤ (ofMagnitude false (largestBits - 1)).units := by
    refine units_mono ?_
    rw [magnitudeBits_ofMagnitude _ (by decide)]
    omega
  have hs : x.shift ≤ 2045 := by
    have : x.exponentField < 2047 := by
      refine (Nat.div_lt_iff_lt_mul (twoTo_pos 52)).2 (Nat.lt_of_lt_of_le h ?_)
      decide
    unfold shift; omega
  have := twoTo_le hs
  show 4 * x.units + 2 * twoTo x.shift ≤ _
  unfold belowLargest
  omega

/-- The most digits that a decimal with an exponent can have in the text of a number but the
largest. -/
def mostDigits (e : Nat) : Nat := min (10 ^ 17 + 1) (belowLargest / (4 * unit * tenTo e))

theorem isFinite_mostDigits {e : Nat} (he : e ≤ 308) :
    ((ofNat (mostDigits e)).mul (ofNat (tenTo e))).isFinite = true := by
  rcases Nat.lt_or_ge e 291 with h | h
  · have hlow : ((ofNat (10 ^ 17 + 1)).mul (ofNat (tenTo 290))).isFinite = true := by
      decide +kernel
    refine isFinite_mul_of_le (magnitudeBits_ofNat_mono (Nat.min_le_left _ _))
      (magnitudeBits_ofNat_mono ?_) hlow
    exact tenTo_le (by omega)
  · have hhigh : ∀ k < 18,
        ((ofNat (mostDigits (291 + k))).mul (ofNat (tenTo (291 + k)))).isFinite = true := by
      decide +kernel
    have := hhigh (e - 291) (by omega)
    rwa [Nat.add_sub_cancel' h] at this

/-- The digits of a finite number times its power of ten, each rounded, stay finite. -/
theorem isFinite_digits_mul {x : Binary64} (hf : x.isFinite = true) (hx : x.isZero = false)
    (he : 0 ≤ (shortest .toEven x).exponent) :
    (shortest .toEven x).exponent ≤ 308 ∧
      ((ofNat (shortest .toEven x).digits).mul
        (ofNat (tenTo (shortest .toEven x).exponent.toNat))).isFinite = true := by
  have hfin := (isFinite_iff x).1 hf
  rcases Nat.lt_or_ge x.magnitudeBits largestBits with h | h
  · obtain ⟨h17, hne, hval, _, _⟩ := shortest_spec hx .toEven
    generalize shortest .toEven x = s at *
    have hv : s.value * (4 * unit) ≤ (belowLargest : ℚ) :=
      le_trans hval (by exact_mod_cast high_le_belowLargest h)
    have hd := digits_le_of_value_le he hv
    have h308 : s.exponent ≤ 308 := by
      refine Int.not_lt.1 fun hlt => ?_
      have h1 : 4 * unit * tenTo 309 ≤ s.digits * (4 * unit * tenTo s.exponent.toNat) := by
        refine Nat.le_trans (Nat.mul_le_mul_left _ (tenTo_le ?_))
          (Nat.le_mul_of_pos_left _ (Nat.pos_of_ne_zero hne))
        omega
      have h2 : belowLargest < 4 * unit * tenTo 309 := by decide +kernel
      omega
    refine ⟨h308, isFinite_mul_of_le (magnitudeBits_ofNat_mono ?_) (Nat.le_refl _)
      (isFinite_mostDigits (e := s.exponent.toNat) (by omega))⟩
    refine Nat.le_min.2 ⟨h17, (Nat.le_div_iff_mul_le ?_).2 hd⟩
    exact Nat.mul_pos (Nat.mul_pos (by decide) unit_pos) (tenTo_pos _)
  · have hlargest : x.magnitudeBits = (ofMagnitude false largestBits).magnitudeBits := by
      rw [magnitudeBits_ofMagnitude _ (by decide)]
      unfold largestBits at *
      omega
    have hs : shortest .toEven (ofMagnitude false largestBits) = ⟨17976931348623157, 292⟩ := by
      decide +kernel
    rw [shortest_congr hlargest, hs]
    exact ⟨by decide, by decide +kernel⟩

end Decimal
end FrameEngine
