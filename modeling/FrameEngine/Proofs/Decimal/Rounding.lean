import FrameEngine.Decimal.Binary64
import Mathlib.Data.Nat.Log
import Mathlib.Tactic.Positivity

/-!
# FrameEngine.Proofs.Decimal.Rounding

Rounding keeps the order of magnitudes: of two quotients with one denominator the smaller one comes
to the smaller number (`roundedBits_mono`). So a product that stays within the format does so for
all factors below its own (`isFinite_mul_of_le`).
-/

namespace FrameEngine

theorem twoTo_eq (n : Nat) : twoTo n = 2 ^ n := Nat.one_shiftLeft n

theorem twoTo_pos (n : Nat) : 0 < twoTo n := by rw [twoTo_eq]; positivity

theorem twoTo_le {m n : Nat} (h : m ≤ n) : twoTo m ≤ twoTo n := by
  rw [twoTo_eq, twoTo_eq]; exact Nat.pow_le_pow_right (by decide) h

theorem twoTo_add (m n : Nat) : twoTo (m + n) = twoTo m * twoTo n := by
  rw [twoTo_eq, twoTo_eq, twoTo_eq, Nat.pow_add]

namespace Binary64

/-! ## Rounding to an integer -/

theorem roundEven_le {n d m : Nat} (hd : 0 < d) (h : n ≤ m * d) : roundEven n d ≤ m := by
  have hq : n / d ≤ m := Nat.div_le_of_le_mul (by rwa [Nat.mul_comm])
  have hn := Nat.div_add_mod n d
  by_cases he : n / d = m
  · have hr : n % d = 0 := by
      rw [he, Nat.mul_comm] at hn; omega
    simp only [roundEven, hr, Nat.mul_zero, hd, if_true]; omega
  · unfold roundEven
    dsimp only
    split
    · exact hq
    · split <;> omega

theorem le_roundEven {n d m : Nat} (hd : 0 < d) (h : m * d ≤ n) : m ≤ roundEven n d := by
  have hq : m ≤ n / d := (Nat.le_div_iff_mul_le hd).2 h
  unfold roundEven
  dsimp only
  split
  · exact hq
  · split <;> omega

theorem roundEven_mono {n n' d : Nat} (hd : 0 < d) (h : n ≤ n') :
    roundEven n d ≤ roundEven n' d := by
  have hq : n / d ≤ n' / d := Nat.div_le_div_right h
  rcases Nat.lt_or_eq_of_le hq with hlt | heq
  · refine Nat.le_trans (m := n / d + 1) ?_
      (Nat.le_trans hlt (le_roundEven hd (Nat.div_mul_le_self n' d)))
    refine roundEven_le hd ?_
    have := Nat.lt_mul_div_succ n hd
    rw [Nat.mul_comm]; omega
  · have hn := Nat.div_add_mod n d
    have hn' := Nat.div_add_mod n' d
    rw [← heq] at hn'
    have hr : n % d ≤ n' % d := by omega
    unfold roundEven
    rw [← heq]
    dsimp only
    split
    · split
      · exact Nat.le_refl _
      · split <;> omega
    · split
      · split
        · omega
        · split <;> omega
      · split
        · omega
        · split <;> omega

/-! ## Rounding to the format -/

/-- The bits of the number nearest to `n / d`, as if exponents had no upper end. -/
def roundedBits (n d : Nat) : Nat :=
  let shift := Nat.log2 (n * unit / d) - 52
  shift * twoTo 52 + roundEven (n * unit) (d * twoTo shift)

theorem ofRatio_eq (negative : Bool) (n d : Nat) :
    ofRatio negative n d = ofMagnitude negative (min (roundedBits n d) infinityBits) := rfl

theorem log2_mono {m n : Nat} (h : m ≤ n) : Nat.log2 m ≤ Nat.log2 n := by
  rw [Nat.log2_eq_log_two, Nat.log2_eq_log_two]
  exact Nat.log_mono_right h

theorem roundedBits_mono {n n' d : Nat} (hd : 0 < d) (h : n ≤ n') :
    roundedBits n d ≤ roundedBits n' d := by
  have hu : n * unit ≤ n' * unit := Nat.mul_le_mul_right _ h
  have hs := Nat.sub_le_sub_right (log2_mono (Nat.div_le_div_right (c := d) hu)) 52
  unfold roundedBits
  dsimp only
  generalize hs1 : Nat.log2 (n * unit / d) - 52 = s at hs
  generalize hs2 : Nat.log2 (n' * unit / d) - 52 = s' at hs
  rcases Nat.lt_or_eq_of_le hs with hlt | rfl
  · -- the exponents differ: one significand is at most `2 ^ 53`, the other at least `2 ^ 52`
    have hle : roundEven (n * unit) (d * twoTo s) ≤ twoTo 53 := by
      refine roundEven_le (Nat.mul_pos hd (twoTo_pos s)) ?_
      have hl : n * unit / d < twoTo (s + 53) := by
        rw [twoTo_eq]
        exact Nat.lt_of_lt_of_le Nat.lt_log2_self (Nat.pow_le_pow_right (by decide) (by omega))
      rw [Nat.div_lt_iff_lt_mul hd, twoTo_add] at hl
      calc n * unit ≤ twoTo s * twoTo 53 * d := Nat.le_of_lt hl
        _ = twoTo 53 * (d * twoTo s) := by ac_rfl
    have hge : twoTo 52 ≤ roundEven (n' * unit) (d * twoTo s') := by
      refine le_roundEven (Nat.mul_pos hd (twoTo_pos s')) ?_
      have hne : n' * unit / d ≠ 0 := by
        intro h0; rw [h0] at hs2; simp at hs2; omega
      have hl : twoTo (s' + 52) ≤ n' * unit / d := by
        rw [twoTo_eq]
        refine Nat.le_trans (Nat.pow_le_pow_right (by decide) ?_) (Nat.log2_self_le hne)
        omega
      rw [Nat.le_div_iff_mul_le hd, twoTo_add] at hl
      calc twoTo 52 * (d * twoTo s') = twoTo s' * twoTo 52 * d := by ac_rfl
        _ ≤ n' * unit := hl
    have h53 : twoTo 53 = twoTo 52 + twoTo 52 := by rw [twoTo_succ]; omega
    have hm : (s + 1) * twoTo 52 ≤ s' * twoTo 52 := Nat.mul_le_mul_right _ hlt
    rw [Nat.add_mul] at hm
    omega
  · exact Nat.add_le_add_left (roundEven_mono (Nat.mul_pos hd (twoTo_pos s)) hu) _

theorem magnitudeBits_ofMagnitude (negative : Bool) {b : Nat} (h : b < signedLimit) :
    (ofMagnitude negative b).magnitudeBits = b := by
  have hs := signedLimit_eq
  have hl : (if negative then signedLimit else 0) + b < UInt64.size := by split <;> omega
  simp only [magnitudeBits, ofMagnitude, UInt64.toNat_ofNat_of_lt' hl]
  cases negative with
  | true => rw [if_pos rfl, Nat.add_mod_left, Nat.mod_eq_of_lt h]
  | false => rw [if_neg Bool.false_ne_true, Nat.zero_add, Nat.mod_eq_of_lt h]

theorem infinityBits_lt : infinityBits < signedLimit := by decide

theorem magnitudeBits_ofRatio (negative : Bool) (n d : Nat) :
    (ofRatio negative n d).magnitudeBits = min (roundedBits n d) infinityBits := by
  rw [ofRatio_eq, magnitudeBits_ofMagnitude]
  exact Nat.lt_of_le_of_lt (Nat.min_le_right _ _) infinityBits_lt

theorem isFinite_iff (x : Binary64) : x.isFinite = true ↔ x.magnitudeBits < infinityBits := by
  rw [isFinite, decide_eq_true_iff, exponentField, Nat.div_lt_iff_lt_mul (twoTo_pos 52)]
  exact Iff.rfl

theorem isFinite_ofRatio_iff {negative : Bool} {n d : Nat} :
    (ofRatio negative n d).isFinite = true ↔ roundedBits n d < infinityBits := by
  rw [isFinite_iff, magnitudeBits_ofRatio]; omega

/-! ## Magnitudes -/

theorem units_mono {x y : Binary64} (h : x.magnitudeBits ≤ y.magnitudeBits) :
    x.units ≤ y.units := by
  unfold units significand shift exponentField
  generalize x.magnitudeBits = m at *
  generalize y.magnitudeBits = n at *
  have hq : m / twoTo 52 ≤ n / twoTo 52 := Nat.div_le_div_right h
  have hm := Nat.div_add_mod m (twoTo 52)
  have hn := Nat.div_add_mod n (twoTo 52)
  have hmr := Nat.mod_lt m (twoTo_pos 52)
  generalize twoTo 52 = p at *
  generalize m / p = i at *
  generalize n / p = j at *
  generalize m % p = r at *
  generalize n % p = t at *
  rcases Nat.lt_or_eq_of_le hq with hlt | rfl
  · have hj : j ≠ 0 := by omega
    rw [if_neg hj]
    by_cases hi : i = 0
    · subst hi
      rw [if_pos rfl]
      have h1 : twoTo (0 - 1) = 1 := rfl
      have h2 := twoTo_pos (j - 1)
      rw [h1, Nat.mul_one]
      exact Nat.le_trans (by omega) (Nat.le_mul_of_pos_right (p + t) h2)
    · rw [if_neg hi]
      have hs : twoTo i = 2 * twoTo (i - 1) := by
        rw [← twoTo_succ, Nat.sub_add_cancel (Nat.pos_of_ne_zero hi)]
      calc (p + r) * twoTo (i - 1) ≤ (2 * p) * twoTo (i - 1) := Nat.mul_le_mul_right _ (by omega)
        _ = p * twoTo i := by rw [hs]; ac_rfl
        _ ≤ p * twoTo (j - 1) := Nat.mul_le_mul_left _ (twoTo_le (by omega))
        _ ≤ (p + t) * twoTo (j - 1) := Nat.mul_le_mul_right _ (Nat.le_add_right p t)
  · refine Nat.mul_le_mul_right _ ?_
    split <;> omega

/-- A product is finite whose factors are not above those of a finite one. -/
theorem isFinite_mul_of_le {x x' y y' : Binary64} (hx : x.magnitudeBits ≤ x'.magnitudeBits)
    (hy : y.magnitudeBits ≤ y'.magnitudeBits) (hf : (x'.mul y').isFinite = true) :
    (x.mul y).isFinite = true := by
  unfold mul at hf ⊢
  rw [isFinite_ofRatio_iff] at hf ⊢
  refine Nat.lt_of_le_of_lt (roundedBits_mono ?_ ?_) hf
  · exact Nat.mul_pos (twoTo_pos _) (twoTo_pos _)
  · exact Nat.mul_le_mul (units_mono hx) (units_mono hy)

theorem magnitudeBits_ofNat_mono {m n : Nat} (h : m ≤ n) :
    (ofNat m).magnitudeBits ≤ (ofNat n).magnitudeBits := by
  unfold ofNat
  rw [magnitudeBits_ofRatio, magnitudeBits_ofRatio]
  have := roundedBits_mono Nat.one_pos h
  omega

end Binary64
end FrameEngine
