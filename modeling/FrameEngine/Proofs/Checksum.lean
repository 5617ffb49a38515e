import FrameEngine.Checksum
import Mathlib.Algebra.Group.Nat.Defs
import Mathlib.Logic.Function.Iterate

/-!
# FrameEngine.Proofs.Checksum

What the check can tell apart. Sequences of one length that differ in no more than four octets side
by side never have the same check (`crc32_ne_of_burst`), wherever those octets stand.

A shift is linear in exclusive or (`shift_xor`) and loses nothing (`shift_injective`): the
polynomial has its top bit, which no register shifted right has. So up to four octets, taken in from
a register, come to as many shifts of the register with their little-endian number added
(`absorbAll_eq_iterate`), and that number tells them apart. What is taken in behind them keeps
registers apart that were apart before.
-/

namespace FrameEngine
namespace Checksum

theorem shift_even {r : UInt32} (h : r.toNat % 2 = 0) : shift r = r >>> 1 := by
  have hb : r &&& 1 ≠ 1 := by
    intro he
    have := congrArg UInt32.toNat he
    simp [UInt32.toNat_and, Nat.and_one_is_mod] at this
    omega
  simp [shift, hb]

theorem shift_odd {r : UInt32} (h : r.toNat % 2 = 1) : shift r = (r >>> 1) ^^^ 0xEDB88320 := by
  have hb : r &&& 1 = 1 := by
    apply UInt32.toNat_inj.1
    simpa [UInt32.toNat_and, Nat.and_one_is_mod] using h
  simp [shift, hb]

theorem toNat_shiftRight_one (r : UInt32) : (r >>> 1).toNat = r.toNat / 2 := by
  simp [UInt32.toNat_shiftRight, Nat.shiftRight_eq_div_pow]

theorem xor_cancel (x y p : UInt32) : x ^^^ p ^^^ (y ^^^ p) = x ^^^ y := by
  rw [UInt32.xor_assoc, UInt32.xor_comm y p, ← UInt32.xor_assoc p p y, UInt32.xor_self,
    UInt32.zero_xor]

theorem shift_xor (x y : UInt32) : shift (x ^^^ y) = shift x ^^^ shift y := by
  have hr : (x ^^^ y) >>> 1 = (x >>> 1) ^^^ (y >>> 1) := UInt32.shiftRight_xor
  have hm : (x ^^^ y).toNat % 2 = (x.toNat % 2 ^^^ y.toNat % 2) := by
    rw [UInt32.toNat_xor]; exact Nat.xor_mod_two_pow (n := 1)
  -- only two odd registers add the polynomial twice
  rcases Nat.mod_two_eq_zero_or_one x.toNat with hx | hx <;>
    rcases Nat.mod_two_eq_zero_or_one y.toNat with hy | hy <;> rw [hx, hy] at hm
  · rw [shift_even hm, shift_even hx, shift_even hy, hr]
  · rw [shift_odd hm, shift_even hx, shift_odd hy, hr, UInt32.xor_assoc]
  · rw [shift_odd hm, shift_odd hx, shift_even hy, hr]; ac_rfl
  · rw [shift_even hm, shift_odd hx, shift_odd hy, hr, xor_cancel]

theorem eq_zero_of_shift {r : UInt32} (h : shift r = 0) : r = 0 := by
  have hlt := r.toNat_lt
  have hhalf := toNat_shiftRight_one r
  rcases Nat.mod_two_eq_zero_or_one r.toNat with hr | hr
  · rw [shift_even hr] at h
    rw [h] at hhalf
    apply UInt32.toNat_inj.1
    simp only [UInt32.toNat_zero] at hhalf ⊢
    omega
  · rw [shift_odd hr, UInt32.xor_eq_zero_iff] at h
    rw [h] at hhalf
    have : (0xEDB88320 : UInt32).toNat = 3988292384 := rfl
    omega

theorem shift_injective : Function.Injective shift := by
  intro x y h
  have : shift (x ^^^ y) = 0 := by rw [shift_xor, h, UInt32.xor_self]
  exact UInt32.xor_eq_zero_iff.1 (eq_zero_of_shift this)

theorem iterate_shift_xor (n : Nat) (x y : UInt32) :
    shift^[n] (x ^^^ y) = shift^[n] x ^^^ shift^[n] y := by
  induction n generalizing x y with
  | zero => rfl
  | succ n ih => rw [Function.iterate_succ_apply, shift_xor, ih]; rfl

theorem iterate_shift_mul (n k : Nat) (h : 2 ^ n * k < UInt32.size) :
    shift^[n] (.ofNat (2 ^ n * k)) = .ofNat k := by
  induction n with
  | zero => simp
  | succ n ih =>
    have hs : 2 ^ (n + 1) * k = 2 * (2 ^ n * k) := by rw [Nat.pow_succ]; ac_rfl
    have hn : (UInt32.ofNat (2 ^ (n + 1) * k)).toNat = 2 * (2 ^ n * k) := by
      rw [UInt32.toNat_ofNat_of_lt' h, hs]
    rw [Function.iterate_succ_apply, shift_even (by omega), ← ih (by omega)]
    congr 1
    apply UInt32.toNat_inj.1
    rw [toNat_shiftRight_one, hn, UInt32.toNat_ofNat_of_lt' (by omega)]
    omega

/-- The number whose octets are given, least significant first. -/
def littleEndian : Octets → Nat
  | [] => 0
  | b :: data => b.toNat + 2 ^ 8 * littleEndian data

theorem littleEndian_lt (data : Octets) : littleEndian data < 2 ^ (8 * data.length) := by
  induction data with
  | nil => decide
  | cons b data ih =>
    have := b.toNat_lt
    rw [List.length_cons, Nat.mul_succ, Nat.add_comm, Nat.pow_add, littleEndian]
    omega

theorem littleEndian_inj {x y : Octets} (hl : x.length = y.length)
    (h : littleEndian x = littleEndian y) : x = y := by
  induction x generalizing y with
  | nil => exact (List.length_eq_zero_iff.1 hl.symm).symm
  | cons a x ih =>
    cases y with
    | nil => cases hl
    | cons b y =>
      have ha := a.toNat_lt
      have hb := b.toNat_lt
      simp only [littleEndian] at h
      rw [UInt8.toNat_inj.1 (show a.toNat = b.toNat by omega),
        ih (Nat.succ.inj hl) (show littleEndian x = littleEndian y by omega)]

theorem xor_mul_eq_add {a : Nat} (k : Nat) (h : a < 2 ^ 8) : a ^^^ 2 ^ 8 * k = a + 2 ^ 8 * k := by
  have hd : (a ^^^ 2 ^ 8 * k) / 2 ^ 8 = k := by
    rw [Nat.xor_div_two_pow, Nat.div_eq_of_lt h, Nat.mul_div_cancel_left _ (by decide)]
    exact Nat.zero_xor k
  have hm : (a ^^^ 2 ^ 8 * k) % 2 ^ 8 = a := by
    rw [Nat.xor_mod_two_pow, Nat.mod_eq_of_lt h, Nat.mul_mod_right]
    exact Nat.xor_zero a
  omega

theorem absorb_eq_iterate (r : UInt32) (b : UInt8) :
    absorb r b = shift^[8] (r ^^^ .ofNat b.toNat) := by
  have : b.toUInt32 = .ofNat b.toNat := UInt32.toNat_inj.1 (by simp)
  rw [← this]; rfl

/-- Up to four octets go in as one number: all of it is in the register before any bit is lost. -/
theorem absorbAll_eq_iterate (r : UInt32) (data : Octets) (h : data.length ≤ 4) :
    absorbAll r data = shift^[8 * data.length] (r ^^^ .ofNat (littleEndian data)) := by
  induction data generalizing r with
  | nil => simp [absorbAll, littleEndian]
  | cons b data ih =>
    have hd : data.length ≤ 4 := by rw [List.length_cons] at h; omega
    have hs : 2 ^ 8 * littleEndian data < UInt32.size := by
      have := littleEndian_lt (b :: data)
      have : (2 : Nat) ^ (8 * (b :: data).length) ≤ 2 ^ 32 :=
        Nat.pow_le_pow_right (by decide) (by omega)
      simp only [littleEndian, UInt32.size] at *
      omega
    have hx : (UInt32.ofNat b.toNat) ^^^ .ofNat (2 ^ 8 * littleEndian data) =
        .ofNat (littleEndian (b :: data)) := by
      rw [← UInt32.ofNat_xor, xor_mul_eq_add _ b.toNat_lt]; rfl
    calc absorbAll r (b :: data)
        = absorbAll (absorb r b) data := rfl
      _ = shift^[8 * data.length] (absorb r b ^^^ .ofNat (littleEndian data)) := ih _ hd
      _ = shift^[8 * data.length] (shift^[8]
            (r ^^^ .ofNat b.toNat ^^^ .ofNat (2 ^ 8 * littleEndian data))) := by
          rw [iterate_shift_xor 8 (r ^^^ _), iterate_shift_mul 8 _ hs, ← absorb_eq_iterate]
      _ = shift^[8 * (b :: data).length] (r ^^^ .ofNat (littleEndian (b :: data))) := by
          rw [← Function.iterate_add_apply, UInt32.xor_assoc, hx, List.length_cons, Nat.mul_succ]

theorem absorbAll_inj_data {r : UInt32} {x y : Octets} (hl : x.length = y.length)
    (h4 : x.length ≤ 4) (h : absorbAll r x = absorbAll r y) : x = y := by
  rw [absorbAll_eq_iterate r x h4, absorbAll_eq_iterate r y (hl ▸ h4), ← hl] at h
  have hx := (UInt32.xor_right_inj r).1 (shift_injective.iterate _ h)
  have hp : (2 : Nat) ^ (8 * x.length) ≤ 2 ^ 32 := Nat.pow_le_pow_right (by decide) (by omega)
  have hlx := littleEndian_lt x
  have hly := littleEndian_lt y
  rw [← hl] at hly
  have := congrArg UInt32.toNat hx
  rw [UInt32.toNat_ofNat_of_lt' (by simp only [UInt32.size]; omega),
    UInt32.toNat_ofNat_of_lt' (by simp only [UInt32.size]; omega)] at this
  exact littleEndian_inj hl this

theorem absorbAll_inj_register (data : Octets) : Function.Injective (absorbAll · data) := by
  induction data with
  | nil => exact fun _ _ h => h
  | cons b data ih =>
    intro x y h
    have hb : absorb x b = absorb y b := ih h
    rw [absorb_eq_iterate, absorb_eq_iterate] at hb
    exact (UInt32.xor_left_inj _).1 (shift_injective.iterate _ hb)

/-- A burst of up to four octets is never missed. -/
theorem crc32_ne_of_burst {x y : Octets} (before behind : Octets) (hl : x.length = y.length)
    (h4 : x.length ≤ 4) (hne : x ≠ y) :
    crc32 (before ++ (x ++ behind)) ≠ crc32 (before ++ (y ++ behind)) := by
  intro h
  have ha := (UInt32.xor_left_inj _).1 h
  simp only [absorbAll_append] at ha
  exact hne (absorbAll_inj_data hl h4 (absorbAll_inj_register behind ha))

end Checksum
end FrameEngine
