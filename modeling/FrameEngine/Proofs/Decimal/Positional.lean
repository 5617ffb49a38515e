import FrameEngine.Decimal.Layout
import FrameEngine.Decimal.Literal
import FrameEngine.Proofs.Decimal.Shortest

/-!
# FrameEngine.Proofs.Decimal.Positional

A decimal that is set out with a point, in whatever place, is the same decimal again: the digits on
both sides of the point, over as many tens as there are digits behind it (`exists_sets`).
-/

namespace FrameEngine
namespace Decimal

/-! ## Runs of digits -/

theorem digitsValue_eq (digits : List Char) :
    digitsValue digits = Nat.ofDigitChars 10 digits 0 := by
  have h : (fun (n : Nat) (c : Char) => n * 10 + (c.toNat - '0'.toNat)) =
      fun n c => 10 * n + (c.toNat - '0'.toNat) := by
    funext n c
    rw [Nat.mul_comm]
  rw [digitsValue, h]
  rfl

theorem digitsValue_toDigits (n : Nat) : digitsValue (Nat.toDigits 10 n) = n := by
  rw [digitsValue_eq, Nat.ofDigitChars_toDigits (by decide) (by decide)]

theorem digitsValue_zeros_append (k : Nat) (digits : List Char) :
    digitsValue (zeros k ++ digits) = digitsValue digits := by
  have h : digitsValue (zeros k) = 0 := by
    induction k with
    | zero => rfl
    | succ k ih => exact ih
  unfold digitsValue at *
  rw [List.foldl_append, h]

theorem digitsValue_append_zeros (digits : List Char) (k : Nat) :
    digitsValue (digits ++ zeros k) = digitsValue digits * 10 ^ k := by
  induction k with
  | zero => simp [zeros]
  | succ k ih =>
    have hlast : digits ++ zeros (k + 1) = (digits ++ zeros k) ++ ['0'] := by
      rw [zeros, List.replicate_succ', List.append_assoc]
      rfl
    have hstep : digitsValue ((digits ++ zeros k) ++ ['0']) =
        digitsValue (digits ++ zeros k) * 10 := by
      unfold digitsValue
      rw [List.foldl_append]
      rfl
    rw [hlast, hstep, ih, Nat.pow_succ, Nat.mul_assoc]

theorem digitsValue_lt {digits : List Char} (h : ∀ c ∈ digits, c.isDigit = true) :
    digitsValue digits < 10 ^ digits.length := by
  have hfold : ∀ n, digits.foldl (fun n c => n * 10 + (c.toNat - '0'.toNat)) n <
      (n + 1) * 10 ^ digits.length := by
    induction digits with
    | nil => simp
    | cons c digits ih =>
      intro n
      have hc : c.toNat - '0'.toNat ≤ 9 := by
        have hdigit := h c List.mem_cons_self
        rw [Char.isDigit_iff_toNat] at hdigit
        exact Nat.sub_le_of_le_add hdigit.2
      have hstep := ih (fun d hd => h d (List.mem_cons_of_mem c hd))
        (n * 10 + (c.toNat - '0'.toNat))
      rw [List.foldl_cons, List.length_cons, Nat.pow_succ]
      refine Nat.lt_of_lt_of_le hstep ?_
      rw [Nat.mul_comm (10 ^ _) 10, ← Nat.mul_assoc]
      exact Nat.mul_le_mul_right _ (by omega)
  have := hfold 0
  rwa [Nat.zero_add, Nat.one_mul] at this

/-- The digits before a point: a zero alone, or digits of which the first is not zero. -/
inductive Whole : List Char → Prop where
  | zero : Whole ['0']
  | leading {c : Char} {run : List Char} (lead : c ≠ '0')
      (digits : ∀ d ∈ c :: run, d.isDigit = true) : Whole (c :: run)

theorem isDigit_of_mem_toDigits {n : Nat} : ∀ c ∈ Nat.toDigits 10 n, c.isDigit = true :=
  fun _ => Nat.isDigit_of_mem_toDigits (by decide) (by decide)

theorem isDigit_of_mem_zeros {k : Nat} : ∀ c ∈ zeros k, c.isDigit = true := by
  intro c hc
  rw [(List.mem_replicate.1 hc).2]
  decide

theorem whole_append {run more : List Char} (h : Whole run) (hz : run ≠ ['0'])
    (hm : ∀ c ∈ more, c.isDigit = true) : Whole (run ++ more) := by
  cases h with
  | zero => exact absurd rfl hz
  | leading lead digits =>
    refine .leading lead fun d hd => ?_
    rcases List.mem_append.1 (show d ∈ (_ :: _) ++ more from hd) with hd | hd
    · exact digits d hd
    · exact hm d hd

theorem whole_toDigits (n : Nat) : Whole (Nat.toDigits 10 n) := by
  induction n using Nat.strongRecOn with
  | ind n ih =>
    rcases Nat.lt_or_ge n 10 with h | h
    · rw [Nat.toDigits_of_lt_base h]
      have hdigit : ∀ n < 10, n ≠ 0 → n.digitChar ≠ '0' ∧ n.digitChar.isDigit = true := by decide
      by_cases hz : n = 0
      · subst hz
        exact .zero
      · refine .leading (hdigit n h hz).1 fun c hc => ?_
        rw [List.mem_singleton.1 hc]
        exact (hdigit n h hz).2
    · have hdigits := @isDigit_of_mem_toDigits n
      rw [Nat.toDigits_of_base_le (by decide) h] at hdigits ⊢
      refine whole_append (ih (n / 10) (by omega)) (fun hzero => ?_)
        fun c hc => hdigits c (List.mem_append_right _ hc)
      have hvalue := digitsValue_toDigits (n / 10)
      rw [hzero] at hvalue
      have : n / 10 = 0 := hvalue.symm
      omega

theorem isDigit_of_mem_whole {run : List Char} (h : Whole run) : ∀ c ∈ run, c.isDigit = true := by
  cases h with
  | zero => intro c hc; rw [List.mem_singleton.1 hc]; decide
  | leading _ digits => exact digits

theorem whole_take {run : List Char} (h : Whole run) {k : Nat} (hk : 0 < k) (hz : run ≠ ['0']) :
    Whole (run.take k) := by
  cases h with
  | zero => exact absurd rfl hz
  | leading lead digits =>
    obtain ⟨k, rfl⟩ := Nat.exists_eq_add_one_of_ne_zero hk.ne'
    exact .leading lead fun d hd => digits d (List.mem_of_mem_take (i := k + 1) hd)

theorem toDigits_ne_zero {n : Nat} (h : n ≠ 0) : Nat.toDigits 10 n ≠ ['0'] := by
  intro hzero
  have hvalue := digitsValue_toDigits n
  rw [hzero] at hvalue
  exact h hvalue.symm

/-! ## The digits of a number, set out -/

/-- A text of digits in front of a point and behind it, and the decimal that it is. -/
structure Sets (text whole fraction : List Char) (s : Scientific) : Prop where
  text_eq : text = whole ++ '.' :: fraction
  isWhole : Whole whole
  digits : ∀ c ∈ fraction, c.isDigit = true
  nonempty : fraction ≠ []
  value_eq : (⟨digitsValue (whole ++ fraction), -(fraction.length : Int)⟩ : Scientific).value =
    s.value
  length_le : (whole ++ fraction).length ≤ s.exponent.natAbs + digitCount s.digits + 1

theorem isDigit_of_mem_append {a b : List Char} (ha : ∀ c ∈ a, c.isDigit = true)
    (hb : ∀ c ∈ b, c.isDigit = true) : ∀ c ∈ a ++ b, c.isDigit = true :=
  fun c hc => (List.mem_append.1 hc).elim (ha c) (hb c)

/-- The point in front of the digits. -/
theorem sets_before {s : Scientific} (hpoint : s.exponent + digitCount s.digits ≤ 0) :
    Sets ('0' :: '.' :: zeros (-(s.exponent + digitCount s.digits)).toNat ++
        Nat.toDigits 10 s.digits)
      ['0'] (zeros (-(s.exponent + digitCount s.digits)).toNat ++ Nat.toDigits 10 s.digits) s := by
  have hlength : (zeros (-(s.exponent + digitCount s.digits)).toNat ++
      Nat.toDigits 10 s.digits).length = (-s.exponent).toNat := by
    rw [List.length_append, zeros, List.length_replicate]
    show _ + digitCount s.digits = _
    omega
  refine ⟨rfl, .zero, isDigit_of_mem_append isDigit_of_mem_zeros isDigit_of_mem_toDigits,
    ?_, ?_, ?_⟩
  · exact List.append_ne_nil_of_right_ne_nil _ (List.ne_nil_of_length_pos Nat.length_toDigits_pos)
  · have hdigits := digitsValue_zeros_append
      ((-(s.exponent + digitCount s.digits)).toNat + 1) (Nat.toDigits 10 s.digits)
    rw [digitsValue_toDigits] at hdigits
    have hexponent : -(((-s.exponent).toNat : Nat) : Int) = s.exponent := by omega
    rw [hlength, hexponent]
    unfold Scientific.value
    dsimp only
    congr 2
  · rw [List.length_append, hlength, List.length_singleton]
    omega

/-- The point behind the digits and some zeros. -/
theorem sets_behind {s : Scientific} (h0 : s.digits ≠ 0)
    (hpoint : (digitCount s.digits : Int) ≤ s.exponent + digitCount s.digits) :
    Sets (Nat.toDigits 10 s.digits ++ zeros s.exponent.toNat ++ ['.', '0'])
      (Nat.toDigits 10 s.digits ++ zeros s.exponent.toNat) ['0'] s := by
  refine ⟨rfl, whole_append (whole_toDigits _) (toDigits_ne_zero h0) isDigit_of_mem_zeros,
    by simp, by simp, ?_, ?_⟩
  · have hzero : Nat.toDigits 10 s.digits ++ zeros s.exponent.toNat ++ ['0'] =
        Nat.toDigits 10 s.digits ++ zeros (s.exponent.toNat + 1) := by
      rw [zeros, zeros, List.replicate_succ', List.append_assoc]
    rw [hzero, digitsValue_append_zeros, digitsValue_toDigits]
    obtain ⟨m, hm⟩ := Int.eq_ofNat_of_zero_le (show 0 ≤ s.exponent by omega)
    simp only [Scientific.value, hm, Int.toNat_natCast, List.length_singleton, Nat.cast_mul,
      Nat.cast_pow, Nat.cast_ofNat, Nat.cast_one, zpow_neg_one, zpow_natCast, pow_succ]
    field_simp
  · rw [List.length_append, List.length_append, zeros, List.length_replicate]
    show digitCount s.digits + _ + _ ≤ _
    simp only [List.length_singleton]
    omega

/-- The point among the digits. -/
theorem sets_among {s : Scientific} (h0 : s.digits ≠ 0) {k : Nat} (hk : 0 < k)
    (hpoint : s.exponent + digitCount s.digits = k) (hlt : k < digitCount s.digits) :
    Sets ((Nat.toDigits 10 s.digits).take k ++ '.' :: (Nat.toDigits 10 s.digits).drop k)
      ((Nat.toDigits 10 s.digits).take k) ((Nat.toDigits 10 s.digits).drop k) s := by
  have hlength : ((Nat.toDigits 10 s.digits).drop k).length = digitCount s.digits - k := by
    rw [List.length_drop]
    rfl
  refine ⟨rfl, whole_take (whole_toDigits _) hk (toDigits_ne_zero h0),
    fun c hc => isDigit_of_mem_toDigits c (List.mem_of_mem_drop hc), ?_, ?_, ?_⟩
  · refine List.ne_nil_of_length_pos ?_
    rw [hlength]
    omega
  · have hexponent : -((digitCount s.digits - k : Nat) : Int) = s.exponent := by omega
    rw [List.take_append_drop, digitsValue_toDigits, hlength, hexponent]
  · rw [List.take_append_drop]
    show digitCount s.digits ≤ _
    omega

/-- A layout without exponents that keeps a fraction sets out every decimal. -/
theorem exists_sets {l : Layout} (hpositional : l.positional = none)
    (hfraction : l.keepsFraction = true) (s : Scientific) :
    ∃ whole fraction, Sets (l.magnitude s) whole fraction s := by
  by_cases h0 : s.digits = 0
  · refine ⟨['0'], ['0'], ?_, .zero, by simp, by simp, ?_, ?_⟩
    · rw [Layout.magnitude, if_pos h0, if_pos hfraction]
      rfl
    · simp [Scientific.value, h0, digitsValue]
    · have hone : digitCount 0 = 1 := rfl
      rw [h0, hone]
      simp
  · have hmagnitude : l.magnitude s =
        positionalText true (Nat.toDigits 10 s.digits) (s.exponent + digitCount s.digits) := by
      rw [Layout.magnitude, if_neg h0, hpositional, hfraction]
      rfl
    rw [hmagnitude, positionalText]
    split
    · rename_i hpoint
      exact ⟨_, _, sets_before hpoint⟩
    · rename_i hpoint
      dsimp only
      split
      · rename_i hbehind
        have hzeros : (s.exponent + digitCount s.digits).toNat - (Nat.toDigits 10 s.digits).length =
            s.exponent.toNat := by
          show _ - digitCount s.digits = _
          omega
        rw [hzeros, if_pos rfl]
        have hpoint' : (Nat.toDigits 10 s.digits).length = digitCount s.digits := rfl
        exact ⟨_, _, sets_behind h0 (by omega)⟩
      · rename_i hamong
        have hcount : (Nat.toDigits 10 s.digits).length = digitCount s.digits := rfl
        exact ⟨_, _, sets_among h0 (by omega) (by omega) (by omega)⟩

/-- The shortest decimal of a finite number needs no more characters than a line can be expected to
hold. -/
theorem length_shortest {x : Binary64} (hf : x.isFinite = true) (tie : Tie) :
    (shortest tie x).exponent.natAbs + digitCount (shortest tie x).digits + 1 ≤ 2000 := by
  by_cases hx : x.isZero = true
  · have hzero : shortest tie x = ⟨0, 0⟩ := by rw [shortest, if_pos hx]
    rw [hzero]
    decide
  · obtain ⟨hdigits, _, _, hlow, hhigh⟩ := shortest_spec (Bool.eq_false_iff.2 hx) tie
    obtain ⟨hlead, hlead'⟩ := leadingExponent_bounds (units_lt hf)
    have hcount : digitCount (shortest tie x).digits ≤ 18 :=
      digitCount_le_of_lt (by decide) (Nat.lt_of_le_of_lt hdigits (by decide))
    omega

end Decimal
end FrameEngine
