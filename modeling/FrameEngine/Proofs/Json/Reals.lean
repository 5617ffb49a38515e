import FrameEngine.Proofs.Decimal.Shortest
import FrameEngine.Proofs.Json.Tokens

/-!
# FrameEngine.Proofs.Json.Reals

The text of a finite number that is not an integer is read back as a number, whatever follows it
(`scanNumber_magnitude`), though perhaps not as the same number: reading multiplies the digits by a
power of ten and rounds twice. What has to be shown is that the digits fit the significand and that
the product does not grow out of the format.

The cases are those of the layout: the point before, behind or among the digits
(`scanNumber_positional`), and an exponent behind them (`scanNumber_scientific`).
-/

namespace FrameEngine
namespace Json

open Decimal

theorem scale_of_neg (x : Binary64) {e : Int} (h : e < 0) : ∃ y, scale x e = .ok y := by
  fun_induction scale x e with
  | case1 => omega
  | case2 => omega
  | case3 => omega
  | case4 => omega
  | case5 => exact ⟨_, rfl⟩
  | case6 => exact ⟨_, rfl⟩
  | case7 x e _ _ _ ih => exact ih (by omega)

/-- A significand and an exponent make a number, if the product does not grow out of the format. -/
theorem realOf_ok (positive : Bool) (d : Nat) {e : Int}
    (h : 0 ≤ e → e ≤ 308 ∧ ((Binary64.ofNat d).mul (.ofNat (tenTo e.toNat))).isFinite = true) :
    ∃ y, realOf positive d e = .ok (.real y) := by
  have hs : ∃ y, scale (.ofNat d) e = .ok y := by
    rcases Int.lt_or_le e 0 with he | he
    · exact scale_of_neg _ he
    · obtain ⟨h308, hf⟩ := h he
      unfold scale
      simp only [if_pos he, if_pos h308, hf, if_true]
      exact ⟨_, rfl⟩
  obtain ⟨y, hy⟩ := hs
  exact ⟨_, by rw [realOf, hy]⟩

theorem foldl_addFraction {run : Octets} {v : Nat} {e : Int} (h : runValue v run ≤ maxSignificand) :
    run.foldl Significand.addFraction ⟨v, e, false⟩ = ⟨runValue v run, e - run.length, false⟩ := by
  induction run generalizing v e with
  | nil => simp [runValue]
  | cons b run ih =>
    have hv : v * 10 + digitOf b ≤ maxSignificand := Nat.le_trans (le_runValue _ run) h
    have hs : Significand.addFraction ⟨v, e, false⟩ b = ⟨v * 10 + digitOf b, e - 1, false⟩ := by
      simp only [Significand.addFraction, Bool.not_false, true_and, if_pos hv]
    rw [List.foldl_cons, hs, ih h]
    simp only [runValue, List.foldl_cons, List.length_cons]
    congr 1
    omega

theorem scanFraction_mark (positive : Bool) (s : Significand) (tail : Octets) :
    scanFraction positive s (0x65 :: tail) = scanExponent positive s tail := rfl

/-- Digits behind the point, and then nothing of the number any more. -/
theorem scanFraction_point {run rest : Octets} {v : Nat} {y : Json} (positive : Bool)
    (hd : ∀ b ∈ run, isDigit b = true) (hne : run ≠ []) (hr : EndsNumber rest)
    (hv : runValue v run ≤ maxSignificand)
    (hy : realOf positive (runValue v run) (-run.length) = .ok y) :
    scanFraction positive ⟨v, 0, false⟩ (0x2E :: (run ++ rest)) = .ok (y, rest) := by
  have hr' : ∀ b ∈ rest.head?, isDigit b = false := fun b hb => (hr b hb).1
  rw [scanFraction]
  simp only [takeWhile_run hd hr', dropWhile_run hd hr', hne, if_false, foldl_addFraction hv,
    Int.zero_sub]
  split
  · exact absurd rfl (hr _ rfl).2.2.1
  · exact absurd rfl (hr _ rfl).2.2.2
  · rw [hy]; rfl

/-- Digits behind the point, and then the mark of an exponent. -/
theorem scanFraction_point_mark {run tail : Octets} {v : Nat} (positive : Bool)
    (hd : ∀ b ∈ run, isDigit b = true) (hne : run ≠ []) (hv : runValue v run ≤ maxSignificand) :
    scanFraction positive ⟨v, 0, false⟩ (0x2E :: (run ++ 0x65 :: tail)) =
      scanExponent positive ⟨runValue v run, -run.length, false⟩ tail := by
  have hr : ∀ b ∈ (0x65 :: tail).head?, isDigit b = false := by
    intro b hb; cases hb; decide
  rw [scanFraction]
  simp only [takeWhile_run hd hr, dropWhile_run hd hr, hne, if_false, foldl_addFraction hv,
    Int.zero_sub]

/-- The sign and the digits of an exponent, as octets. -/
def exponentOctets (e : Int) : Octets := (if e < 0 then 0x2D else 0x2B) :: digitOctets e.natAbs

theorem scanExponent_digits {s : Significand} {e : Int} {y : Json} {rest : Octets} (positive : Bool)
    (he : e.natAbs ≤ maxExponent) (hr : ∀ b ∈ rest.head?, isDigit b = false)
    (hy : realOf positive s.value (s.exponent + e) = .ok y) :
    scanExponent positive s (exponentOctets e ++ rest) = .ok (y, rest) := by
  have hd := @isDigit_of_mem_digitOctets e.natAbs
  have ht := takeWhile_run hd hr
  have hw := dropWhile_run hd hr
  have hv : (digitOctets e.natAbs).foldl (fun n b => n * 10 + digitOf b) 0 = e.natAbs :=
    runValue_digitOctets e.natAbs
  obtain ⟨b, run, hrun, hbd⟩ := exists_digit_of_whole (whole_digitOctets e.natAbs)
  have hb : digitOctets e.natAbs ++ rest = b :: (run ++ rest) := by rw [hrun]; rfl
  by_cases hneg : e < 0
  · have hs : s.exponent - (e.natAbs : Int) = s.exponent + e := by omega
    simp only [exponentOctets, if_pos hneg, List.cons_append, scanExponent]
    rw [hb] at ht hw ⊢
    simp only [hbd, Bool.not_true, Bool.false_eq_true, if_false, ht, hw, hv,
      if_neg (Nat.not_lt.2 he), hs, hy]
    rfl
  · have hs : s.exponent + (e.natAbs : Int) = s.exponent + e := by omega
    simp only [exponentOctets, if_neg hneg, List.cons_append, scanExponent]
    rw [hb] at ht hw ⊢
    simp only [hbd, Bool.not_true, Bool.false_eq_true, if_false, ht, hw, hv,
      if_neg (Nat.not_lt.2 he), hs, hy, if_true]
    rfl

/-! ## The text of a magnitude -/

/-- Characters as octets, all of them ASCII. -/
def octetsOf (text : List Char) : Octets := text.map fun c => .ofNat c.toNat

theorem octetsOf_zeros (k : Nat) : octetsOf (zeros k) = List.replicate k 0x30 := by
  rw [octetsOf, zeros, List.map_replicate]; rfl

theorem isDigit_of_mem_replicate {k : Nat} :
    ∀ b ∈ List.replicate k (0x30 : UInt8), isDigit b = true := by
  intro b hb
  rw [List.eq_of_mem_replicate hb]; decide

theorem runValue_replicate (v k : Nat) : runValue v (List.replicate k 0x30) = v * 10 ^ k := by
  induction k generalizing v with
  | zero => simp [runValue]
  | succ k ih =>
    rw [List.replicate_succ]
    show runValue (v * 10 + 0) (List.replicate k 0x30) = _
    rw [ih, Nat.pow_succ]; ring

theorem endsNumber_head {rest : Octets} (h : EndsNumber rest) :
    ∀ b ∈ rest.head?, isDigit b = false := fun b hb => (h b hb).1

theorem whole_take {run : Octets} (h : Whole run) (hz : run ≠ [0x30]) {n : Nat} (hn : n ≠ 0) :
    Whole (run.take n) := by
  cases h with
  | zero => exact absurd rfl hz
  | @leading b run lead digits =>
    obtain ⟨m, rfl⟩ := Nat.exists_eq_succ_of_ne_zero hn
    rw [List.take_succ_cons]
    refine .leading lead fun x hx => digits x ?_
    rcases List.mem_cons.1 hx with rfl | hx
    · exact List.mem_cons_self
    · exact List.mem_cons_of_mem _ (List.mem_of_mem_take hx)

theorem length_digitOctets (n : Nat) : (digitOctets n).length = digitCount n := List.length_map _

/-- A number with a point is read back. -/
theorem scanNumber_point {whole : Octets} (run : Octets) (positive : Bool) (hw : Whole whole)
    (hd : ∀ b ∈ run, isDigit b = true) (hne : run ≠ [])
    (hv : runValue 0 (whole ++ run) ≤ maxSignificand) :
    ∃ y, ∀ rest, EndsNumber rest →
      scanNumber positive (whole ++ 0x2E :: (run ++ rest)) = .ok (.real y, rest) := by
  rw [runValue_append] at hv
  have hpos := List.length_pos_iff.2 hne
  obtain ⟨y, hy⟩ := realOf_ok positive (runValue (runValue 0 whole) run) (e := -run.length)
    (fun h => by omega)
  refine ⟨y, fun rest hrest => ?_⟩
  rw [scanNumber_whole positive hw ?_ (Nat.le_trans (le_runValue _ run) hv)]
  · exact scanFraction_point positive hd hne hrest hv hy
  · intro b hb; cases hb; decide

/-- Digits of which the first stands before the point. -/
def mantissaOctets : Octets → Octets
  | b :: c :: run => b :: 0x2E :: c :: run
  | run => run

/-- A number with an exponent is read back, if its product stays within the format. -/
theorem scanNumber_exponent {b : UInt8} {run : Octets} {e : Int} (positive : Bool)
    (hw : Whole [b]) (hd : ∀ x ∈ run, isDigit x = true)
    (hv : runValue 0 (b :: run) ≤ maxSignificand) (he : e.natAbs ≤ maxExponent)
    (hf : 0 ≤ e - run.length → e - run.length ≤ 308 ∧ ((Binary64.ofNat (runValue 0 (b :: run))).mul
      (.ofNat (tenTo (e - run.length).toNat))).isFinite = true) :
    ∃ y, ∀ rest, EndsNumber rest →
      scanNumber positive (mantissaOctets (b :: run) ++ 0x65 :: (exponentOctets e ++ rest)) =
        .ok (.real y, rest) := by
  have hval : runValue 0 (b :: run) = runValue (runValue 0 [b]) run := rfl
  rw [hval] at hv hf
  obtain ⟨y, hy⟩ := realOf_ok positive _ hf
  refine ⟨y, fun rest hrest => ?_⟩
  have hwv : runValue 0 [b] ≤ maxSignificand := Nat.le_trans (le_runValue _ run) hv
  cases run with
  | nil =>
    show scanNumber positive ([b] ++ 0x65 :: (exponentOctets e ++ rest)) = _
    rw [scanNumber_whole positive hw ?_ hwv, scanFraction_mark]
    · refine scanExponent_digits positive he (endsNumber_head hrest) ?_
      rw [← hy]; simp [runValue]
    · intro x hx; cases hx; decide
  | cons d run =>
    show scanNumber positive ([b] ++ 0x2E :: ((d :: run) ++ 0x65 :: (exponentOctets e ++ rest))) = _
    rw [scanNumber_whole positive hw ?_ hwv, scanFraction_point_mark positive hd (by simp) hv]
    · refine scanExponent_digits positive he (endsNumber_head hrest) ?_
      rw [← hy]
      congr 1
      dsimp only
      omega
    · intro x hx; cases hx; decide

/-- The digits behind a point, with zeros between. -/
theorem scanNumber_zeros_between {d : Nat} (positive : Bool) (h17 : d ≤ 10 ^ 17 + 1) (k : Nat) :
    ∃ y, ∀ rest, EndsNumber rest →
      scanNumber positive ([0x30] ++ 0x2E :: ((List.replicate k 0x30 ++ digitOctets d) ++ rest)) =
        .ok (.real y, rest) := by
  have hmax : maxSignificand = 18446744073709551615 := rfl
  have hrun : runValue 0 ([0x30] ++ (List.replicate k 0x30 ++ digitOctets d)) = d := by
    rw [runValue_append, runValue_append, runValue_replicate]
    show runValue (0 * 10 ^ k) _ = d
    rw [Nat.zero_mul, runValue_digitOctets]
  have hne : List.replicate k 0x30 ++ digitOctets d ≠ [] := by
    obtain ⟨b, more, hb, _⟩ := exists_digit_of_whole (whole_digitOctets d)
    rw [hb]; simp
  refine scanNumber_point _ positive .zero (fun b hb => ?_) hne (by rw [hrun]; omega)
  exact (List.mem_append.1 hb).elim (isDigit_of_mem_replicate b) (isDigit_of_mem_digitOctets b)

/-- The digits before a point, with zeros between, and one zero behind the point. -/
theorem scanNumber_zeros_behind {d n : Nat} (positive : Bool) (hd : d ≠ 0) (hn : n ≤ 16)
    (hle : (digitOctets d).length ≤ n) :
    ∃ y, ∀ rest, EndsNumber rest →
      scanNumber positive ((digitOctets d ++ List.replicate (n - (digitOctets d).length) 0x30) ++
        0x2E :: ([0x30] ++ rest)) = .ok (.real y, rest) := by
  have hmax : maxSignificand = 18446744073709551615 := rfl
  have hlt : d < 10 ^ (digitOctets d).length := by
    rw [length_digitOctets]; exact lt_digitCount
  have hbound : d * 10 ^ (n - (digitOctets d).length) * 10 ≤ 10 ^ 17 := by
    calc d * 10 ^ (n - (digitOctets d).length) * 10
        ≤ 10 ^ (digitOctets d).length * 10 ^ (n - (digitOctets d).length) * 10 :=
          Nat.mul_le_mul_right _ (Nat.mul_le_mul_right _ (Nat.le_of_lt hlt))
      _ = 10 ^ (n + 1) := by rw [← Nat.pow_add, Nat.add_sub_cancel' hle, Nat.pow_succ]
      _ ≤ 10 ^ 17 := Nat.pow_le_pow_right (by decide) (by omega)
  have hrun : runValue 0 ((digitOctets d ++
      List.replicate (n - (digitOctets d).length) 0x30) ++ [0x30]) =
      d * 10 ^ (n - (digitOctets d).length) * 10 := by
    rw [runValue_append, runValue_append, runValue_replicate, runValue_digitOctets]; rfl
  exact scanNumber_point [0x30] positive
    (whole_append (whole_digitOctets d) (digitOctets_ne_zero hd) isDigit_of_mem_replicate)
    (isDigit_of_mem_replicate (k := 1)) nofun (by rw [hrun]; omega)

/-- A point among the digits. -/
theorem scanNumber_point_among {d n : Nat} (positive : Bool) (hd : d ≠ 0)
    (h17 : d ≤ 10 ^ 17 + 1) (hn : n ≠ 0) (hlt : n < (digitOctets d).length) :
    ∃ y, ∀ rest, EndsNumber rest →
      scanNumber positive ((digitOctets d).take n ++ 0x2E :: ((digitOctets d).drop n ++ rest)) =
        .ok (.real y, rest) := by
  have hmax : maxSignificand = 18446744073709551615 := rfl
  refine scanNumber_point _ positive (whole_take (whole_digitOctets d) (digitOctets_ne_zero hd) hn)
    (fun b hb => isDigit_of_mem_digitOctets b (List.mem_of_mem_drop hb))
    (fun h => Nat.not_le.2 hlt (List.drop_eq_nil_iff.1 h)) ?_
  rw [List.take_append_drop, runValue_digitOctets]; omega

/-- The digits of a number that is not zero, with a point among or beside them. -/
theorem scanNumber_positional {d : Nat} {point : Int} (positive : Bool) (hd : d ≠ 0)
    (h17 : d ≤ 10 ^ 17 + 1) (hp : point ≤ 16) :
    ∃ y, ∀ rest, EndsNumber rest →
      scanNumber positive (octetsOf (positionalText true (Nat.toDigits 10 d) point) ++ rest) =
        .ok (.real y, rest) := by
  have hoct : octetsOf (Nat.toDigits 10 d) = digitOctets d := rfl
  have hlen : (Nat.toDigits 10 d).length = (digitOctets d).length := (List.length_map _).symm
  unfold positionalText
  dsimp only
  split
  · have htext : octetsOf ('0' :: '.' :: zeros (-point).toNat ++ Nat.toDigits 10 d) =
        [0x30] ++ 0x2E :: (List.replicate (-point).toNat 0x30 ++ digitOctets d) := by
      rw [← octetsOf_zeros, ← hoct]; simp [octetsOf]
    obtain ⟨y, hy⟩ := scanNumber_zeros_between positive h17 (-point).toNat
    refine ⟨y, fun rest hrest => ?_⟩
    rw [htext, List.append_assoc]
    exact hy rest hrest
  split
  · rename_i hpos hle
    have hn : point.toNat ≤ 16 := by omega
    generalize point.toNat = n at *
    rw [hlen] at hle ⊢
    have htext : octetsOf (Nat.toDigits 10 d ++ zeros (n - (digitOctets d).length) ++
        (if true = true then ['.', '0'] else [])) =
        (digitOctets d ++ List.replicate (n - (digitOctets d).length) 0x30) ++ 0x2E :: [0x30] := by
      rw [← octetsOf_zeros, ← hoct]; simp [octetsOf]
    obtain ⟨y, hy⟩ := scanNumber_zeros_behind positive hd hn hle
    refine ⟨y, fun rest hrest => ?_⟩
    rw [htext, List.append_assoc]
    exact hy rest hrest
  · rename_i hpos hle
    have hn : point.toNat ≠ 0 := by omega
    generalize point.toNat = n at *
    rw [hlen] at hle
    have htext : octetsOf ((Nat.toDigits 10 d).take n ++ '.' :: (Nat.toDigits 10 d).drop n) =
        (digitOctets d).take n ++ 0x2E :: (digitOctets d).drop n := by
      rw [← hoct]; simp [octetsOf]
    obtain ⟨y, hy⟩ := scanNumber_point_among positive hd h17 hn (Nat.not_le.1 hle)
    refine ⟨y, fun rest hrest => ?_⟩
    rw [htext, List.append_assoc]
    exact hy rest hrest

theorem octetsOf_exponentText (digits : List Char) (e : Int) :
    octetsOf (exponentText digits e) =
      mantissaOctets (octetsOf digits) ++ 0x65 :: exponentOctets e := by
  have hsign : octetsOf ((if e < 0 then '-' else '+') :: Nat.toDigits 10 e.natAbs) =
      exponentOctets e := by
    unfold exponentOctets
    split <;> rfl
  rw [← hsign]
  match digits with
  | [] | [_] | _ :: _ :: _ => simp [exponentText, octetsOf, mantissaOctets]

/-- One digit, the others behind a point, and an exponent. -/
theorem scanNumber_scientific {s : Scientific} (positive : Bool) (hd : s.digits ≠ 0)
    (h17 : s.digits ≤ 10 ^ 17 + 1)
    (he : (s.exponent + ((Nat.toDigits 10 s.digits).length : Int) - 1).natAbs ≤ maxExponent)
    (hf : 0 ≤ s.exponent → s.exponent ≤ 308 ∧
      ((Binary64.ofNat s.digits).mul (.ofNat (tenTo s.exponent.toNat))).isFinite = true) :
    ∃ y, ∀ rest, EndsNumber rest →
      scanNumber positive (octetsOf (exponentText (Nat.toDigits 10 s.digits)
        (s.exponent + ((Nat.toDigits 10 s.digits).length : Int) - 1)) ++ rest) =
        .ok (.real y, rest) := by
  have hmax : maxSignificand = 18446744073709551615 := rfl
  have hval := runValue_digitOctets s.digits
  have hdig := @isDigit_of_mem_digitOctets s.digits
  have hwhole := whole_take (whole_digitOctets s.digits) (digitOctets_ne_zero hd) Nat.one_ne_zero
  have hoct : octetsOf (Nat.toDigits 10 s.digits) = digitOctets s.digits := rfl
  have hlen : (Nat.toDigits 10 s.digits).length = (digitOctets s.digits).length :=
    (List.length_map _).symm
  obtain ⟨b, run, hrun, _⟩ := exists_digit_of_whole (whole_digitOctets s.digits)
  rw [hrun] at hwhole hval hdig hlen
  have he' : s.exponent + ((Nat.toDigits 10 s.digits).length : Int) - 1 - run.length =
      s.exponent := by
    rw [hlen, List.length_cons]; push_cast; omega
  obtain ⟨y, hy⟩ := scanNumber_exponent positive hwhole
    (fun x hx => hdig x (List.mem_cons_of_mem _ hx)) (by rw [hval]; omega) he
    (by rw [hval, he']; exact hf)
  refine ⟨y, fun rest hrest => ?_⟩
  rw [octetsOf_exponentText, hoct, hrun, ← hy rest hrest]
  simp only [List.append_assoc, List.cons_append]

theorem digitCount_bound {d : Nat} (h : d ≤ 10 ^ 17 + 1) : digitCount d ≤ 18 :=
  digitCount_le_of_lt (by decide) (Nat.lt_of_le_of_lt h (by decide))

/-- The text of a finite number is read back as some number, whatever follows it. -/
theorem scanNumber_magnitude {x : Binary64} (positive : Bool) (hx : x.isFinite = true) :
    ∃ y, ∀ rest, EndsNumber rest →
      scanNumber positive (octetsOf (realLayout.magnitude (shortest .toEven x)) ++ rest) =
        .ok (.real y, rest) := by
  by_cases hz : x.isZero = true
  · have hs : shortest .toEven x = ⟨0, 0⟩ := by rw [shortest, if_pos hz]
    rw [hs]
    exact scanNumber_point [0x30] positive .zero (isDigit_of_mem_replicate (k := 1))
      (List.cons_ne_nil _ _) (by decide)
  rw [Bool.not_eq_true] at hz
  obtain ⟨h17, hne, _, hlow, hhigh⟩ := shortest_spec hz .toEven
  have hlead := leadingExponent_bounds (units_lt hx)
  have hcount := digitCount_bound h17
  have hf := isFinite_digits_mul hx hz
  generalize shortest .toEven x = s at *
  unfold Layout.magnitude
  rw [if_neg hne]
  have hmax : maxExponent = 2147483647 := rfl
  by_cases hp : -5 ≤ s.exponent + ((Nat.toDigits 10 s.digits).length : Int) - 1 ∧
      s.exponent + ((Nat.toDigits 10 s.digits).length : Int) - 1 ≤ 15
  · simp only [realLayout, hp, decide_true, Bool.and_self, if_true]
    exact scanNumber_positional positive hne h17 (by omega)
  · have hp' : (decide (-5 ≤ s.exponent + ((Nat.toDigits 10 s.digits).length : Int) - 1) &&
        decide (s.exponent + ((Nat.toDigits 10 s.digits).length : Int) - 1 ≤ 15)) = false := by
      rw [← Bool.decide_and]; exact decide_eq_false hp
    simp only [realLayout, hp', Bool.false_eq_true, if_false]
    refine scanNumber_scientific positive hne h17 ?_ hf
    unfold digitCount at hcount
    omega

end Json
end FrameEngine
