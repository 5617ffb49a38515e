import FrameEngine.Json.Printer
import FrameEngine.Json.Scanner
import FrameEngine.Proofs.Text.Runs
import FrameEngine.Proofs.Text.Utf8

/-!
# FrameEngine.Proofs.Json.Tokens

The tokens that the printer writes are scanned back, whatever follows them: strings
(`scanText_escaped`) and whole numbers (`scanNumber_whole`). Of a number the rest has to be such
that it cannot go on in it (`EndsNumber`).
-/

namespace FrameEngine
namespace Json

theorem skipBlank_cons {b : UInt8} {rest : Octets} (h : isBlank b = false) :
    skipBlank (b :: rest) = b :: rest := by
  simp only [skipBlank, h, Bool.false_eq_true, if_false]

/-! ## Strings -/

/-- An octet that stands for itself in a string. -/
def isPlain (b : UInt8) : Bool := b ≠ 0x22 && b ≠ 0x5C && 0x20 ≤ b

theorem scanTextOnto_plain {octets : Octets} (h : ∀ b ∈ octets, isPlain b = true)
    (done rest : Octets) :
    scanTextOnto .plain done (octets ++ rest) =
      scanTextOnto .plain (octets.reverse ++ done) rest := by
  induction octets generalizing done with
  | nil => rfl
  | cons b octets ih =>
    have hb := h b List.mem_cons_self
    simp only [isPlain, Bool.and_eq_true, decide_eq_true_eq] at hb
    obtain ⟨⟨h1, h2⟩, h3⟩ := hb
    have h4 : ¬ b < 0x20 := UInt8.not_lt.2 h3
    rw [List.cons_append, scanTextOnto]
    simp only [h1, h2, h4, if_false]
    rw [ih (fun x hx => h x (List.mem_cons_of_mem _ hx)), List.reverse_cons, List.append_assoc]
    rfl

theorem isPlain_of_le {n : Nat} (h : 0x80 ≤ n) (h' : n < 256) : isPlain (.ofNat n) = true := by
  have hn : (UInt8.ofNat n).toNat = n := Utf8.toNat_ofNat_of_lt h'
  simp only [isPlain, Bool.and_eq_true, decide_eq_true_eq, ne_eq, ← UInt8.toNat_inj,
    UInt8.le_iff_toNat_le, hn, UInt8.reduceToNat]
  omega

theorem isPlain_ofChar {c : Char} (hq : c ≠ '"') (hs : c ≠ '\\') (hc : 0x20 ≤ c.toNat) :
    ∀ b ∈ Utf8.ofChar c, isPlain b = true := by
  have hr := Utf8.toNat_range c
  have hq' : c.toNat ≠ 0x22 := fun h => hq (Char.toNat_inj.1 h)
  have hs' : c.toNat ≠ 0x5C := fun h => hs (Char.toNat_inj.1 h)
  unfold Utf8.ofChar
  generalize c.toNat = n at *
  intro b hb
  dsimp only at hb
  split at hb
  · have hn : (UInt8.ofNat n).toNat = n := Utf8.toNat_ofNat_of_lt (by omega)
    rw [List.mem_singleton.1 hb]
    simp only [isPlain, Bool.and_eq_true, decide_eq_true_eq, ne_eq, ← UInt8.toNat_inj,
      UInt8.le_iff_toNat_le, hn, UInt8.reduceToNat]
    omega
  split at hb
  · simp only [List.mem_cons, List.not_mem_nil, or_false] at hb
    rcases hb with rfl | rfl <;> exact isPlain_of_le (by omega) (by omega)
  split at hb
  · simp only [List.mem_cons, List.not_mem_nil, or_false] at hb
    rcases hb with rfl | rfl | rfl <;> exact isPlain_of_le (by omega) (by omega)
  · simp only [List.mem_cons, List.not_mem_nil, or_false] at hb
    rcases hb with rfl | rfl | rfl | rfl <;> exact isPlain_of_le (by omega) (by omega)

theorem hexDigit?_hexDigit (n : Nat) : hexDigit? (hexDigit n) = some (n % 16) := by
  have h : ∀ m < 16, hexDigit? (.ofNat (if m < 10 then 0x30 + m else 0x57 + m)) = some m := by
    decide
  exact h (n % 16) (Nat.mod_lt _ (by decide))

theorem scanTextOnto_hex {n : Nat} (h : n < 0x20) (done rest : Octets) :
    scanTextOnto .plain done
        (0x5C :: 0x75 :: 0x30 :: 0x30 :: hexDigit (n / 16) :: hexDigit n :: rest) =
      scanTextOnto .plain ((Utf8.ofChar (.ofNat n)).reverse ++ done) rest := by
  have h0 : hexDigit? 0x30 = some 0 := by decide
  have hv : (((0 * 16 + 0) * 16 + 0) * 16 + n / 16 % 16) * 16 + n % 16 = n := by omega
  have hc : closeHex n none = .ok (.plain, Utf8.ofChar (Char.ofNat n)) := by
    have h1 : isHighSurrogate n = false := by
      simp only [isHighSurrogate, Bool.and_eq_false_iff, decide_eq_false_iff_not]; omega
    have h2 : isLowSurrogate n = false := by
      simp only [isLowSurrogate, Bool.and_eq_false_iff, decide_eq_false_iff_not]; omega
    simp only [closeHex, h1, h2, Bool.false_eq_true, if_false]
  have hlen : ¬ ((0x30 :: 0x30 :: hexDigit (n / 16) :: hexDigit n :: rest).take 4).length < 4 := by
    simp
  have h5C : ¬ (0x5C : UInt8) = 0x22 := by decide
  -- the backslash, the letter, and a digit at a time
  rw [scanTextOnto, if_neg h5C, if_pos rfl, scanTextOnto, if_pos rfl, if_neg hlen]
  rw [scanTextOnto, h0]
  dsimp only
  rw [if_neg (by decide), scanTextOnto, h0]
  dsimp only
  rw [if_neg (by decide), scanTextOnto, hexDigit?_hexDigit]
  dsimp only
  rw [if_neg (by decide), scanTextOnto, hexDigit?_hexDigit]
  dsimp only
  rw [if_pos (by decide), hv, hc]

theorem scanTextOnto_escapeChar (c : Char) (done rest : Octets) :
    scanTextOnto .plain done (escapeChar c ++ rest) =
      scanTextOnto .plain ((Utf8.ofChar c).reverse ++ done) rest := by
  unfold escapeChar
  split
  · subst c; simp [scanTextOnto, simpleEscape?, Utf8.ofChar]
  split
  · subst c; simp [scanTextOnto, simpleEscape?, Utf8.ofChar]
  split
  · exact scanTextOnto_plain (isPlain_ofChar ‹_› ‹_› ‹_›) done rest
  split
  · subst c; simp [scanTextOnto, simpleEscape?, Utf8.ofChar]
  split
  · subst c; simp [scanTextOnto, simpleEscape?, Utf8.ofChar]
  split
  · subst c; simp [scanTextOnto, simpleEscape?, Utf8.ofChar]
  split
  · rename_i hc; simp [scanTextOnto, simpleEscape?, Utf8.ofChar, hc]
  split
  · rename_i hc; simp [scanTextOnto, simpleEscape?, Utf8.ofChar, hc]
  · rename_i hc _ _ _ _ _
    have := scanTextOnto_hex (Nat.lt_of_not_le hc) done rest
    rw [Char.ofNat_toNat] at this
    exact this

theorem scanTextOnto_escaped (text : List Char) (done rest : Octets) :
    scanTextOnto .plain done (text.flatMap escapeChar ++ 0x22 :: rest) =
      .ok (done.reverse ++ Utf8.encode text, rest) := by
  induction text generalizing done with
  | nil => simp [scanTextOnto, Utf8.encode]
  | cons c text ih =>
    rw [List.flatMap_cons, List.append_assoc, scanTextOnto_escapeChar, ih]
    simp only [List.reverse_append, List.reverse_reverse, List.append_assoc, Utf8.encode,
      List.flatMap_cons]

/-- A string is read back behind its opening quotation mark, whatever follows it. -/
theorem scanText_escaped (s : String) (rest : Octets) :
    scanText (s.toList.flatMap escapeChar ++ 0x22 :: rest) = .ok (s, rest) := by
  simp only [scanText, scanTextOnto_escaped, List.reverse_nil, List.nil_append,
    Utf8.string?_encode, String.ofList_toList]

/-! ## Whole numbers -/

/-- The number whose digits are `v`'s and then those of a run. -/
def runValue (v : Nat) (run : Octets) : Nat := run.foldl (fun n b => n * 10 + digitOf b) v

/-- The digits of a number, as octets. -/
def digitOctets (n : Nat) : Octets := (Nat.toDigits 10 n).map fun c => .ofNat c.toNat

/-- What may stand behind a number without becoming a part of it. -/
def EndsNumber (rest : Octets) : Prop :=
  ∀ b ∈ rest.head?, isDigit b = false ∧ b ≠ 0x2E ∧ b ≠ 0x65 ∧ b ≠ 0x45

theorem runValue_append (v : Nat) (run more : Octets) :
    runValue v (run ++ more) = runValue (runValue v run) more := List.foldl_append

theorem le_runValue (v : Nat) (run : Octets) : v ≤ runValue v run := by
  induction run generalizing v with
  | nil => exact Nat.le_refl v
  | cons b run ih => exact Nat.le_trans (by omega) (ih (v * 10 + digitOf b))

theorem digit_octet {d : Nat} (h : d < 10) :
    UInt8.ofNat d.digitChar.toNat = .ofNat (0x30 + d) := by
  revert d; decide

theorem digitOf_octet {d : Nat} (h : d < 10) : digitOf (.ofNat (0x30 + d)) = d := by
  revert d; decide

theorem isDigit_octet {d : Nat} (h : d < 10) : isDigit (.ofNat (0x30 + d)) = true := by
  revert d; decide

theorem digitOctets_of_lt {n : Nat} (h : n < 10) : digitOctets n = [.ofNat (0x30 + n)] := by
  rw [digitOctets, Nat.toDigits_of_lt_base h, List.map_singleton, digit_octet h]

theorem digitOctets_of_le {n : Nat} (h : 10 ≤ n) :
    digitOctets n = digitOctets (n / 10) ++ [.ofNat (0x30 + n % 10)] := by
  rw [digitOctets, Nat.toDigits_of_base_le (by decide) h, List.map_append, List.map_singleton,
    digit_octet (Nat.mod_lt n (by decide))]
  rfl

theorem isDigit_of_mem_digitOctets {n : Nat} : ∀ b ∈ digitOctets n, isDigit b = true := by
  induction n using Nat.strongRecOn with
  | ind n ih =>
    intro b hb
    rcases Nat.lt_or_ge n 10 with h | h
    · rw [digitOctets_of_lt h] at hb
      rw [List.mem_singleton.1 hb]
      exact isDigit_octet h
    · rw [digitOctets_of_le h, List.mem_append, List.mem_singleton] at hb
      rcases hb with hb | rfl
      · exact ih (n / 10) (by omega) b hb
      · exact isDigit_octet (Nat.mod_lt n (by decide))

theorem runValue_digitOctets (n : Nat) : runValue 0 (digitOctets n) = n := by
  induction n using Nat.strongRecOn with
  | ind n ih =>
    rcases Nat.lt_or_ge n 10 with h | h
    · rw [digitOctets_of_lt h]
      show 0 * 10 + digitOf _ = n
      rw [digitOf_octet h]; omega
    · rw [digitOctets_of_le h, runValue_append, ih (n / 10) (by omega)]
      show n / 10 * 10 + digitOf _ = n
      rw [digitOf_octet (Nat.mod_lt n (by decide))]; omega

/-- The digits before the point: a zero alone, or digits of which the first is not zero. -/
inductive Whole : Octets → Prop where
  | zero : Whole [0x30]
  | leading {b : UInt8} {run : Octets} (lead : b ≠ 0x30) (digits : ∀ x ∈ b :: run, isDigit x = true) :
      Whole (b :: run)

theorem whole_append {run : Octets} (h : Whole run) (hz : run ≠ [0x30]) {more : Octets}
    (hm : ∀ x ∈ more, isDigit x = true) : Whole (run ++ more) := by
  cases h with
  | zero => exact absurd rfl hz
  | leading lead digits =>
    refine .leading lead fun x hx => ?_
    rcases List.mem_append.1 (show x ∈ (_ :: _) ++ more from hx) with hx | hx
    · exact digits x hx
    · exact hm x hx

theorem digitOctets_ne_zero {n : Nat} (h : n ≠ 0) : digitOctets n ≠ [0x30] := by
  intro he
  have := runValue_digitOctets n
  rw [he] at this
  exact h this.symm

theorem whole_digitOctets (n : Nat) : Whole (digitOctets n) := by
  induction n using Nat.strongRecOn with
  | ind n ih =>
    rcases Nat.lt_or_ge n 10 with h | h
    · rw [digitOctets_of_lt h]
      by_cases hz : n = 0
      · subst hz; exact .zero
      · have hb : ∀ n < 10, n ≠ 0 → UInt8.ofNat (0x30 + n) ≠ 0x30 := by decide
        refine .leading (hb n h hz) fun x hx => ?_
        rw [List.mem_singleton.1 hx]
        exact isDigit_octet h
    · rw [digitOctets_of_le h]
      refine whole_append (ih (n / 10) (by omega)) (digitOctets_ne_zero (by omega)) fun x hx => ?_
      rw [List.mem_singleton.1 hx]
      exact isDigit_octet (Nat.mod_lt n (by decide))

theorem isDigit_of_mem_whole {run : Octets} (h : Whole run) : ∀ b ∈ run, isDigit b = true := by
  cases h with
  | zero => intro b hb; rw [List.mem_singleton.1 hb]; decide
  | leading _ digits => exact digits

theorem exists_digit_of_whole {run : Octets} (h : Whole run) :
    ∃ b more, run = b :: more ∧ isDigit b = true := by
  have hd := isDigit_of_mem_whole h
  cases h with
  | zero => exact ⟨_, _, rfl, hd _ List.mem_cons_self⟩
  | leading => exact ⟨_, _, rfl, hd _ List.mem_cons_self⟩

theorem foldl_addWhole {run : Octets} {v : Nat} {e : Int} (h : runValue v run ≤ maxSignificand) :
    run.foldl Significand.addWhole ⟨v, e, false⟩ = ⟨runValue v run, e, false⟩ := by
  induction run generalizing v with
  | nil => rfl
  | cons b run ih =>
    have hv : v * 10 + digitOf b ≤ maxSignificand := Nat.le_trans (le_runValue _ run) h
    have hs : Significand.addWhole ⟨v, e, false⟩ b = ⟨v * 10 + digitOf b, e, false⟩ := by
      simp only [Significand.addWhole, Bool.not_false, true_and, if_pos hv]
    rw [List.foldl_cons, hs]
    exact ih h

/-- The digits before the point, if they fit, become the significand. -/
theorem scanNumber_whole {run rest : Octets} (positive : Bool) (h : Whole run)
    (hr : ∀ b ∈ rest.head?, isDigit b = false) (hv : runValue 0 run ≤ maxSignificand) :
    scanNumber positive (run ++ rest) = scanFraction positive ⟨runValue 0 run, 0, false⟩ rest := by
  have hd := isDigit_of_mem_whole h
  have ht := takeWhile_run hd hr
  have hw := dropWhile_run hd hr
  cases h with
  | zero =>
    cases rest with
    | nil => rfl
    | cons b rest =>
      show (if isDigit b = true then _ else _) = _
      rw [hr b rfl]; rfl
  | @leading b run lead digits =>
    rw [List.cons_append] at ht hw ⊢
    rw [scanNumber]
    · rw [if_pos (hd b List.mem_cons_self), ht, hw, foldl_addWhole hv]
    · intro h; exact absurd h lead

/-- With nothing behind it that belongs to a number, a run of digits is an integer. -/
theorem scanFraction_integer {v : Nat} {rest : Octets} (h : EndsNumber rest) (positive : Bool) :
    scanFraction positive ⟨v, 0, false⟩ rest =
      if positive then .ok (.integer v, rest)
      else if v = 0 ∨ signedLimit < v then .ok (.real (Binary64.ofNat v).neg, rest)
      else .ok (.integer (-v), rest) := by
  unfold scanFraction
  split
  · exact absurd rfl (h _ rfl).2.1
  · exact absurd rfl (h _ rfl).2.2.1
  · exact absurd rfl (h _ rfl).2.2.2
  · rfl

theorem ascii_ofList (text : List Char) :
    ascii (String.ofList text) = text.map fun c => .ofNat c.toNat := by
  rw [ascii, String.toList_ofList]

theorem ascii_append (s t : String) : ascii (s ++ t) = ascii s ++ ascii t := by
  simp only [ascii, String.toList_append, List.map_append]

theorem ascii_digitsOf (n : Nat) : ascii (Decimal.digitsOf n) = digitOctets n := ascii_ofList _

theorem ascii_integerText (n : Int) :
    ascii (Decimal.integerText n) =
      if n < 0 then 0x2D :: digitOctets n.natAbs else digitOctets n.natAbs := by
  unfold Decimal.integerText
  split
  · rw [ascii_append, ascii_digitsOf]; rfl
  · rw [ascii_digitsOf]

end Json
end FrameEngine
