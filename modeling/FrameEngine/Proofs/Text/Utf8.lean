import FrameEngine.Text.Utf8

/-!
# FrameEngine.Proofs.Text.Utf8

Reading undoes writing: what `encode` makes of a text, `decode?` and `string?` turn into that text
again (`string?_encode`). A character is read back off the front of whatever follows it, one lemma
for each count of octets, so that the text comes by induction.
-/

namespace FrameEngine
namespace Utf8

theorem toNat_ofNat_of_lt {n : Nat} (h : n < 256) : (UInt8.ofNat n).toNat = n :=
  UInt8.toNat_ofNat_of_lt' h

theorem isTail_ofNat {n : Nat} (h : n < 64) : isTail (.ofNat (0x80 + n)) = true := by
  have hn : (UInt8.ofNat (0x80 + n)).toNat = 0x80 + n := toNat_ofNat_of_lt (by omega)
  simp only [isTail, Bool.and_eq_true, decide_eq_true_eq, UInt8.le_iff_toNat_le,
    UInt8.lt_iff_toNat_lt, hn, UInt8.reduceToNat]
  omega

theorem tailBits_ofNat {n : Nat} (h : n < 64) : tailBits (.ofNat (0x80 + n)) = n := by
  have hn : (UInt8.ofNat (0x80 + n)).toNat = 0x80 + n := toNat_ofNat_of_lt (by omega)
  unfold tailBits
  omega

/-- The code points of characters, surrogates apart. -/
theorem toNat_range (c : Char) : c.toNat < 0xD800 ∨ (0xE000 ≤ c.toNat ∧ c.toNat < 0x110000) := by
  have h := c.valid
  simp only [UInt32.isValidChar, Nat.isValidChar] at h
  show c.val.toNat < _ ∨ (_ ≤ c.val.toNat ∧ c.val.toNat < _)
  omega

variable {done : List Char} {rest : Octets} {a b c d : UInt8}

theorem decodeOnto_one (ha : a.toNat < 0x80) :
    decodeOnto done (a :: rest) = decodeOnto (Char.ofNat a.toNat :: done) rest := by
  rw [decodeOnto.eq_def]
  simp only [UInt8.lt_iff_toNat_lt, UInt8.reduceToNat, ha, if_true]

theorem decodeOnto_two (ha : 0xC2 ≤ a.toNat) (ha' : a.toNat < 0xE0) (hb : isTail b = true) :
    decodeOnto done (a :: b :: rest) =
      decodeOnto (Char.ofNat ((a.toNat - 0xC0) * 64 + tailBits b) :: done) rest := by
  have h1 : ¬ a.toNat < 0x80 := by omega
  have h2 : ¬ a.toNat < 0xC2 := by omega
  rw [decodeOnto.eq_def]
  simp only [UInt8.lt_iff_toNat_lt, UInt8.reduceToNat, h1, h2, ha', hb, if_true, if_false,
    Bool.not_true, Bool.false_eq_true]

theorem decodeOnto_three {n : Nat} (ha : 0xE0 ≤ a.toNat) (ha' : a.toNat < 0xF0)
    (hb : isTail b = true) (hc : isTail c = true)
    (hn : n = (a.toNat - 0xE0) * 4096 + tailBits b * 64 + tailBits c)
    (hr : 0x800 ≤ n ∧ (n < 0xD800 ∨ 0xE000 ≤ n)) :
    decodeOnto done (a :: b :: c :: rest) = decodeOnto (Char.ofNat n :: done) rest := by
  have h1 : ¬ a.toNat < 0x80 := by omega
  have h2 : ¬ a.toNat < 0xC2 := by omega
  have h3 : ¬ a.toNat < 0xE0 := by omega
  rw [decodeOnto.eq_def]
  simp only [UInt8.lt_iff_toNat_lt, UInt8.reduceToNat, h1, h2, h3, ha', hb, hc, if_true, if_false,
    Bool.not_true, Bool.false_eq_true, ← hn, hr, and_self]

theorem decodeOnto_four {n : Nat} (ha : 0xF0 ≤ a.toNat)
    (hb : isTail b = true) (hc : isTail c = true) (hd : isTail d = true)
    (hn : n = (a.toNat - 0xF0) * 262144 + tailBits b * 4096 + tailBits c * 64 + tailBits d)
    (hr : 0x10000 ≤ n ∧ n < 0x110000) :
    decodeOnto done (a :: b :: c :: d :: rest) = decodeOnto (Char.ofNat n :: done) rest := by
  have h1 : ¬ a.toNat < 0x80 := by omega
  have h2 : ¬ a.toNat < 0xC2 := by omega
  have h3 : ¬ a.toNat < 0xE0 := by omega
  have h4 : ¬ a.toNat < 0xF0 := by omega
  rw [decodeOnto.eq_def]
  simp only [UInt8.lt_iff_toNat_lt, UInt8.reduceToNat, h1, h2, h3, h4, hb, hc, hd, if_true,
    if_false, Bool.not_true, Bool.false_eq_true, ← hn, hr, and_self]

theorem decodeOnto_ofChar (done : List Char) (c : Char) (rest : Octets) :
    decodeOnto done (ofChar c ++ rest) = decodeOnto (c :: done) rest := by
  have hc := toNat_range c
  have hn : Char.ofNat c.toNat = c := Char.ofNat_toNat c
  unfold ofChar
  generalize c.toNat = n at *
  subst hn
  dsimp only
  split
  · have ha : (UInt8.ofNat n).toNat = n := toNat_ofNat_of_lt (by omega)
    rw [List.cons_append, List.nil_append, decodeOnto_one (by omega), ha]
  split
  · have ha : (UInt8.ofNat (0xC0 + n / 64)).toNat = 0xC0 + n / 64 := toNat_ofNat_of_lt (by omega)
    have hb : n % 64 < 64 := by omega
    simp only [List.cons_append, List.nil_append]
    rw [decodeOnto_two (by omega) (by omega) (isTail_ofNat hb), ha, tailBits_ofNat hb]
    congr 3; omega
  split
  · have ha : (UInt8.ofNat (0xE0 + n / 4096)).toNat = 0xE0 + n / 4096 :=
      toNat_ofNat_of_lt (by omega)
    have hb : n / 64 % 64 < 64 := by omega
    have hc : n % 64 < 64 := by omega
    simp only [List.cons_append, List.nil_append]
    refine decodeOnto_three (by omega) (by omega) (isTail_ofNat hb) (isTail_ofNat hc) ?_ (by omega)
    rw [ha, tailBits_ofNat hb, tailBits_ofNat hc]; omega
  · have ha : (UInt8.ofNat (0xF0 + n / 262144)).toNat = 0xF0 + n / 262144 :=
      toNat_ofNat_of_lt (by omega)
    have hb : n / 4096 % 64 < 64 := by omega
    have hc : n / 64 % 64 < 64 := by omega
    have hd : n % 64 < 64 := by omega
    simp only [List.cons_append, List.nil_append]
    refine decodeOnto_four (by omega) (isTail_ofNat hb) (isTail_ofNat hc) (isTail_ofNat hd) ?_
      (by omega)
    rw [ha, tailBits_ofNat hb, tailBits_ofNat hc, tailBits_ofNat hd]; omega

theorem decodeOnto_encode (done text : List Char) :
    decodeOnto done (encode text) = some (done.reverse ++ text) := by
  induction text generalizing done with
  | nil => rw [List.append_nil]; rfl
  | cons c text ih =>
    show decodeOnto done (ofChar c ++ encode text) = _
    rw [decodeOnto_ofChar, ih, List.reverse_cons, List.append_assoc]; rfl

/-- What is written of a text is read back as that text. -/
theorem string?_encode (text : List Char) : string? (encode text) = some (String.ofList text) := by
  simp only [string?, decode?, decodeOnto_encode, List.reverse_nil, List.nil_append,
    Option.map_some]

end Utf8
end FrameEngine
