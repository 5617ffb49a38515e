import FrameEngine.Framing
import FrameEngine.Proofs.Octets

/-!
# FrameEngine.Proofs.Framing.Layout

What stands where in a frame. A header that is read is the front of the buffer, word for word
(`header?_eq_some_iff`), and one is read as soon as its octets are there (`exists_header?`).

A buffer that holds a whole checksummed frame is what the check covers, a word, two octets and a
tail (`Binary.exists_parts`), and these parts decide what comes of it (`Binary.unpack_parts`).
-/

namespace FrameEngine
namespace Framing

open Octets (ofWord)

theorem Binary.header?_eq_some_iff {buf rest : Octets} {v : UInt8} {t s l : UInt32} :
    Binary.header? buf = some (v, t, s, l, rest) ↔
      buf = v :: (ofWord t ++ (ofWord s ++ (ofWord l ++ rest))) := by
  constructor
  · intro h
    unfold Binary.header? at h
    split at h
    · cases h
    · split at h
      · cases h
      · rename_i ht
        split at h
        · cases h
        · rename_i hs
          split at h
          · cases h
          · rename_i hl
            cases h
            rw [Octets.word?_eq_some_iff.1 ht, Octets.word?_eq_some_iff.1 hs,
              Octets.word?_eq_some_iff.1 hl]
  · rintro rfl
    simp only [Binary.header?, Octets.word?_ofWord]

theorem Field.header?_eq_some_iff {buf rest : Octets} {n t s l : UInt32} :
    Field.header? buf = some (n, t, s, l, rest) ↔
      buf = ofWord n ++ (ofWord t ++ (ofWord s ++ (ofWord l ++ rest))) := by
  constructor
  · intro h
    unfold Field.header? at h
    split at h
    · cases h
    · rename_i hn
      split at h
      · cases h
      · rename_i ht
        split at h
        · cases h
        · rename_i hs
          split at h
          · cases h
          · rename_i hl
            cases h
            rw [Octets.word?_eq_some_iff.1 hn, Octets.word?_eq_some_iff.1 ht,
              Octets.word?_eq_some_iff.1 hs, Octets.word?_eq_some_iff.1 hl]
  · rintro rfl
    simp only [Field.header?, Octets.word?_ofWord]

theorem Binary.exists_header? (buf : Octets) (h : Binary.headerSize ≤ buf.length) :
    ∃ v t s l rest, Binary.header? buf = some (v, t, s, l, rest) := by
  simp only [Binary.headerSize] at h
  cases buf with
  | nil => simp at h
  | cons v buf =>
    rw [List.length_cons] at h
    obtain ⟨t, buf₁, ht⟩ := Octets.exists_word? buf (by omega)
    have h₁ := Octets.length_of_word? ht
    obtain ⟨s, buf₂, hs⟩ := Octets.exists_word? buf₁ (by omega)
    have h₂ := Octets.length_of_word? hs
    obtain ⟨l, rest, hl⟩ := Octets.exists_word? buf₂ (by omega)
    exact ⟨v, t, s, l, rest, by simp only [Binary.header?, ht, hs, hl]⟩

theorem Field.exists_header? (buf : Octets) (h : Field.headerSize ≤ buf.length) :
    ∃ n t s l rest, Field.header? buf = some (n, t, s, l, rest) := by
  simp only [Field.headerSize] at h
  obtain ⟨n, buf₁, hn⟩ := Octets.exists_word? buf (by omega)
  have h₁ := Octets.length_of_word? hn
  obtain ⟨t, buf₂, ht⟩ := Octets.exists_word? buf₁ (by omega)
  have h₂ := Octets.length_of_word? ht
  obtain ⟨s, buf₃, hs⟩ := Octets.exists_word? buf₂ (by omega)
  have h₃ := Octets.length_of_word? hs
  obtain ⟨l, rest, hl⟩ := Octets.exists_word? buf₃ (by omega)
  exact ⟨n, t, s, l, rest, by simp only [Field.header?, hn, ht, hs, hl]⟩

theorem Binary.eq_of_frameLength {max n : Nat} {buf rest : Octets} {v : UInt8} {t s l : UInt32}
    (hh : Binary.header? buf = some (v, t, s, l, rest)) (h : Binary.frameLength max buf = .ok n) :
    n = Binary.headerSize + l.toNat + Binary.footerSize := by
  simp only [Binary.frameLength, hh] at h
  split at h
  · cases h
  · cases h; rfl

theorem Binary.length_checked (m : BinaryMessage) :
    (Binary.checked m).length = Binary.headerSize + m.data.length := by
  simp only [Binary.checked, List.length_cons, List.length_append, Octets.length_ofWord,
    Binary.headerSize]
  omega

/-- A buffer that holds the whole frame its header tells of. -/
theorem Binary.exists_parts {max n : Nat} {buf : Octets} (h : Binary.frameLength max buf = .ok n)
    (hn : n ≤ buf.length) :
    ∃ m check a b tail, buf = Binary.checked m ++ (ofWord check ++ a :: b :: tail) ∧
      m.data.length < UInt32.size ∧ n = Binary.headerSize + m.data.length + Binary.footerSize := by
  have hb := Binary.frameLength_bounds h
  obtain ⟨v, t, s, l, rest, hh⟩ := Binary.exists_header? buf (by omega)
  have hl := Binary.eq_of_frameLength hh h
  have hrest := Binary.length_of_header? hh
  simp only [Binary.headerSize, Binary.footerSize] at hl hrest ⊢
  have hd : (rest.take l.toNat).length = l.toNat := List.length_take_of_le (by omega)
  obtain ⟨check, behind, hc⟩ := Octets.exists_word? (rest.drop l.toNat)
    (by rw [List.length_drop]; omega)
  have hlen := Octets.length_of_word? hc
  rw [List.length_drop] at hlen
  obtain ⟨a, b, tail, rfl⟩ := Octets.exists_cons_cons behind (by omega)
  refine ⟨⟨v, t, s, rest.take l.toNat⟩, check, a, b, tail, ?_, ?_, by rw [hd, hl]⟩
  · have hw : UInt32.ofNat (rest.take l.toNat).length = l := by rw [hd, UInt32.ofNat_toNat]
    rw [Binary.header?_eq_some_iff.1 hh, ← Octets.word?_eq_some_iff.1 hc]
    simp only [Binary.checked, hw, List.cons_append, List.append_assoc, List.take_append_drop]
  · rw [hd]; exact l.toNat_lt_size

section Parts

variable {m : BinaryMessage} {check : UInt32} {a b : UInt8} {buf tail : Octets}

theorem Binary.length_of_parts (h : buf = Binary.checked m ++ (ofWord check ++ a :: b :: tail)) :
    buf.length = Binary.headerSize + m.data.length + Binary.footerSize + tail.length := by
  have hc := Binary.length_checked m
  simp only [h, List.length_append, List.length_cons, hc, Octets.length_ofWord, Binary.footerSize]
  omega

theorem Binary.header?_of_parts (h : buf = Binary.checked m ++ (ofWord check ++ a :: b :: tail)) :
    Binary.header? buf = some (m.version, m.type, m.sequence, .ofNat m.data.length,
      m.data ++ (ofWord check ++ a :: b :: tail)) := by
  apply Binary.header?_eq_some_iff.2
  rw [h]
  simp only [Binary.checked, List.cons_append, List.append_assoc]

theorem Binary.take_of_parts (h : buf = Binary.checked m ++ (ofWord check ++ a :: b :: tail)) :
    buf.take (Binary.headerSize + m.data.length) = Binary.checked m := by
  rw [h, List.take_left' (Binary.length_checked m)]

theorem Binary.drop_check_of_parts (h : buf = Binary.checked m ++ (ofWord check ++ a :: b :: tail)) :
    buf.drop (Binary.headerSize + m.data.length) = ofWord check ++ a :: b :: tail := by
  rw [h, List.drop_left' (Binary.length_checked m)]

theorem Binary.drop_magic_of_parts (h : buf = Binary.checked m ++ (ofWord check ++ a :: b :: tail)) :
    buf.drop (Binary.headerSize + m.data.length + 4) = a :: b :: tail := by
  have hl : (Binary.checked m ++ ofWord check).length = Binary.headerSize + m.data.length + 4 := by
    rw [List.length_append, Binary.length_checked, Octets.length_ofWord]
  rw [h, ← List.append_assoc, List.drop_left' hl]

theorem Binary.sub_magicSize (n : Nat) : n + Binary.footerSize - Binary.magicSize = n + 4 := by
  simp only [Binary.footerSize, Binary.magicSize]
  omega

theorem Binary.frameLength_of_parts {max : Nat}
    (h : buf = Binary.checked m ++ (ofWord check ++ a :: b :: tail))
    (hm : Binary.headerSize + m.data.length + Binary.footerSize ≤ max)
    (hw : m.data.length < UInt32.size) :
    Binary.frameLength max buf = .ok (Binary.headerSize + m.data.length + Binary.footerSize) := by
  have hl : (UInt32.ofNat m.data.length).toNat = m.data.length := UInt32.toNat_ofNat_of_lt' hw
  simp only [Binary.frameLength, Binary.header?_of_parts h, hl]
  rw [if_neg (by omega)]

/-- What comes of such a buffer. -/
theorem Binary.unpack_parts {max scan : Nat}
    (h : buf = Binary.checked m ++ (ofWord check ++ a :: b :: tail))
    (hm : Binary.headerSize + m.data.length + Binary.footerSize ≤ max)
    (hw : m.data.length < UInt32.size) :
    Binary.unpack max scan buf =
      if Octets.half a b ≠ Binary.magic then
        .error ⟨.invalidMagic (Octets.half a b),
          Binary.resync scan buf (Binary.headerSize + m.data.length + 4)⟩
      else if check ≠ Checksum.crc32 (Binary.checked m) then
        .error ⟨.checksum check (Checksum.crc32 (Binary.checked m)),
          .bytes (Binary.headerSize + m.data.length + Binary.footerSize)⟩
      else .ok (m, Binary.headerSize + m.data.length + Binary.footerSize) := by
  have hl : (UInt32.ofNat m.data.length).toNat = m.data.length := UInt32.toNat_ofNat_of_lt' hw
  have hlt : ¬ buf.length < Binary.headerSize + m.data.length + Binary.footerSize := by
    rw [Binary.length_of_parts h]; omega
  have hc : Octets.word? (buf.drop (Binary.headerSize + m.data.length)) =
      some (check, a :: b :: tail) := by
    rw [Binary.drop_check_of_parts h, Octets.word?_ofWord]
  simp only [Binary.unpack, Binary.frameLength_of_parts h hm hw, Binary.header?_of_parts h,
    Binary.sub_magicSize, Nat.add_sub_cancel, Binary.drop_magic_of_parts h, Binary.take_of_parts h,
    hc, hl, if_neg hlt, List.take_left']

end Parts

end Framing
end FrameEngine
