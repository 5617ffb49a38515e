import FrameEngine.Proofs.Checksum
import FrameEngine.Proofs.Framing.RoundTrip

/-!
# FrameEngine.Proofs.Framing.Corruption

What happens to a frame of the checksummed framing on its way is noticed (`corruption_detected`): a
change of up to four octets side by side before the length, in the data or in the check is a wrong
check, and one of the last two octets is a wrong magic number. No message comes of either.

The length in the header is left alone, so the changed frame has the parts of the first one; either
what the check covers differs in the window, and then so does its check, or the check itself does.
-/

namespace FrameEngine
namespace Framing

open Octets (ofWord wordAt? AgreeOutside)

theorem crc32_ne_of_agreeOutside {lo hi : Nat} {x y : Octets} (h : AgreeOutside lo hi x y)
    (hw : hi ≤ lo + 4) (hne : x ≠ y) : Checksum.crc32 x ≠ Checksum.crc32 y := by
  obtain ⟨before, u, v, behind, rfl, rfl, hl, hu⟩ := Octets.exists_split_of_agreeOutside h
  refine Checksum.crc32_ne_of_burst before behind hl (by omega) ?_
  rintro rfl
  exact hne rfl

namespace Binary

/-- The window lies wholly before the length, in the data, or in the check. -/
def InOnePart (m : BinaryMessage) (lo hi : Nat) : Prop :=
  hi ≤ 9 ∨ headerSize ≤ lo ∧ hi ≤ headerSize + m.data.length ∨
    headerSize + m.data.length ≤ lo ∧ hi ≤ headerSize + m.data.length + 4

theorem exists_parts_of_changed {max lo hi : Nat} {m : BinaryMessage} {out out' : Octets}
    (hp : pack max m = .ok out) (ha : AgreeOutside lo hi out out') (hlen : hi ≤ 9 ∨ headerSize ≤ lo) :
    headerSize + m.data.length + footerSize ≤ max ∧
      ∃ m' check a b, m'.data.length = m.data.length ∧ m'.data.length < UInt32.size ∧
        out = checked m ++ (ofWord (Checksum.crc32 (checked m)) ++ [0xCA, 0xFE]) ∧
        out' = checked m' ++ (ofWord check ++ [a, b]) := by
  obtain ⟨rfl, hmax, hw⟩ := pack_eq_ok_iff.1 hp
  have hf : frameLength max (frame m) = .ok (headerSize + m.data.length + footerSize) := by
    have := unpack_frame 0 [] hmax hw
    rw [List.append_nil] at this
    exact (unpack_ok this).1
  have hcongr : frameLength max (frame m) = frameLength max out' :=
    frameLength_congr (f := binary max 0) ha.1 fun i h9 h13 => by
      simp only [lengthPlace, headerSize] at h9 h13 hlen
      exact ha.2 i (by omega)
  have hl := ha.1
  rw [length_frame] at hl
  obtain ⟨m', check, a, b, tail, hout, hw', hn⟩ := exists_parts (hcongr ▸ hf) (by omega)
  have hlen := length_of_parts hout
  have htail : tail = [] := List.length_eq_zero_iff.1 (by omega)
  subst htail
  exact ⟨hmax, m', check, a, b, by omega, hw', rfl, hout⟩

/-- A burst in one part makes the check wrong. -/
theorem check_ne_of_burst {lo hi : Nat} {m m' : BinaryMessage} {check : UInt32} {a b : UInt8}
    (hl : m'.data.length = m.data.length)
    (ha : AgreeOutside lo hi (checked m ++ (ofWord (Checksum.crc32 (checked m)) ++ [0xCA, 0xFE]))
      (checked m' ++ (ofWord check ++ [a, b])))
    (hne : checked m' ++ (ofWord check ++ [a, b]) ≠
      checked m ++ (ofWord (Checksum.crc32 (checked m)) ++ [0xCA, 0xFE]))
    (hw : hi ≤ lo + 4) (hpart : InOnePart m lo hi) :
    Octets.half a b = magic ∧ check ≠ Checksum.crc32 (checked m') := by
  have hc : (checked m).length = (checked m').length := by
    rw [length_checked, length_checked, hl]
  have hcm := length_checked m
  have hin : hi ≤ (checked m).length ∨
      (checked m).length ≤ lo ∧ hi ≤ (checked m).length + 4 := by
    simp only [InOnePart, headerSize] at hpart hcm ⊢
    omega
  rcases hin with hin | ⟨hlo, hhi⟩
  · -- the check is the old one, of other octets
    obtain ⟨hbody, hend⟩ := Octets.agreeOutside_left ha hc hin
    obtain ⟨hcheck, hab⟩ := List.append_inj hend rfl
    cases hab
    have hcheck' : Checksum.crc32 (checked m) = check := Octets.ofWord_inj hcheck
    refine ⟨rfl, ?_⟩
    rw [← hcheck']
    refine crc32_ne_of_agreeOutside hbody hw ?_
    intro he
    rw [hcheck', he] at hne
    exact hne rfl
  · -- the octets are the old ones, with another check
    obtain ⟨hbody, hend⟩ := Octets.agreeOutside_right ha hc hlo
    obtain ⟨_, hab⟩ := Octets.agreeOutside_left hend rfl (by rw [Octets.length_ofWord]; omega)
    cases hab
    refine ⟨rfl, ?_⟩
    rintro rfl
    rw [← hbody] at hne
    exact hne rfl

theorem half_ne_of_changed {lo hi : Nat} {m m' : BinaryMessage} {check : UInt32} {a b : UInt8}
    (hl : m'.data.length = m.data.length)
    (ha : AgreeOutside lo hi (checked m ++ (ofWord (Checksum.crc32 (checked m)) ++ [0xCA, 0xFE]))
      (checked m' ++ (ofWord check ++ [a, b])))
    (hne : checked m' ++ (ofWord check ++ [a, b]) ≠
      checked m ++ (ofWord (Checksum.crc32 (checked m)) ++ [0xCA, 0xFE]))
    (hlo : headerSize + m.data.length + 4 ≤ lo) : Octets.half a b ≠ magic := by
  have hc : (checked m).length = (checked m').length := by
    rw [length_checked, length_checked, hl]
  have hcm := length_checked m
  obtain ⟨hbody, hend⟩ := Octets.agreeOutside_right ha hc (by omega)
  obtain ⟨hcheck, _⟩ := Octets.agreeOutside_right hend rfl (by rw [Octets.length_ofWord]; omega)
  intro hab
  have : [a, b] = [0xCA, 0xFE] := by rw [← Octets.ofHalf_half, hab]; rfl
  rw [hcheck, hbody, this] at hne
  exact hne rfl

end Binary

/-- A frame that was changed in a window of at most four octets, before its length, in its data or in
its check, has a wrong check; one that was changed in its last two octets has a wrong magic number. -/
theorem corruption_detected {max scan lo hi : Nat} {m : BinaryMessage} {out out' : Octets}
    (hp : (binary max scan).pack (.binary m) = .ok out) (ha : AgreeOutside lo hi out out')
    (hne : out' ≠ out) :
    (hi ≤ lo + 4 → Binary.InOnePart m lo hi →
      ∃ expected, wordAt? out' (out.length - Binary.footerSize) = some expected ∧
        (binary max scan).unpack out' = .error ⟨.checksum expected
          (Checksum.crc32 (out'.take (out.length - Binary.footerSize))), .bytes out.length⟩) ∧
    (out.length - Binary.magicSize ≤ lo →
      ∃ a b discard, out'.drop (out.length - Binary.magicSize) = [a, b] ∧
        (binary max scan).unpack out' = .error ⟨.invalidMagic (Octets.half a b), discard⟩) := by
  have hl : out.length = Binary.headerSize + m.data.length + Binary.footerSize := by
    rw [(Binary.pack_eq_ok_iff.1 hp).1, Binary.length_frame]
  refine ⟨fun hw hpart => ?_, fun hlo => ?_⟩
  · obtain ⟨hmax, m', check, a, b, hd, hw', rfl, hout⟩ := Binary.exists_parts_of_changed hp ha
      (by simp only [Binary.InOnePart] at hpart; omega)
    obtain ⟨hmagic, hcheck⟩ := Binary.check_ne_of_burst hd (hout ▸ ha) (hout ▸ hne) hw hpart
    rw [hl, Nat.add_sub_cancel, ← hd, Binary.take_of_parts hout]
    refine ⟨check, Octets.wordAt?_of_drop (Binary.drop_check_of_parts hout), ?_⟩
    rw [unpack, Binary.unpack_parts hout (hd ▸ hmax) hw', if_neg (not_not.2 hmagic), if_pos hcheck]
    rfl
  · have hlo' : Binary.headerSize + m.data.length + 4 ≤ lo := by
      rwa [hl, Binary.sub_magicSize] at hlo
    obtain ⟨hmax, m', check, a, b, hd, hw', rfl, hout⟩ := Binary.exists_parts_of_changed hp ha
      (by omega)
    have hmagic := Binary.half_ne_of_changed hd (hout ▸ ha) (hout ▸ hne) hlo'
    rw [hl, Binary.sub_magicSize, ← hd]
    refine ⟨a, b, Binary.resync scan out' (Binary.headerSize + m'.data.length + 4),
      Binary.drop_magic_of_parts hout, ?_⟩
    rw [unpack, Binary.unpack_parts hout (hd ▸ hmax) hw', if_pos hmagic]
    rfl

/-- All four octets of the sequence number are changed. -/
theorem corruption_detected_of_sequence :
    (binary 64 64).pack (.binary ⟨1, 2, 3, [0xCA, 0xFE]⟩) =
        .ok [1, 0, 0, 0, 2, 0, 0, 0, 3, 0, 0, 0, 2, 0xCA, 0xFE, 111, 56, 79, 226, 0xCA, 0xFE] ∧
      ∃ expected,
        wordAt? [1, 0, 0, 0, 2, 9, 9, 9, 9, 0, 0, 0, 2, 0xCA, 0xFE, 111, 56, 79, 226, 0xCA, 0xFE]
          15 = some expected ∧
        (binary 64 64).unpack
          [1, 0, 0, 0, 2, 9, 9, 9, 9, 0, 0, 0, 2, 0xCA, 0xFE, 111, 56, 79, 226, 0xCA, 0xFE] =
          .error ⟨.checksum expected
            (Checksum.crc32 [1, 0, 0, 0, 2, 9, 9, 9, 9, 0, 0, 0, 2, 0xCA, 0xFE]), .bytes 21⟩ := by
  have hp : (binary 64 64).pack (.binary ⟨1, 2, 3, [0xCA, 0xFE]⟩) =
      .ok [1, 0, 0, 0, 2, 0, 0, 0, 3, 0, 0, 0, 2, 0xCA, 0xFE, 111, 56, 79, 226, 0xCA, 0xFE] := by
    rw [pack, Binary.pack_eq_ok_iff]
    decide +kernel
  have ha : AgreeOutside 5 9
      [1, 0, 0, 0, 2, 0, 0, 0, 3, 0, 0, 0, 2, 0xCA, 0xFE, 111, 56, 79, 226, 0xCA, 0xFE]
      [1, 0, 0, 0, 2, 9, 9, 9, 9, 0, 0, 0, 2, 0xCA, 0xFE, 111, 56, 79, 226, 0xCA, 0xFE] :=
    Octets.agreeOutside_append [1, 0, 0, 0, 2] (u := [0, 0, 0, 3]) (v := [9, 9, 9, 9]) _ rfl
  exact ⟨hp, (corruption_detected hp ha (by decide)).1 (by decide) (.inl (by decide))⟩

end Framing
end FrameEngine
