import FrameEngine.Proofs.Framing.Positions

/-!
# FrameEngine.Proofs.Framing.RoundTrip

The framings that carry octets write each message in one way only: a message comes off the front of
a buffer exactly if the buffer begins with the frame that the message is packed in
(`unpack_eq_ok_iff_pack`).

For each framing, `pack_eq_ok_iff` says which messages have a frame, `unpack_frame` reads it back
whatever follows, and `eq_frame_of_unpack` finds it in front of whatever was read.
-/

namespace FrameEngine
namespace Framing

open Octets (ofWord)

theorem toNat_ofNat_word {n : Nat} (h : n < UInt32.size) : (UInt32.ofNat n).toNat = n :=
  UInt32.toNat_ofNat_of_lt' h

theorem exists_take_append (data : Octets) {n : Nat} (h : n ≤ data.length) :
    (data.take n).length = n ∧ ∃ tail, data = data.take n ++ tail :=
  ⟨List.length_take_of_le h, data.drop n, (List.take_append_drop n data).symm⟩

theorem lift_eq_ok_iff {α : Type} {g : α → Message} {r : Unpacking α} {m : Message} {n : Nat} :
    lift g r = .ok (m, n) ↔ ∃ a, r = .ok (a, n) ∧ m = g a :=
  ⟨lift_ok, by rintro ⟨a, rfl, rfl⟩; rfl⟩

/-- A frame is packed if it is within the limit and its length can be written in a word. -/
theorem sized_eq_ok_iff {max total size : Nat} {e : EngineError} {frame out : Octets} :
    (if max < total ∨ UInt32.size ≤ size then .error e else .ok frame) =
        (.ok out : Except EngineError Octets) ↔
      out = frame ∧ total ≤ max ∧ size < UInt32.size := by
  split
  · simp only [reduceCtorEq, false_iff]; omega
  · simp only [Except.ok.injEq]
    constructor
    · rintro rfl; exact ⟨rfl, by omega, by omega⟩
    · rintro ⟨rfl, _, _⟩; rfl

namespace Field

theorem length_frame (m : FieldMessage) : (frame m).length = headerSize + m.data.length := by
  simp only [frame, List.length_append, Octets.length_ofWord, headerSize]; omega

theorem pack_eq_ok_iff {max : Nat} {m : FieldMessage} {out : Octets} :
    pack max m = .ok out ↔
      out = frame m ∧ headerSize + m.data.length ≤ max ∧
        headerSize + m.data.length < UInt32.size := by
  unfold pack
  exact sized_eq_ok_iff

/-- A frame is read back, whatever follows it. -/
theorem unpack_frame {max : Nat} {m : FieldMessage} (tail : Octets)
    (hm : headerSize + m.data.length ≤ max) (hw : headerSize + m.data.length < UInt32.size) :
    unpack max (frame m ++ tail) = .ok (m, headerSize + m.data.length) := by
  have hh : header? (frame m ++ tail) = some (.ofNat (headerSize + m.data.length), m.type,
      m.sequence, .ofNat m.data.length, m.data ++ tail) :=
    header?_eq_some_iff.2 (by simp only [frame, List.append_assoc])
  have hf : frameLength max (frame m ++ tail) = .ok (headerSize + m.data.length) := by
    have hn : Octets.word? (frame m ++ tail) = some (.ofNat (headerSize + m.data.length), _) :=
      Octets.word?_eq_some_iff.2 (header?_eq_some_iff.1 hh)
    simp only [frameLength, hn, toNat_ofNat_word hw]
    rw [if_neg (by omega), if_neg (by omega)]
  have hl : (UInt32.ofNat m.data.length).toNat = m.data.length := toNat_ofNat_word (by omega)
  have hlen : ¬ (frame m ++ tail).length < headerSize + m.data.length := by
    rw [List.length_append, length_frame]; omega
  simp only [unpack, hf, hh, hl, if_neg hlen, ne_eq, not_true_eq_false, if_false,
    List.take_left']

/-- What is read begins with its own frame, and the header tells its length. -/
theorem eq_frame_of_unpack {max n : Nat} {buf : Octets} {m : FieldMessage}
    (h : unpack max buf = .ok (m, n)) :
    n = headerSize + m.data.length ∧ n ≤ max ∧ n < UInt32.size ∧ ∃ tail, buf = frame m ++ tail := by
  obtain ⟨hf, hn⟩ := unpack_ok h
  have hb := frameLength_bounds hf
  obtain ⟨total, t, s, l, rest, hh⟩ := exists_header? buf (by omega)
  have hbuf := header?_eq_some_iff.1 hh
  have hlen := congrArg List.length hbuf
  have ht : total.toNat = n := by
    have hw := Octets.word?_eq_some_iff.2 hbuf
    simp only [frameLength, hw] at hf
    split at hf
    · cases hf
    · split at hf
      · cases hf
      · cases hf; rfl
  simp only [unpack, hf, hh, if_neg (Nat.not_lt.2 hn)] at h
  split at h
  · cases h
  · rename_i he
    cases h
    simp only [List.length_append, Octets.length_ofWord, headerSize] at he hlen hb
    obtain ⟨hd, tail, htail⟩ := exists_take_append rest (n := l.toNat) (by omega)
    have hsize := total.toNat_lt_size
    refine ⟨by rw [hd]; simp only [headerSize]; omega, hb.2, by omega, tail, ?_⟩
    have h1 : UInt32.ofNat (headerSize + (rest.take l.toNat).length) = total := by
      apply UInt32.toNat_inj.1
      rw [hd, toNat_ofNat_word] <;> simp only [headerSize] <;> omega
    have h2 : UInt32.ofNat (rest.take l.toNat).length = l := by rw [hd, UInt32.ofNat_toNat]
    simp only [frame, h1, h2, List.append_assoc]
    rw [← htail, hbuf]

theorem unpack_eq_ok_iff {max n : Nat} {buf : Octets} {m : FieldMessage} :
    unpack max buf = .ok (m, n) ↔
      ∃ out, pack max m = .ok out ∧ out.length = n ∧ out <+: buf := by
  constructor
  · intro h
    obtain ⟨hn, hmax, hw, tail, hbuf⟩ := eq_frame_of_unpack h
    exact ⟨frame m, pack_eq_ok_iff.2 ⟨rfl, by omega, by omega⟩, by rw [length_frame, hn], tail,
      hbuf.symm⟩
  · rintro ⟨out, hp, rfl, tail, rfl⟩
    obtain ⟨rfl, hmax, hw⟩ := pack_eq_ok_iff.1 hp
    rw [unpack_frame tail hmax hw, length_frame]

end Field

namespace Binary

theorem length_frame (m : BinaryMessage) :
    (frame m).length = headerSize + m.data.length + footerSize := by
  simp only [frame, List.length_append, length_checked, Octets.length_ofWord, Octets.length_ofHalf,
    footerSize]

theorem pack_eq_ok_iff {max : Nat} {m : BinaryMessage} {out : Octets} :
    pack max m = .ok out ↔
      out = frame m ∧ headerSize + m.data.length + footerSize ≤ max ∧
        m.data.length < UInt32.size := by
  unfold pack
  exact sized_eq_ok_iff

/-- A frame is read back, whatever follows it. -/
theorem unpack_frame {max : Nat} {m : BinaryMessage} (scan : Nat) (tail : Octets)
    (hm : headerSize + m.data.length + footerSize ≤ max) (hw : m.data.length < UInt32.size) :
    unpack max scan (frame m ++ tail) = .ok (m, headerSize + m.data.length + footerSize) := by
  have hbuf : frame m ++ tail =
      checked m ++ (ofWord (Checksum.crc32 (checked m)) ++ 0xCA :: 0xFE :: tail) := by
    simp only [frame, List.append_assoc]; rfl
  have hhalf : Octets.half 0xCA 0xFE = magic := rfl
  rw [unpack_parts hbuf hm hw, if_neg (fun h => h hhalf), if_neg (fun h => h rfl)]

/-- What is read begins with its own frame, and the header tells its length. -/
theorem eq_frame_of_unpack {max scan n : Nat} {buf : Octets} {m : BinaryMessage}
    (h : unpack max scan buf = .ok (m, n)) :
    n = headerSize + m.data.length + footerSize ∧ n ≤ max ∧ m.data.length < UInt32.size ∧
      ∃ tail, buf = frame m ++ tail := by
  obtain ⟨hf, hn⟩ := unpack_ok h
  obtain ⟨_, hmax⟩ := frameLength_bounds hf
  obtain ⟨m', check, a, b, tail, hbuf, hw, rfl⟩ := exists_parts hf hn
  rw [unpack_parts hbuf hmax hw] at h
  split at h
  · cases h
  · rename_i hhalf
    split at h
    · cases h
    · rename_i hcheck
      cases h
      have hab : Octets.ofHalf magic = [a, b] := by
        rw [← Decidable.not_not.1 hhalf, Octets.ofHalf_half]
      refine ⟨rfl, hmax, hw, tail, ?_⟩
      simp only [hbuf, frame, hab, ← Decidable.not_not.1 hcheck, List.append_assoc, List.cons_append,
        List.nil_append]

theorem unpack_eq_ok_iff {max scan n : Nat} {buf : Octets} {m : BinaryMessage} :
    unpack max scan buf = .ok (m, n) ↔
      ∃ out, pack max m = .ok out ∧ out.length = n ∧ out <+: buf := by
  constructor
  · intro h
    obtain ⟨hn, hmax, hw, tail, hbuf⟩ := eq_frame_of_unpack h
    exact ⟨frame m, pack_eq_ok_iff.2 ⟨rfl, by omega, hw⟩, by rw [length_frame, hn], tail,
      hbuf.symm⟩
  · rintro ⟨out, hp, rfl, tail, rfl⟩
    obtain ⟨rfl, hmax, hw⟩ := pack_eq_ok_iff.1 hp
    rw [unpack_frame scan tail hmax hw, length_frame]

end Binary

/-- Reading gives a message exactly if the buffer begins with the frame of that message. So packing
is undone whatever follows the frame, and what was read packs to the octets that it was read from. -/
theorem unpack_eq_ok_iff_pack {f : Framing} (hf : f.kind ≠ .json) (buf : Octets) (m : Message)
    (n : Nat) :
    (f.unpack buf = .ok (m, n) ↔ ∃ out, f.pack m = .ok out ∧ out.length = n ∧ out <+: buf) ∧
    (∀ out tail, f.pack m = .ok out → f.unpack (out ++ tail) = .ok (m, out.length)) ∧
    (f.unpack buf = .ok (m, n) → f.pack m = .ok (buf.take n)) := by
  have key : ∀ buf n, f.unpack buf = .ok (m, n) ↔
      ∃ out, f.pack m = .ok out ∧ out.length = n ∧ out <+: buf := by
    intro buf n
    cases f with
    | field max => cases m <;> simp [unpack, pack, lift_eq_ok_iff, Field.unpack_eq_ok_iff]
    | json max => exact absurd rfl hf
    | binary max scan => cases m <;> simp [unpack, pack, lift_eq_ok_iff, Binary.unpack_eq_ok_iff]
  refine ⟨key buf n, fun out tail hp => ?_, fun h => ?_⟩
  · exact (key _ _).2 ⟨out, hp, rfl, tail, rfl⟩
  · obtain ⟨out, hp, rfl, tail, rfl⟩ := (key _ _).1 h
    rw [List.take_left, hp]

/-- Data that looks like the end of a frame, and half of another end behind the frame. -/
theorem unpack_eq_ok_iff_pack_of_magic_data :
    (binary 64 16).kind ≠ .json ∧
      (binary 64 16).pack (.binary ⟨1, 2, 3, [0xCA, 0xFE]⟩) =
        .ok [1, 0, 0, 0, 2, 0, 0, 0, 3, 0, 0, 0, 2, 0xCA, 0xFE, 111, 56, 79, 226, 0xCA, 0xFE] ∧
      (binary 64 16).unpack
        [1, 0, 0, 0, 2, 0, 0, 0, 3, 0, 0, 0, 2, 0xCA, 0xFE, 111, 56, 79, 226, 0xCA, 0xFE, 0xCA] =
        .ok (.binary ⟨1, 2, 3, [0xCA, 0xFE]⟩, 21) := by
  have hk : (binary 64 16).kind ≠ .json := by decide
  have hp : (binary 64 16).pack (.binary ⟨1, 2, 3, [0xCA, 0xFE]⟩) =
      .ok [1, 0, 0, 0, 2, 0, 0, 0, 3, 0, 0, 0, 2, 0xCA, 0xFE, 111, 56, 79, 226, 0xCA, 0xFE] := by
    rw [pack, Binary.pack_eq_ok_iff]
    decide +kernel
  exact ⟨hk, hp, (unpack_eq_ok_iff_pack hk _ _ 21).1.2 ⟨_, hp, rfl, [0xCA], rfl⟩⟩

end Framing
end FrameEngine
