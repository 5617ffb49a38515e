import FrameEngine.Checksum
import FrameEngine.Framing.Unpacking

/-!
# FrameEngine.Framing.Binary

The checksummed framing: a version octet, three words (type, sequence number, length of the data),
the data, the cyclic redundancy check of all that, and two magic octets.

Every frame ends with the magic octets. So when they are not where they should be, the next frame
is looked for behind the next place where they stand (`resync`); the search looks at no more
than `scan` octets.
-/

namespace FrameEngine
namespace Framing
namespace Binary

def headerSize : Nat := 13

def footerSize : Nat := 6

/-- The half word that every frame ends with. -/
def magic : UInt16 := 0xCAFE

def magicSize : Nat := 2

/-- Version, type, sequence number, length of the data, and the data. -/
def checked (m : BinaryMessage) : Octets :=
  m.version :: (Octets.ofWord m.type ++ (Octets.ofWord m.sequence ++
    (Octets.ofWord (.ofNat m.data.length) ++ m.data)))

/-- The frame of a message, whatever its size. -/
def frame (m : BinaryMessage) : Octets :=
  checked m ++ (Octets.ofWord (Checksum.crc32 (checked m)) ++ Octets.ofHalf magic)

/-- The frame of a message, unless it is above the limit or the length of its data does not fit a
word. -/
def pack (max : Nat) (m : BinaryMessage) : Except EngineError Octets :=
  let total := headerSize + m.data.length + footerSize
  if max < total ∨ UInt32.size ≤ m.data.length then .error (.messageTooLarge total max)
  else .ok (frame m)

/-- Version, the three words, and what follows them. -/
def header? : Octets → Option (UInt8 × UInt32 × UInt32 × UInt32 × Octets)
  | [] => none
  | version :: rest =>
    match Octets.word? rest with
    | none => none
    | some (type, rest) =>
      match Octets.word? rest with
      | none => none
      | some (sequence, rest) =>
        match Octets.word? rest with
        | none => none
        | some (length, rest) => some (version, type, sequence, length, rest)

/-- Length of the frame at the front, as its header tells it. -/
def frameLength (max : Nat) (buf : Octets) : Except UnpackFailure Nat :=
  match header? buf with
  | none => .error .short
  | some (_, _, _, length, _) =>
    let total := headerSize + length.toNat + footerSize
    if max < total then .error (.tooLarge total max total buf.length) else .ok total

/-- What to drop when the two octets behind the first `place` are not the magic ones: all through the
next magic pair; if none stands within the scanned window, the window. -/
def resync (scan : Nat) (buf : Octets) (place : Nat) : Discard :=
  let stop := min buf.length (place + scan)
  match Octets.findPair? 0xCA 0xFE ((buf.drop place).take (stop - place)) with
  | some pos => .bytes (place + pos + magicSize)
  | none => if stop = buf.length then .all else .bytes stop

/-- The message at the front. The magic octets are looked at before the check. -/
def unpack (max scan : Nat) (buf : Octets) : Unpacking BinaryMessage :=
  match frameLength max buf with
  | .error failure => .error failure
  | .ok total =>
    if buf.length < total then .error .short
    else match header? buf, buf.drop (total - magicSize) with
      | some (version, type, sequence, length, rest), a :: b :: _ =>
        if Octets.half a b ≠ magic then
          .error ⟨.invalidMagic (Octets.half a b), resync scan buf (total - magicSize)⟩
        else match Octets.word? (buf.drop (total - footerSize)) with
          | none => .error .short
          | some (expected, _) =>
            let actual := Checksum.crc32 (buf.take (total - footerSize))
            if expected ≠ actual then .error ⟨.checksum expected actual, .bytes total⟩
            else .ok (⟨version, type, sequence, rest.take length.toNat⟩, total)
      | _, _ => .error .short

theorem length_of_header? {buf : Octets} {v : UInt8} {t s l : UInt32} {rest : Octets}
    (h : header? buf = some (v, t, s, l, rest)) : buf.length = rest.length + headerSize := by
  unfold header? at h
  split at h
  · cases h
  · split at h
    · cases h
    · rename_i h1
      split at h
      · cases h
      · rename_i h2
        split at h
        · cases h
        · rename_i h3
          cases h
          have := Octets.length_of_word? h1
          have := Octets.length_of_word? h2
          have := Octets.length_of_word? h3
          simp only [List.length_cons, headerSize] at *
          omega

theorem frameLength_bounds {max : Nat} {buf : Octets} {n : Nat} (h : frameLength max buf = .ok n) :
    headerSize + footerSize ≤ n ∧ n ≤ max := by
  unfold frameLength at h
  split at h
  · cases h
  · dsimp only at h
    split at h
    · cases h
    · cases h; omega

theorem frameLength_error {max : Nat} {buf : Octets} {e : UnpackFailure}
    (h : frameLength max buf = .error e) : e = .short ∨ 0 < e.discard.amount buf.length := by
  unfold frameLength at h
  split at h
  · cases h; exact .inl rfl
  · rename_i hh
    have hl := length_of_header? hh
    dsimp only at h
    split at h
    · cases h; right
      refine UnpackFailure.amount_tooLarge_pos ?_ ?_ <;> simp only [headerSize] at * <;> omega
    · cases h

theorem amount_resync_pos {scan : Nat} {buf : Octets} {place : Nat} (h0 : 0 < place)
    (h : place ≤ buf.length) : 0 < (resync scan buf place).amount buf.length := by
  unfold resync
  dsimp only
  split
  · simp only [Discard.amount]; omega
  · split <;> simp only [Discard.amount] <;> omega

theorem unpack_ok {max scan : Nat} {buf : Octets} {m : BinaryMessage} {n : Nat}
    (h : unpack max scan buf = .ok (m, n)) : frameLength max buf = .ok n ∧ n ≤ buf.length := by
  unfold unpack at h
  split at h
  · cases h
  · rename_i total ht
    split at h
    · cases h
    · split at h
      · split at h
        · cases h
        · split at h
          · cases h
          · dsimp only at h
            split at h
            · cases h
            · cases h; exact ⟨ht, by omega⟩
      · cases h

theorem unpack_error {max scan : Nat} {buf : Octets} {e : UnpackFailure}
    (h : unpack max scan buf = .error e) : e = .short ∨ 0 < e.discard.amount buf.length := by
  unfold unpack at h
  split at h
  · rename_i failure hf
    cases h; exact frameLength_error hf
  · rename_i total ht
    have hb := frameLength_bounds ht
    simp only [headerSize, footerSize] at hb
    split at h
    · cases h; exact .inl rfl
    · split at h
      · split at h
        · cases h; right
          refine amount_resync_pos ?_ ?_ <;> simp only [magicSize] <;> omega
        · split at h
          · cases h; exact .inl rfl
          · dsimp only at h
            split at h
            · cases h; right; simp only [Discard.amount]; omega
            · cases h
      · cases h; exact .inl rfl

end Binary
end Framing
end FrameEngine
