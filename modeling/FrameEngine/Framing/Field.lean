import FrameEngine.Framing.Unpacking

/-!
# FrameEngine.Framing.Field

The length-field framing: four words (length of the whole frame, type, sequence number, length of
the data), then the data.
-/

namespace FrameEngine
namespace Framing
namespace Field

def headerSize : Nat := 16

/-- The frame of a message, whatever its size. -/
def frame (m : FieldMessage) : Octets :=
  Octets.ofWord (.ofNat (headerSize + m.data.length)) ++ (Octets.ofWord m.type ++
    (Octets.ofWord m.sequence ++ (Octets.ofWord (.ofNat m.data.length) ++ m.data)))

/-- The frame of a message, unless it is above the limit or its length does not fit a word. -/
def pack (max : Nat) (m : FieldMessage) : Except EngineError Octets :=
  let total := headerSize + m.data.length
  if max < total ∨ UInt32.size ≤ total then .error (.messageTooLarge total max) else .ok (frame m)

/-- Length of the frame at the front, as its first word tells it. -/
def frameLength (max : Nat) (buf : Octets) : Except UnpackFailure Nat :=
  match Octets.word? buf with
  | none => .error .short
  | some (word, _) =>
    let total := word.toNat
    if total < headerSize then
      .error ⟨.invalidFormat "declared frame length is smaller than the header", .all⟩
    else if max < total then .error (.tooLarge total max total buf.length)
    else .ok total

/-- The four words at the front and what follows them. -/
def header? (buf : Octets) : Option (UInt32 × UInt32 × UInt32 × UInt32 × Octets) :=
  match Octets.word? buf with
  | none => none
  | some (total, rest) =>
    match Octets.word? rest with
    | none => none
    | some (type, rest) =>
      match Octets.word? rest with
      | none => none
      | some (sequence, rest) =>
        match Octets.word? rest with
        | none => none
        | some (length, rest) => some (total, type, sequence, length, rest)

/-- The message at the front. The two lengths of its header have to agree. -/
def unpack (max : Nat) (buf : Octets) : Unpacking FieldMessage :=
  match frameLength max buf with
  | .error failure => .error failure
  | .ok total =>
    if buf.length < total then .error .short
    else match header? buf with
      | none => .error .short
      | some (_, type, sequence, length, rest) =>
        if headerSize + length.toNat ≠ total then
          let d := length.toNat
          .error ⟨.invalidFormat
            s!"data length does not match declared frame length: total {total}, data {d}",
            .bytes total⟩
        else .ok (⟨type, sequence, rest.take length.toNat⟩, total)

theorem frameLength_bounds {max : Nat} {buf : Octets} {n : Nat} (h : frameLength max buf = .ok n) :
    headerSize ≤ n ∧ n ≤ max := by
  unfold frameLength at h
  split at h
  · cases h
  · dsimp only at h
    split at h
    · cases h
    · split at h
      · cases h
      · cases h; omega

theorem frameLength_error {max : Nat} {buf : Octets} {e : UnpackFailure}
    (h : frameLength max buf = .error e) : e = .short ∨ 0 < e.discard.amount buf.length := by
  unfold frameLength at h
  split at h
  · cases h; exact .inl rfl
  · rename_i word rest hw
    have hl := Octets.length_of_word? hw
    dsimp only at h
    split at h
    · cases h; right; simp only [Discard.amount]; omega
    · split at h
      · cases h; right
        refine UnpackFailure.amount_tooLarge_pos ?_ (by omega)
        simp only [headerSize] at *; omega
      · cases h

theorem unpack_ok {max : Nat} {buf : Octets} {m : FieldMessage} {n : Nat}
    (h : unpack max buf = .ok (m, n)) : frameLength max buf = .ok n ∧ n ≤ buf.length := by
  unfold unpack at h
  split at h
  · cases h
  · rename_i total ht
    split at h
    · cases h
    · split at h
      · cases h
      · split at h
        · cases h
        · cases h; exact ⟨ht, by omega⟩

theorem unpack_error {max : Nat} {buf : Octets} {e : UnpackFailure}
    (h : unpack max buf = .error e) : e = .short ∨ 0 < e.discard.amount buf.length := by
  unfold unpack at h
  split at h
  · rename_i failure hf
    cases h; exact frameLength_error hf
  · rename_i total ht
    have hb := frameLength_bounds ht
    split at h
    · cases h; exact .inl rfl
    · split at h
      · cases h; exact .inl rfl
      · split at h
        · cases h; right; simp only [Discard.amount, headerSize] at *; omega
        · cases h

end Field
end Framing
end FrameEngine
