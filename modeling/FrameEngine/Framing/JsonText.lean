import FrameEngine.Framing.Body

/-!
# FrameEngine.Framing.JsonText

The JSON framing: a word with the length of the text, then the text. The limit is one on the text,
and the word comes on top of it.
-/

namespace FrameEngine
namespace Framing
namespace JsonText

def prefixSize : Nat := 4

def frame (text : Octets) : Octets := Octets.ofWord (.ofNat text.length) ++ text

/-- The frame of a message, unless its text is above the limit or its length does not fit a
word. -/
def pack (max : Nat) (m : JsonMessage) : Except EngineError Octets :=
  let text := Body.render m
  let size := text.length
  if max < size ∨ UInt32.size ≤ size then .error (.messageTooLarge size max) else .ok (frame text)

/-- Length of the frame at the front, as its first word tells it. -/
def frameLength (max : Nat) (buf : Octets) : Except UnpackFailure Nat :=
  match Octets.word? buf with
  | none => .error .short
  | some (word, _) =>
    let size := word.toNat
    if max < size then .error (.tooLarge size max (prefixSize + size) buf.length)
    else .ok (prefixSize + size)

def unpack (max : Nat) (buf : Octets) : Unpacking JsonMessage :=
  match frameLength max buf with
  | .error failure => .error failure
  | .ok total =>
    if buf.length < total then .error .short
    else match Body.read ((buf.take total).drop prefixSize) with
      | .ok m => .ok (m, total)
      | .error fault => .error ⟨.json fault, .bytes total⟩

/-- A length that is told is that of a text within the limit, and of the word before it. -/
theorem frameLength_bounds {max : Nat} {buf : Octets} {n : Nat} (h : frameLength max buf = .ok n) :
    prefixSize ≤ n ∧ n ≤ prefixSize + max ∧ n < prefixSize + UInt32.size := by
  unfold frameLength at h
  split at h
  · cases h
  · rename_i word _ _
    have := word.toNat_lt_size
    dsimp only at h
    split at h
    · cases h
    · cases h; omega

theorem frameLength_error {max : Nat} {buf : Octets} {e : UnpackFailure}
    (h : frameLength max buf = .error e) : e = .short ∨ 0 < e.discard.amount buf.length := by
  unfold frameLength at h
  split at h
  · cases h; exact .inl rfl
  · rename_i word rest hw
    have hl := Octets.length_of_word? hw
    dsimp only at h
    split at h
    · cases h; right
      refine UnpackFailure.amount_tooLarge_pos ?_ (by omega)
      simp only [prefixSize]; omega
    · cases h

theorem unpack_ok {max : Nat} {buf : Octets} {m : JsonMessage} {n : Nat}
    (h : unpack max buf = .ok (m, n)) : frameLength max buf = .ok n ∧ n ≤ buf.length := by
  unfold unpack at h
  split at h
  · cases h
  · rename_i total ht
    split at h
    · cases h
    · split at h
      · cases h; exact ⟨ht, by omega⟩
      · cases h

theorem unpack_error {max : Nat} {buf : Octets} {e : UnpackFailure}
    (h : unpack max buf = .error e) : e = .short ∨ 0 < e.discard.amount buf.length := by
  unfold unpack at h
  split at h
  · rename_i failure hf
    cases h; exact frameLength_error hf
  · rename_i total ht
    have hb := frameLength_bounds ht
    simp only [prefixSize] at hb
    split at h
    · cases h; exact .inl rfl
    · split at h
      · cases h
      · cases h; right; simp only [Discard.amount]; omega

end JsonText
end Framing
end FrameEngine
