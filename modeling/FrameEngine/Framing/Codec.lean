import FrameEngine.Framing

/-!
# FrameEngine.Framing.Codec

A framing as a decoder of a stream: octets come in pieces of any size, messages and errors come
out. `decode` takes one step; `drain` takes all that the buffer allows, and ends because each step
but the last shortens the buffer.
-/

namespace FrameEngine
namespace Codec

/-- One step: a message, an error, or nothing yet; and what is left of the buffer. -/
def decode (f : Framing) (buf : Octets) : Except EngineError (Option Message) × Octets :=
  match f.unpack buf with
  | .ok (m, n) => (.ok (some m), buf.drop n)
  | .error e =>
    if e.isShort then (.ok none, buf) else (.error e.error, buf.drop (e.discard.amount buf.length))

/-- One step when the stream has ended: then nothing may be left over. -/
def decodeEnd (f : Framing) (buf : Octets) : Except EngineError (Option Message) × Octets :=
  match decode f buf with
  | (.ok none, rest) =>
    if rest.isEmpty then (.ok none, rest)
    else (.error (.io ⟨.other, some "bytes remaining on stream"⟩), rest)
  | r => r

def encode (f : Framing) (m : Message) (buf : Octets) : Except EngineError Octets :=
  match f.pack m with
  | .ok frame => .ok (buf ++ frame)
  | .error e => .error e

theorem decode_shorter {f : Framing} {buf rest : Octets} {r : Except EngineError (Option Message)}
    (h : decode f buf = (r, rest)) (hr : r ≠ .ok none) : rest.length < buf.length := by
  unfold decode at h
  split at h
  · rename_i m n hu
    have := Framing.unpack_ok hu
    cases h; rw [List.length_drop]; omega
  · rename_i e hu
    split at h
    · cases h; exact absurd rfl hr
    · rename_i hs
      rcases Framing.unpack_error hu with rfl | hd
      · exact absurd rfl hs
      · have := e.discard.amount_le buf.length
        cases h; rw [List.length_drop]; omega

/-- All that a buffer gives, and what is left of it. -/
def drain (f : Framing) (buf : Octets) : List (Except EngineError Message) × Octets :=
  match h : decode f buf with
  | (.ok none, rest) => ([], rest)
  | (.ok (some m), rest) =>
    have : rest.length < buf.length := decode_shorter h (by simp)
    let (more, rest) := drain f rest
    (.ok m :: more, rest)
  | (.error e, rest) =>
    have : rest.length < buf.length := decode_shorter h (by simp)
    let (more, rest) := drain f rest
    (.error e :: more, rest)
termination_by buf.length

theorem drain_of_none {f : Framing} {buf left : Octets} (h : decode f buf = (.ok none, left)) :
    drain f buf = ([], left) := by
  rw [drain]
  split
  · rename_i h'; rw [h] at h'; cases h'; rfl
  · rename_i h'; rw [h] at h'; cases h'
  · rename_i h'; rw [h] at h'; cases h'

theorem drain_of_result {f : Framing} {buf left : Octets} {r : Except EngineError Message}
    (h : decode f buf = (r.map some, left)) :
    drain f buf = (r :: (drain f left).1, (drain f left).2) := by
  rw [drain]
  split
  · rename_i h'; rw [h] at h'; cases r <;> cases h'
  · rename_i h'; rw [h] at h'; cases r <;> cases h'; rfl
  · rename_i h'; rw [h] at h'; cases r <;> cases h'; rfl

end Codec
end FrameEngine
