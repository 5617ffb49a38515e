import FrameEngine.Proofs.Framing.Acceptance
import FrameEngine.Proofs.Framing.Progress

/-!
# FrameEngine.Proofs.Framing.Limits

Sender and receiver under different limits. Which octets a message is put in does not depend on the
limit (`Framed`). What is held against the limit is one size of the message (`sizeOf`), by the sender
who has the message (`pack_of_framed`) and by the receiver who has seen no more than the header
(`frameLength_of_framed`).

* `pack_error_iff_unpack_tooLarge`: a receiver refuses a frame for its size exactly if the message
  could not have been packed under the receiver's limit, with the same error. It drops that frame
  and nothing behind it.
-/

namespace FrameEngine
namespace Framing

open Octets (ofWord)

/-- What is held against a limit: the whole frame, but of a JSON message the text alone. -/
def sizeOf : Message → Nat
  | .field m => Field.headerSize + m.data.length
  | .json m => (Body.render m).length
  | .binary m => Binary.headerSize + m.data.length + Binary.footerSize

/-- The frame of a message whose lengths fit their words. -/
inductive Framed : FramingKind → Message → Octets → Prop where
  | field {m : FieldMessage} (fits : Field.headerSize + m.data.length < UInt32.size) :
      Framed .lengthField (.field m) (Field.frame m)
  | json {m : JsonMessage} (fits : (Body.render m).length < UInt32.size) :
      Framed .json (.json m) (JsonText.frame (Body.render m))
  | binary {m : BinaryMessage} (fits : m.data.length < UInt32.size) :
      Framed .binary (.binary m) (Binary.frame m)

theorem framed_of_pack {g : Framing} {m : Message} {frame : Octets} (hp : g.pack m = .ok frame) :
    Framed g.kind m frame := by
  cases g with
  | field max =>
    cases m with
    | field m => obtain ⟨rfl, -, hw⟩ := Field.pack_eq_ok_iff.1 hp; exact .field hw
    | json m => cases hp
    | binary m => cases hp
  | json max =>
    cases m with
    | field m => cases hp
    | json m => obtain ⟨rfl, -, hw⟩ := JsonText.pack_eq_ok_iff.1 hp; exact .json hw
    | binary m => cases hp
  | binary max scan =>
    cases m with
    | field m => cases hp
    | json m => cases hp
    | binary m => obtain ⟨rfl, -, hw⟩ := Binary.pack_eq_ok_iff.1 hp; exact .binary hw

section Framed

variable {f : Framing} {m : Message} {frame : Octets}

/-- What the sender does. -/
theorem pack_of_framed (h : Framed f.kind m frame) :
    f.pack m = if f.maxMessageSize < sizeOf m then
      .error (.messageTooLarge (sizeOf m) f.maxMessageSize) else .ok frame := by
  cases f <;> cases h <;> rename_i fits
  · simp only [pack, Field.pack, Nat.not_le.2 fits, or_false]; rfl
  · simp only [pack, JsonText.pack, Nat.not_le.2 fits, or_false]; rfl
  · simp only [pack, Binary.pack, Nat.not_le.2 fits, or_false]; rfl

/-- What the receiver reads off the header, whatever follows the frame. -/
theorem frameLength_of_framed (h : Framed f.kind m frame) (tail : Octets) :
    f.frameLength (frame ++ tail) = if f.maxMessageSize < sizeOf m then
      .error (.tooLarge (sizeOf m) f.maxMessageSize frame.length (frame ++ tail).length)
      else .ok frame.length := by
  cases f <;> cases h <;> rename_i fits
  · rename_i max m
    have hword : Octets.word? (Field.frame m ++ tail) =
        some (.ofNat (Field.headerSize + m.data.length), _) :=
      Octets.word?_eq_some_iff.2 (List.append_assoc ..)
    have hn : ¬ Field.headerSize + m.data.length < Field.headerSize := by omega
    simp only [frameLength, Field.frameLength, hword, toNat_ofNat_word fits, if_neg hn,
      Field.length_frame]
    rfl
  · rename_i max m
    have hword : Octets.word? (JsonText.frame (Body.render m) ++ tail) =
        some (.ofNat (Body.render m).length, _) :=
      Octets.word?_eq_some_iff.2 (List.append_assoc ..)
    simp only [frameLength, JsonText.frameLength, hword, toNat_ofNat_word fits,
      JsonText.length_frame]
    rfl
  · rename_i max scan m
    have hparts : Binary.frame m ++ tail =
        Binary.checked m ++ (ofWord (Checksum.crc32 (Binary.checked m)) ++ 0xCA :: 0xFE :: tail) := by
      simp only [Binary.frame, List.append_assoc]; rfl
    have hheader := Binary.header?_of_parts hparts
    simp only [frameLength, Binary.frameLength, hheader, toNat_ofNat_word fits, Binary.length_frame]
    rfl

/-- Above the receiver's limit the frame is refused, and dropped as it is. -/
theorem unpack_of_framed_above (h : Framed f.kind m frame) (hm : f.maxMessageSize < sizeOf m)
    (tail : Octets) : f.unpack (frame ++ tail) =
      .error ⟨.messageTooLarge (sizeOf m) f.maxMessageSize, .bytes frame.length⟩ := by
  have hl := frameLength_of_framed h tail
  have hle : frame.length ≤ (frame ++ tail).length := by rw [List.length_append]; omega
  rw [if_pos hm, UnpackFailure.tooLarge, if_pos hle] at hl
  exact unpack_of_frameLength_error hl

/-- Within the receiver's limit the frame is not refused for its size. -/
theorem unpack_of_framed_within (h : Framed f.kind m frame) (hm : ¬ f.maxMessageSize < sizeOf m)
    (tail : Octets) (size max : Nat) (d : Discard) :
    f.unpack (frame ++ tail) ≠ .error ⟨.messageTooLarge size max, d⟩ := by
  intro hu
  have hl := frameLength_of_framed h tail
  have hle : frame.length ≤ (frame ++ tail).length := by rw [List.length_append]; omega
  rw [if_neg hm] at hl
  rcases fault_of_whole hl hle hu with ⟨hd, -⟩ | ⟨_, _, _, _, -, he⟩
  · cases hd
  · cases he

end Framed

/-- Two framings of one kind under limits of their own, and a frame that one of them has packed. The
other one cannot pack the message exactly if it refuses the frame for its size. It says the same
then, with its own limit, and goes on behind the frame; or else its frame is the same. -/
theorem pack_error_iff_unpack_tooLarge {f g : Framing} (hk : f.kind = g.kind) {m : Message}
    {frame : Octets} (hp : g.pack m = .ok frame) (tail : Octets) :
    ((∃ e, f.pack m = .error e) ↔
      ∃ size max d, f.unpack (frame ++ tail) = .error ⟨.messageTooLarge size max, d⟩) ∧
    (∀ e, f.pack m = .error e → ∃ size, e = .messageTooLarge size f.maxMessageSize ∧
      f.unpack (frame ++ tail) = .error ⟨e, .bytes frame.length⟩ ∧
      Codec.decode f (frame ++ tail) = (.error e, tail)) ∧
    ((¬ ∃ e, f.pack m = .error e) → f.pack m = .ok frame) := by
  have hframed : Framed f.kind m frame := hk ▸ framed_of_pack hp
  have hpack := pack_of_framed hframed
  by_cases hm : f.maxMessageSize < sizeOf m
  · rw [if_pos hm] at hpack
    have hunpack := unpack_of_framed_above hframed hm tail
    have hdecode := Codec.decode_of_error hunpack rfl (by rw [List.length_append]; omega)
    rw [List.drop_left] at hdecode
    refine ⟨⟨fun _ => ⟨_, _, _, hunpack⟩, fun _ => ⟨_, hpack⟩⟩, fun e he => ?_,
      fun hno => absurd ⟨_, hpack⟩ hno⟩
    cases hpack.symm.trans he
    exact ⟨_, rfl, hunpack, hdecode⟩
  · rw [if_neg hm] at hpack
    have hunpack := unpack_of_framed_within hframed hm tail
    refine ⟨⟨?_, ?_⟩, ?_, fun _ => hpack⟩
    · rintro ⟨e, he⟩
      cases hpack.symm.trans he
    · rintro ⟨size, max, d, hu⟩
      exact absurd hu (hunpack size max d)
    · intro e he
      cases hpack.symm.trans he

/-- A text one octet above the receiver's limit, in a frame that is five above it. -/
theorem pack_error_iff_unpack_tooLarge_of_text : ∃ frame,
    (json 46).kind = (json 47).kind ∧ (json 47).pack (.json ⟨1, 2, [], 3⟩) = .ok frame ∧
      frame.length = 51 ∧
      Codec.decode (json 46) (frame ++ [7]) = (.error (.messageTooLarge 47 46), [7]) := by
  have hlength : (Body.render ⟨1, 2, [], 3⟩).length = 47 := by decide +kernel
  have hframed : Framed .json (.json ⟨1, 2, [], 3⟩) (JsonText.frame (Body.render ⟨1, 2, [], 3⟩)) :=
    .json (by rw [hlength]; decide)
  have hkind : (json 46).kind = (json 47).kind := rfl
  have hp : (json 47).pack (.json ⟨1, 2, [], 3⟩) =
      .ok (JsonText.frame (Body.render ⟨1, 2, [], 3⟩)) := by
    rw [pack_of_framed (f := json 47) hframed]
    simp [sizeOf, maxMessageSize, hlength]
  have he : (json 46).pack (.json ⟨1, 2, [], 3⟩) = .error (.messageTooLarge 47 46) := by
    rw [pack_of_framed (f := json 46) hframed]
    simp [sizeOf, maxMessageSize, hlength]
  obtain ⟨_, -, -, hdecode⟩ := (pack_error_iff_unpack_tooLarge hkind hp [7]).2.1 _ he
  exact ⟨_, hkind, hp, by simp [JsonText.frame, hlength], hdecode⟩

end Framing
end FrameEngine
