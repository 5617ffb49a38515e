import FrameEngine.Proofs.Framing.Body
import FrameEngine.Proofs.Framing.RoundTrip

/-!
# FrameEngine.Proofs.Framing.Acceptance

What becomes of a packed message at the other end, under the same framing and limit. The framings
that carry octets give it back. The JSON framing does so for data without fractions
(`json_round_trip`), but it also packs data that nests deeper than its own reader goes, and that
frame is dropped at the other end (`unpack_packed`).
-/

namespace FrameEngine
namespace Framing

open Octets (ofWord)

namespace JsonText

theorem length_frame (text : Octets) : (frame text).length = prefixSize + text.length := by
  simp only [frame, List.length_append, Octets.length_ofWord, prefixSize]

theorem pack_eq_ok_iff {max : Nat} {m : JsonMessage} {out : Octets} :
    pack max m = .ok out ↔
      out = frame (Body.render m) ∧ (Body.render m).length ≤ max ∧
        (Body.render m).length < UInt32.size := by
  unfold pack
  exact sized_eq_ok_iff

/-- The text of a frame is found, whatever follows it. -/
theorem unpack_frame {max : Nat} {text : Octets} (tail : Octets) (hmax : text.length ≤ max)
    (hw : text.length < UInt32.size) :
    unpack max (frame text ++ tail) =
      match Body.read text with
      | .ok m => .ok (m, (frame text).length)
      | .error fault => .error ⟨.json fault, .bytes (frame text).length⟩ := by
  have hf : frameLength max (frame text ++ tail) = .ok (frame text).length := by
    have hn : Octets.word? (frame text ++ tail) = some (.ofNat text.length, text ++ tail) :=
      Octets.word?_eq_some_iff.2 (by rw [frame, List.append_assoc])
    simp only [frameLength, hn, toNat_ofNat_word hw]
    rw [if_neg (by omega), length_frame]
  have hlen : ¬ (frame text ++ tail).length < (frame text).length := by
    rw [List.length_append]; omega
  have htext : ((frame text ++ tail).take (frame text).length).drop prefixSize = text := by
    rw [List.take_left]; rfl
  cases hr : Body.read text with
  | ok m => simp only [unpack, hf, if_neg hlen, htext, hr]
  | error fault => simp only [unpack, hf, if_neg hlen, htext, hr]

/-- A packed message is read back, or refused for the depth of its data. -/
theorem unpack_of_pack {max : Nat} {m : JsonMessage} {out : Octets} (hm : m.WellFormed)
    (hp : pack max m = .ok out) (tail : Octets) :
    unpack max (out ++ tail) =
      if (Json.object m.data).depth ≤ Body.maxNesting then
        .ok ({ m with data := Json.rereadMembers m.data }, out.length)
      else .error ⟨.json .malformed, .bytes out.length⟩ := by
  obtain ⟨rfl, hmax, hw⟩ := pack_eq_ok_iff.1 hp
  rw [unpack_frame tail hmax hw, Body.read_render hm]
  by_cases hd : (Json.object m.data).depth ≤ Body.maxNesting
  · rw [if_pos hd, if_pos hd]
  · rw [if_neg hd, if_neg hd]

end JsonText

/-- A JSON message without fractions, whose data nests no deeper than the reader goes, is packed
into the length of its text and the text, and comes back as it was, whatever follows the frame. -/
theorem json_round_trip {max : Nat} {m : JsonMessage} {out : Octets} (hm : m.WellFormed)
    (hr : Json.WithoutRealsMembers m.data) (hd : (Json.object m.data).depth ≤ 126)
    (hp : (json max).pack (.json m) = .ok out) (tail : Octets) :
    (∃ text, out = ofWord (.ofNat text.length) ++ text ∧ text.length = out.length - 4 ∧
      text.length ≤ max ∧ text.length < UInt32.size) ∧
    (json max).unpack (out ++ tail) = .ok (.json m, out.length) := by
  have hp' : JsonText.pack max m = .ok out := hp
  constructor
  · obtain ⟨rfl, hmax, hw⟩ := JsonText.pack_eq_ok_iff.1 hp'
    refine ⟨Body.render m, rfl, ?_, hmax, hw⟩
    rw [JsonText.length_frame, JsonText.prefixSize]; omega
  · have hdeep : (Json.object m.data).depth ≤ Body.maxNesting := hd
    have hu := JsonText.unpack_of_pack hm hp' tail
    rw [if_pos hdeep, Json.rereadMembers_of_withoutReals hr] at hu
    exact lift_eq_ok_iff.2 ⟨m, hu, rfl⟩

/-- Text outside ASCII, an escape, the ends of the range of integers, and another frame behind. -/
theorem json_round_trip_of_escape :
    let m : JsonMessage := ⟨1, 4294967295,
      [("", .array [.null, .integer (-9223372036854775808)]),
        ("é", .object [("\n", .integer 18446744073709551615)])], -1⟩
    m.WellFormed ∧ Json.WithoutRealsMembers m.data ∧ (Json.object m.data).depth ≤ 126 ∧
      (json 200).pack (.json m) = .ok (JsonText.frame (Body.render m)) ∧
      (json 200).unpack (JsonText.frame (Body.render m) ++ [0, 0]) =
        .ok (.json m, (JsonText.frame (Body.render m)).length) := by
  intro m
  have hm : m.WellFormed := by
    refine ⟨⟨by decide, trivial⟩, ⟨trivial, ⟨by decide, by decide⟩, trivial⟩,
      ⟨trivial, ⟨by decide, by decide⟩, trivial⟩, trivial⟩
  have hr : Json.WithoutRealsMembers m.data := by
    exact ⟨⟨trivial, trivial, trivial⟩, ⟨trivial, trivial⟩, trivial⟩
  have hd : (Json.object m.data).depth ≤ 126 := by decide
  have hp : (json 200).pack (.json m) = .ok (JsonText.frame (Body.render m)) :=
    JsonText.pack_eq_ok_iff.2 ⟨rfl, by decide +kernel, by decide +kernel⟩
  exact ⟨hm, hr, hd, hp, (json_round_trip hm hr hd hp [0, 0]).2⟩

end Framing

namespace Message

/-- JSON data as an object of a JSON value can hold it. -/
def WellFormed : Message → Prop
  | json m => m.WellFormed
  | _ => True

/-- The arrays and objects that lie within each other in JSON data, the data itself counted. -/
def nesting : Message → Nat
  | json m => (Json.object m.data).depth
  | _ => 0

/-- What becomes of a message on its way: fractions in JSON data may lose their last digits. -/
def reread : Message → Message
  | json m => json { m with data := Json.rereadMembers m.data }
  | m => m

end Message

namespace Framing

theorem json_pack (max : Nat) (m : JsonMessage) : (json max).pack (.json m) = JsonText.pack max m :=
  rfl

theorem json_unpack (max : Nat) (buf : Octets) :
    (json max).unpack buf = lift .json (JsonText.unpack max buf) := rfl

/-- No message is packed in nothing. -/
theorem length_pos_of_pack {f : Framing} {m : Message} {out : Octets} (h : f.pack m = .ok out) :
    0 < out.length := by
  cases f with
  | field max =>
    cases m with
    | field m =>
      rw [(Field.pack_eq_ok_iff.1 h).1, Field.length_frame, Field.headerSize]
      exact Nat.add_pos_left (by decide) _
    | json m => cases h
    | binary m => cases h
  | json max =>
    cases m with
    | field m => cases h
    | json m =>
      rw [(JsonText.pack_eq_ok_iff.1 h).1, JsonText.length_frame, JsonText.prefixSize]
      exact Nat.add_pos_left (by decide) _
    | binary m => cases h
  | binary max scan =>
    cases m with
    | field m => cases h
    | json m => cases h
    | binary m =>
      rw [(Binary.pack_eq_ok_iff.1 h).1, Binary.length_frame, Binary.footerSize]
      exact Nat.add_pos_right _ (by decide)

/-- What was packed is read at the other end, whatever follows it, and the message comes back; but
JSON data that nests too deep is refused as malformed text, though it was packed. -/
theorem unpack_packed {f : Framing} {m : Message} {out : Octets} (hm : m.WellFormed)
    (hp : f.pack m = .ok out) (tail : Octets) :
    f.unpack (out ++ tail) =
      if m.nesting ≤ Body.maxNesting then .ok (m.reread, out.length)
      else .error ⟨.json .malformed, .bytes out.length⟩ := by
  cases f with
  | field max =>
    cases m with
    | field m =>
      have hu : Field.unpack max (out ++ tail) = .ok (m, out.length) :=
        Field.unpack_eq_ok_iff.2 ⟨out, hp, rfl, tail, rfl⟩
      have hn : (Message.field m).nesting ≤ Body.maxNesting := Nat.zero_le _
      rw [if_pos hn, unpack, hu]; rfl
    | json m => cases hp
    | binary m => cases hp
  | json max =>
    cases m with
    | field m => cases hp
    | json m =>
      rw [unpack, JsonText.unpack_of_pack hm hp tail]
      by_cases hd : (Json.object m.data).depth ≤ Body.maxNesting
      · rw [if_pos hd, Message.nesting, if_pos hd]; rfl
      · rw [if_neg hd, Message.nesting, if_neg hd]; rfl
    | binary m => cases hp
  | binary max scan =>
    cases m with
    | field m => cases hp
    | json m => cases hp
    | binary m =>
      have hu : Binary.unpack max scan (out ++ tail) = .ok (m, out.length) :=
        Binary.unpack_eq_ok_iff.2 ⟨out, hp, rfl, tail, rfl⟩
      have hn : (Message.binary m).nesting ≤ Body.maxNesting := Nat.zero_le _
      rw [if_pos hn, unpack, hu]; rfl

/-- So many arrays around an empty one. -/
def nested : Nat → Json
  | 0 => .array []
  | n + 1 => .array [nested n]

theorem depth_nested (n : Nat) : (nested n).depth = n + 1 := by
  induction n with
  | zero => rfl
  | succ n ih => simp only [nested, Json.depth, Json.depthItems, ih]; omega

theorem wellFormed_nested (n : Nat) : (nested n).WellFormed := by
  induction n with
  | zero => trivial
  | succ n ih => exact ⟨ih, trivial⟩

/-- A message whose data is an object around as many arrays and one more. -/
def nestedMessage (n : Nat) : JsonMessage := ⟨1, 2, [("a", nested n)], 0⟩

theorem wellFormed_nestedMessage (n : Nat) : (nestedMessage n).WellFormed :=
  ⟨trivial, wellFormed_nested n, trivial⟩

theorem depth_nestedMessage (n : Nat) : (Json.object (nestedMessage n).data).depth = n + 2 := by
  simp only [nestedMessage, Json.depth, Json.depthMembers, depth_nested]; omega

/-- The deepest data that comes back. -/
theorem unpack_packed_of_deepest :
    ∃ out, Message.WellFormed (.json (nestedMessage 124)) ∧
      (json 1024).pack (.json (nestedMessage 124)) = .ok out ∧
      (json 1024).unpack (out ++ [0]) =
        .ok ((Message.json (nestedMessage 124)).reread, out.length) := by
  have hm : Message.WellFormed (.json (nestedMessage 124)) := wellFormed_nestedMessage 124
  have hp : JsonText.pack 1024 (nestedMessage 124) =
      .ok (JsonText.frame (Body.render (nestedMessage 124))) :=
    JsonText.pack_eq_ok_iff.2 ⟨rfl, by decide +kernel, by decide +kernel⟩
  rw [← json_pack] at hp
  have hn : (Message.json (nestedMessage 124)).nesting ≤ Body.maxNesting :=
    Nat.le_of_eq (depth_nestedMessage 124)
  have hu := unpack_packed hm hp [0]
  rw [if_pos hn] at hu
  exact ⟨_, hm, hp, hu⟩

/-- One level more: the message is packed, and its frame is refused. -/
theorem packed_and_refused :
    ∃ out, Message.WellFormed (.json (nestedMessage 125)) ∧
      (json 1024).pack (.json (nestedMessage 125)) = .ok out ∧
      (json 1024).unpack out = .error ⟨.json .malformed, .bytes out.length⟩ := by
  have hm : (nestedMessage 125).WellFormed := wellFormed_nestedMessage 125
  have hp : JsonText.pack 1024 (nestedMessage 125) =
      .ok (JsonText.frame (Body.render (nestedMessage 125))) :=
    JsonText.pack_eq_ok_iff.2 ⟨rfl, by decide +kernel, by decide +kernel⟩
  have hn : ¬ (Json.object (nestedMessage 125).data).depth ≤ Body.maxNesting := by
    rw [depth_nestedMessage]; decide
  have hu := JsonText.unpack_of_pack hm hp []
  rw [if_neg hn, List.append_nil] at hu
  rw [← json_pack] at hp
  refine ⟨_, hm, hp, ?_⟩
  rw [json_unpack, hu]; rfl

end Framing
end FrameEngine
