import FrameEngine.Framing.Body
import FrameEngine.Proofs.Json.RoundTrip

/-!
# FrameEngine.Proofs.Framing.Body

The text that a message is written in is read back (`read_render`): all of it, with the data as
`Json.reread` leaves it, unless the data nests more than `maxNesting` levels. Nothing is in the way
of writing such data, but the reader refuses it.

The reader takes the members one by one. `readField_type` and its kin say what each value gives,
`readMember_comma` and `readMember_brace` what a member does with the text behind it.
-/

namespace FrameEngine
namespace Framing
namespace Body

open Json (Members EndsNumber bounded)

theorem ofName?_name (key : Key) : Key.ofName? key.name = some key := by
  cases key <;> rfl

/-! ## The four values -/

theorem exists_head_integer (n : Int) :
    ∃ b tail, (Json.integer n).render = b :: tail ∧ (b = 0x2D ∨ Json.isDigit b = true) := by
  obtain ⟨b, more, hb, hd⟩ := Json.exists_digit_of_whole (Json.whole_digitOctets n.natAbs)
  rw [Json.render, Json.ascii_integerText]
  split
  · exact ⟨0x2D, _, rfl, .inl rfl⟩
  · exact ⟨b, more, hb, .inr hd⟩

theorem readInteger_render {n : Int} (hn : Json.inRange n) {rest : Octets} (hr : EndsNumber rest) :
    readInteger ((Json.integer n).render ++ rest) = .ok (n, rest) := by
  have hv := Json.value_render (v := .integer n) hn 0 hr
  obtain ⟨b, tail, hb, hhead⟩ := exists_head_integer n
  have hblank : Json.isBlank b = false := by
    rcases hhead with rfl | hd
    · decide
    · exact Json.isBlank_of_isDigit hd
  rw [hb, List.cons_append] at hv ⊢
  rw [readInteger, Json.skipBlank_cons hblank]
  simp only [hhead, if_true, hv, bounded, Json.depth, Json.reread, Nat.le_refl]

theorem readWord_of_readInteger {w : UInt32} {text rest : Octets}
    (h : readInteger text = .ok (w.toNat, rest)) : readWord text = .ok (w, rest) := by
  have hw := w.toNat_lt_size
  rw [readWord, h]
  dsimp only
  rw [if_pos (by omega), Int.toNat_natCast, UInt32.ofNat_toNat]

theorem readTimestamp_of_readInteger {t : Int64} {text rest : Octets}
    (h : readInteger text = .ok (t.toInt, rest)) : readTimestamp text = .ok (t, rest) := by
  have hlow : -(signedLimit : Int) ≤ t.toInt := t.le_toInt
  have hhigh : t.toInt < (signedLimit : Int) := t.toInt_lt
  have hs : isSigned64 t.toInt = true := by
    simp only [isSigned64, decide_eq_true_eq]; exact ⟨hlow, hhigh⟩
  rw [readTimestamp, h]
  dsimp only
  rw [if_pos hs, Int64.ofInt_toInt]

theorem readWord_render (w : UInt32) {rest : Octets} (hr : EndsNumber rest) :
    readWord ((Json.integer w.toNat).render ++ rest) = .ok (w, rest) := by
  have hw := w.toNat_lt_size
  have hsize : UInt32.size ≤ UInt64.size := by decide
  exact readWord_of_readInteger (readInteger_render ⟨by omega, by omega⟩ hr)

theorem readTimestamp_render (t : Int64) {rest : Octets} (hr : EndsNumber rest) :
    readTimestamp ((Json.integer t.toInt).render ++ rest) = .ok (t, rest) := by
  have hlow : -(signedLimit : Int) ≤ t.toInt := t.le_toInt
  have hhigh : t.toInt < (signedLimit : Int) := t.toInt_lt
  have hsize := signedLimit_eq
  exact readTimestamp_of_readInteger (readInteger_render ⟨hlow, by omega⟩ hr)

theorem readData_render {data : Members} (h : (Json.object data).WellFormed) (rest : Octets) :
    readData ((Json.object data).render ++ rest) =
      bounded (Json.depthMembers data) (Json.maxDepth - 2) (Json.rereadMembers data) rest := by
  have ht : (Json.object data).render ++ rest =
      0x7B :: (Json.renderMembers data ++ 0x7D :: rest) := by
    simp [Json.render]
  rw [ht, readData, Json.skipBlank_cons (by decide)]
  exact Json.members_render h _ rest

/-! ## The members -/

theorem readMember_key {key : Key} {f : Fields} (steps : Nat) (hf : f.has key = false)
    (value tail : Octets) :
    readMember (steps + 1) f (renderMember key value ++ tail) =
      (readField f key (value ++ tail) >>= fun r => readMoreMembers steps r.1 r.2) := by
  have ht : renderMember key value ++ tail =
      0x22 :: (key.name.toList.flatMap Json.escapeChar ++ 0x22 :: 0x3A :: (value ++ tail)) := by
    simp [renderMember, Json.renderText]
  have hc : Json.expectColon (0x3A :: (value ++ tail)) = .ok (value ++ tail) := by
    rw [Json.expectColon, Json.skipBlank_cons (by decide)]; rfl
  rw [ht, readMember, Json.skipBlank_cons (by decide)]
  simp [Json.scanText_escaped, ofName?_name, hf, hc, bind, Except.bind]

/-- A member with another one behind it. -/
theorem readMember_comma {key : Key} {f f' : Fields} {value tail : Octets} (steps : Nat)
    (hf : f.has key = false)
    (hv : readField f key (value ++ 0x2C :: tail) = .ok (f', 0x2C :: tail)) :
    readMember (steps + 2) f (renderMember key value ++ 0x2C :: tail) =
      readMember steps f' tail := by
  rw [readMember_key _ hf, hv]
  show readMoreMembers (steps + 1) f' (0x2C :: tail) = _
  rw [readMoreMembers, Json.skipBlank_cons (by decide)]
  simp

/-- The last member. -/
theorem readMember_brace {key : Key} {f f' : Fields} {value tail : Octets} (steps : Nat)
    (hf : f.has key = false)
    (hv : readField f key (value ++ 0x7D :: tail) = .ok (f', 0x7D :: tail)) :
    readMember (steps + 2) f (renderMember key value ++ 0x7D :: tail) =
      (f'.close >>= fun m => .ok (m, tail)) := by
  rw [readMember_key _ hf, hv]
  show readMoreMembers (steps + 1) f' (0x7D :: tail) = _
  rw [readMoreMembers, Json.skipBlank_cons (by decide)]
  simp
  rfl

theorem endsNumber_comma (rest : Octets) : EndsNumber (0x2C :: rest) :=
  Json.endsNumber_cons _ (by decide) (by decide) (by decide) (by decide)

theorem endsNumber_brace (rest : Octets) : EndsNumber (0x7D :: rest) :=
  Json.endsNumber_cons _ (by decide) (by decide) (by decide) (by decide)

theorem readField_type (f : Fields) (w : UInt32) {rest : Octets} (hr : EndsNumber rest) :
    readField f .type ((Json.integer w.toNat).render ++ rest) =
      .ok ({ f with type := some w }, rest) := by
  rw [readField, readWord_render w hr]; rfl

theorem readField_sequence (f : Fields) (w : UInt32) {rest : Octets} (hr : EndsNumber rest) :
    readField f .sequence ((Json.integer w.toNat).render ++ rest) =
      .ok ({ f with sequence := some w }, rest) := by
  rw [readField, readWord_render w hr]; rfl

theorem readField_timestamp (f : Fields) (t : Int64) {rest : Octets} (hr : EndsNumber rest) :
    readField f .timestamp ((Json.integer t.toInt).render ++ rest) =
      .ok ({ f with timestamp := some t }, rest) := by
  rw [readField, readTimestamp_render t hr]; rfl

theorem readField_data (f : Fields) {data : Members} (h : (Json.object data).WellFormed)
    (rest : Octets) :
    readField f .data ((Json.object data).render ++ rest) =
      bounded (Json.depthMembers data) (Json.maxDepth - 2)
        { f with data := some (Json.rereadMembers data) } rest := by
  rw [readField, readData_render h]
  unfold bounded
  split <;> rfl

/-- The text of a message behind its opening brace. -/
def afterBrace (m : JsonMessage) : Octets :=
  renderMember .type (Json.integer m.type.toNat).render ++ 0x2C ::
    (renderMember .sequence (Json.integer m.sequence.toNat).render ++ 0x2C ::
      (renderMember .data (Json.object m.data).render ++ 0x2C ::
        (renderMember .timestamp (Json.integer m.timestamp.toInt).render ++ [0x7D])))

/-- The four members in the order in which they are written. -/
theorem readMember_afterBrace {m : JsonMessage} (hm : m.WellFormed) (steps : Nat) :
    readMember (steps + 8) .empty (afterBrace m) =
      bounded (Json.depthMembers m.data) (Json.maxDepth - 2)
        { m with data := Json.rereadMembers m.data } [] := by
  have hdata := readField_data ⟨some m.type, some m.sequence, none, none⟩ hm
    (0x2C :: (renderMember .timestamp (Json.integer m.timestamp.toInt).render ++ [0x7D]))
  rw [afterBrace, readMember_comma (steps + 6) rfl (readField_type _ _ (endsNumber_comma _)),
    readMember_comma (steps + 4) rfl (readField_sequence _ _ (endsNumber_comma _))]
  dsimp only [Fields.empty]
  unfold bounded at hdata ⊢
  by_cases hdeep : Json.depthMembers m.data ≤ Json.maxDepth - 2
  · rw [if_pos hdeep] at hdata ⊢
    rw [readMember_comma (steps + 2) rfl hdata,
      readMember_brace steps rfl (readField_timestamp _ _ (endsNumber_brace _))]
    rfl
  · rw [if_neg hdeep] at hdata ⊢
    rw [readMember_key (steps + 3) rfl, hdata]
    rfl

/-- The levels of arrays and objects that the data of a message can have and be read. The object
around the data takes one of those that a text can have. -/
def maxNesting : Nat := Json.maxDepth - 1

/-- The text of a message is read back, or refused for the depth of its data. -/
theorem read_render {m : JsonMessage} (hm : m.WellFormed) :
    read (render m) =
      if (Json.object m.data).depth ≤ maxNesting then
        .ok { m with data := Json.rereadMembers m.data }
      else .error .malformed := by
  have hsteps : ∃ steps, Json.stepsFor (afterBrace m) = steps + 8 := by
    refine ⟨Json.stepsFor (afterBrace m) - 8, ?_⟩
    simp only [Json.stepsFor, afterBrace, renderMember, List.length_append, List.length_cons]
    omega
  obtain ⟨steps, hsteps⟩ := hsteps
  have hmembers : readMembers (afterBrace m) =
      bounded (Json.depthMembers m.data) (Json.maxDepth - 2)
        { m with data := Json.rereadMembers m.data } [] := by
    obtain ⟨tail, htail⟩ : ∃ tail, afterBrace m = 0x22 :: tail := ⟨_, rfl⟩
    rw [← readMember_afterBrace hm steps, ← hsteps]
    rw [htail, readMembers, Json.skipBlank_cons (by decide)]
    rfl
  have hr : render m = 0x7B :: afterBrace m := rfl
  have hdepth : (Json.object m.data).depth ≤ maxNesting ↔
      Json.depthMembers m.data ≤ Json.maxDepth - 2 := by
    rw [Json.depth, maxNesting, Json.maxDepth]; omega
  rw [hr, read, Json.skipBlank_cons (by decide)]
  simp only [hmembers, hdepth, bounded]
  split <;> rfl

end Body
end Framing
end FrameEngine
