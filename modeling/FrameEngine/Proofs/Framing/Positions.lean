import FrameEngine.Proofs.Framing.Layout

/-!
# FrameEngine.Proofs.Framing.Positions

The framings by place: the same answers, with every octet asked for by its place in the buffer and
every part by where it begins and ends. The readers here give none as soon as one place is outside
the buffer.

* `unpackAt_eq`: they never do, and what they give is what `unpack` gives.
* `frameLength_append`, `frameLength_of_append`, `frameLength_congr`: a length is told by one word.
  More octets behind it change nothing, fewer leave it or hide it, others beside it do not matter.
-/

namespace FrameEngine
namespace Framing

open Octets (ofWord before? slice? wordAt?)

/-! ## The length -/

/-- Where the word stands that tells the length of a frame. -/
def lengthPlace : Framing → Nat
  | field _ => 0
  | json _ => 0
  | binary _ _ => 9

/-- What this word says to one who holds `held` octets. -/
def judge : Framing → UInt32 → Nat → Except UnpackFailure Nat
  | field max, word, held =>
    let total := word.toNat
    if total < Field.headerSize then
      .error ⟨.invalidFormat "declared frame length is smaller than the header", .all⟩
    else if max < total then .error (.tooLarge total max total held)
    else .ok total
  | json max, word, held =>
    let size := word.toNat
    if max < size then .error (.tooLarge size max (JsonText.prefixSize + size) held)
    else .ok (JsonText.prefixSize + size)
  | binary max _, word, held =>
    let total := Binary.headerSize + word.toNat + Binary.footerSize
    if max < total then .error (.tooLarge total max total held) else .ok total

/-- The length of the frame at the front, by places. -/
def frameLengthAt (f : Framing) (buf : Octets) : Option (Except UnpackFailure Nat) :=
  if buf.length < f.lengthPlace + 4 then some (.error .short)
  else match wordAt? buf f.lengthPlace with
    | none => none
    | some word => some (f.judge word buf.length)

theorem frameLength_of_lt {f : Framing} {buf : Octets} (h : buf.length < f.lengthPlace + 4) :
    f.frameLength buf = .error .short := by
  cases f with
  | field max =>
    have := Octets.word?_eq_none_iff.2 h
    simp only [frameLength, Field.frameLength, this]
  | json max =>
    have := Octets.word?_eq_none_iff.2 h
    simp only [frameLength, JsonText.frameLength, this]
  | binary max scan =>
    have : Binary.header? buf = none := by
      cases hh : Binary.header? buf with
      | none => rfl
      | some p =>
        have := Binary.length_of_header? hh
        simp only [Binary.headerSize, lengthPlace] at this h
        omega
    simp only [frameLength, Binary.frameLength, this]

theorem frameLength_of_wordAt? {f : Framing} {buf : Octets} {word : UInt32}
    (h : wordAt? buf f.lengthPlace = some word) : f.frameLength buf = f.judge word buf.length := by
  have hl := Octets.le_of_wordAt? h
  cases f with
  | field max =>
    obtain ⟨w, rest, hw⟩ := Octets.exists_word? buf hl
    have := Octets.wordAt?_of_drop (i := 0) (Octets.word?_eq_some_iff.1 hw)
    cases this.symm.trans h
    simp only [frameLength, Field.frameLength, hw, judge]
  | json max =>
    obtain ⟨w, rest, hw⟩ := Octets.exists_word? buf hl
    have := Octets.wordAt?_of_drop (i := 0) (Octets.word?_eq_some_iff.1 hw)
    cases this.symm.trans h
    simp only [frameLength, JsonText.frameLength, hw, judge]
  | binary max scan =>
    obtain ⟨v, t, s, l, rest, hh⟩ := Binary.exists_header? buf hl
    have hd : buf.drop 9 = ofWord l ++ rest := by rw [Binary.header?_eq_some_iff.1 hh]; rfl
    cases (Octets.wordAt?_of_drop hd).symm.trans h
    simp only [frameLength, Binary.frameLength, hh, judge]

theorem frameLengthAt_eq (f : Framing) (buf : Octets) :
    f.frameLengthAt buf = some (f.frameLength buf) := by
  unfold frameLengthAt
  split
  · rw [frameLength_of_lt ‹_›]
  · rename_i hl
    split
    · rename_i hw
      exact absurd (Octets.wordAt?_eq_none_iff.1 hw) hl
    · rename_i word hw
      rw [frameLength_of_wordAt? hw]

theorem judge_ok {f : Framing} {word : UInt32} {held n : Nat} (h : f.judge word held = .ok n)
    (held' : Nat) : f.judge word held' = .ok n := by
  cases f <;> simp only [judge] at h ⊢ <;> grind

theorem exists_word_of_frameLength {f : Framing} {buf : Octets} {n : Nat}
    (h : f.frameLength buf = .ok n) :
    f.lengthPlace + 4 ≤ buf.length ∧ ∃ word, wordAt? buf f.lengthPlace = some word ∧
      ∀ held, f.judge word held = .ok n := by
  have hl : f.lengthPlace + 4 ≤ buf.length := by
    rcases Nat.lt_or_ge buf.length (f.lengthPlace + 4) with hlt | hge
    · rw [frameLength_of_lt hlt] at h; cases h
    · exact hge
  cases hw : wordAt? buf f.lengthPlace with
  | none => exact absurd (Octets.wordAt?_eq_none_iff.1 hw) (by omega)
  | some word =>
    rw [frameLength_of_wordAt? hw] at h
    exact ⟨hl, word, rfl, judge_ok h⟩

theorem frameLength_append {f : Framing} {buf : Octets} {n : Nat} (h : f.frameLength buf = .ok n)
    (more : Octets) : f.frameLength (buf ++ more) = .ok n := by
  obtain ⟨hl, word, hw, hj⟩ := exists_word_of_frameLength h
  rw [← Octets.wordAt?_append hl more] at hw
  rw [frameLength_of_wordAt? hw, hj]

theorem frameLength_of_append {f : Framing} {buf more : Octets} {n : Nat}
    (h : f.frameLength (buf ++ more) = .ok n) :
    f.frameLength buf = .ok n ∨ f.frameLength buf = .error .short := by
  obtain ⟨_, word, hw, hj⟩ := exists_word_of_frameLength h
  by_cases hl : f.lengthPlace + 4 ≤ buf.length
  · rw [Octets.wordAt?_append hl] at hw
    exact .inl (by rw [frameLength_of_wordAt? hw, hj])
  · exact .inr (frameLength_of_lt (by omega))

theorem frameLength_congr {f : Framing} {x y : Octets} (hl : x.length = y.length)
    (h : ∀ i, f.lengthPlace ≤ i → i < f.lengthPlace + 4 → x[i]? = y[i]?) :
    f.frameLength x = f.frameLength y := by
  have := frameLengthAt_eq f x
  rw [frameLengthAt, hl, Octets.wordAt?_congr hl h, ← frameLengthAt, frameLengthAt_eq] at this
  exact (Option.some.inj this).symm

/-! ## The message -/

/-- The length-field framing by places. -/
def Field.unpackAt (max : Nat) (buf : Octets) : Option (Unpacking FieldMessage) := do
  match ← (field max).frameLengthAt buf with
  | .error failure => return .error failure
  | .ok total =>
    if buf.length < total then return .error .short
    let length ← wordAt? buf 12
    if Field.headerSize + length.toNat ≠ total then
      let d := length.toNat
      return .error ⟨.invalidFormat
        s!"data length does not match declared frame length: total {total}, data {d}",
        .bytes total⟩
    let type ← wordAt? buf 4
    let sequence ← wordAt? buf 8
    let data ← slice? buf Field.headerSize total
    return .ok (⟨type, sequence, data⟩, total)

/-- The JSON framing by places. -/
def JsonText.unpackAt (max : Nat) (buf : Octets) : Option (Unpacking JsonMessage) := do
  match ← (json max).frameLengthAt buf with
  | .error failure => return .error failure
  | .ok total =>
    if buf.length < total then return .error .short
    let text ← slice? buf JsonText.prefixSize total
    match Body.read text with
    | .ok m => return .ok (m, total)
    | .error fault => return .error ⟨.json fault, .bytes total⟩

/-- The search for the next magic octets by places. -/
def Binary.resyncAt (scan : Nat) (buf : Octets) (place : Nat) : Option Discard := do
  let stop := min buf.length (place + scan)
  let window ← slice? buf place stop
  match Octets.findPair? 0xCA 0xFE window with
  | some pos => return .bytes (place + pos + Binary.magicSize)
  | none => return if stop = buf.length then .all else .bytes stop

/-- The checksummed framing by places. -/
def Binary.unpackAt (max scan : Nat) (buf : Octets) : Option (Unpacking BinaryMessage) := do
  match ← (binary max scan).frameLengthAt buf with
  | .error failure => return .error failure
  | .ok total =>
    if buf.length < total then return .error .short
    let place ← before? total Binary.magicSize
    let a ← buf[place]?
    let b ← buf[place + 1]?
    if Octets.half a b ≠ Binary.magic then
      let discard ← Binary.resyncAt scan buf place
      return .error ⟨.invalidMagic (Octets.half a b), discard⟩
    let checkPlace ← before? total Binary.footerSize
    let expected ← wordAt? buf checkPlace
    let actual := Checksum.crc32 (← slice? buf 0 checkPlace)
    if expected ≠ actual then return .error ⟨.checksum expected actual, .bytes total⟩
    let version ← buf[0]?
    let type ← wordAt? buf 1
    let sequence ← wordAt? buf 5
    let data ← slice? buf Binary.headerSize checkPlace
    return .ok (⟨version, type, sequence, data⟩, total)

/-- The message at the front of a buffer, by places. -/
def unpackAt : Framing → Octets → Option (Unpacking Message)
  | field max, buf => (Field.unpackAt max buf).map (lift .field)
  | json max, buf => (JsonText.unpackAt max buf).map (lift .json)
  | binary max scan, buf => (Binary.unpackAt max scan buf).map (lift .binary)

theorem Field.unpackAt_eq (max : Nat) (buf : Octets) :
    Field.unpackAt max buf = some (Field.unpack max buf) := by
  have hf : (field max).frameLengthAt buf = some (Field.frameLength max buf) := frameLengthAt_eq _ buf
  unfold Field.unpackAt Field.unpack
  rw [hf]
  simp only [Option.bind_eq_bind, Option.bind_some]
  cases hn : Field.frameLength max buf with
  | error failure => rfl
  | ok total =>
    have hb := Field.frameLength_bounds hn
    dsimp only
    split
    · rfl
    · obtain ⟨n, t, s, l, rest, hh⟩ := Field.exists_header? buf (by omega)
      have hbuf := Field.header?_eq_some_iff.1 hh
      have ht : wordAt? buf 4 = some t := Octets.wordAt?_of_drop (by rw [hbuf]; rfl)
      have hs : wordAt? buf 8 = some s := Octets.wordAt?_of_drop (by rw [hbuf]; rfl)
      have hl : wordAt? buf 12 = some l := Octets.wordAt?_of_drop (by rw [hbuf]; rfl)
      simp only [hh, hl, Option.bind_some]
      split
      · rfl
      · have hd : slice? buf Field.headerSize total = some (rest.take l.toNat) := by
          have hr : buf.drop Field.headerSize = rest := by rw [hbuf]; rfl
          rw [Octets.slice?_of_le hb.1 (by omega), hr]
          congr 2; omega
        simp only [ht, hs, hd, Option.bind_some]
        rfl

theorem JsonText.unpackAt_eq (max : Nat) (buf : Octets) :
    JsonText.unpackAt max buf = some (JsonText.unpack max buf) := by
  have hf : (json max).frameLengthAt buf = some (JsonText.frameLength max buf) :=
    frameLengthAt_eq _ buf
  unfold JsonText.unpackAt JsonText.unpack
  rw [hf]
  simp only [Option.bind_eq_bind, Option.bind_some]
  cases hn : JsonText.frameLength max buf with
  | error failure => rfl
  | ok total =>
    have hb := JsonText.frameLength_bounds hn
    dsimp only
    split
    · rfl
    · rw [Octets.slice?_of_le hb.1 (by omega), ← List.drop_take]
      simp only [Option.bind_some]
      cases Body.read ((buf.take total).drop JsonText.prefixSize) <;> rfl

theorem Binary.resyncAt_eq {scan place : Nat} {buf : Octets} (h : place ≤ buf.length) :
    Binary.resyncAt scan buf place = some (Binary.resync scan buf place) := by
  unfold Binary.resyncAt Binary.resync
  have hs : slice? buf place (min buf.length (place + scan)) = _ :=
    Octets.slice?_of_le (by omega) (by omega)
  dsimp only
  rw [hs]
  simp only [Option.bind_eq_bind, Option.bind_some]
  cases Octets.findPair? 0xCA 0xFE
    ((buf.drop place).take (min buf.length (place + scan) - place)) <;> rfl

/-- Where the parts of a whole frame stand, all of them inside the buffer. -/
theorem Binary.places_of_parts {m : BinaryMessage} {check : UInt32} {a b : UInt8}
    {buf tail : Octets} (h : buf = Binary.checked m ++ (ofWord check ++ a :: b :: tail)) :
    buf[0]? = some m.version ∧ wordAt? buf 1 = some m.type ∧ wordAt? buf 5 = some m.sequence ∧
      slice? buf Binary.headerSize (Binary.headerSize + m.data.length) = some m.data ∧
      slice? buf 0 (Binary.headerSize + m.data.length) = some (Binary.checked m) ∧
      wordAt? buf (Binary.headerSize + m.data.length) = some check ∧
      buf[Binary.headerSize + m.data.length + 4]? = some a ∧
      buf[Binary.headerSize + m.data.length + 4 + 1]? = some b := by
  have hbuf := Binary.header?_eq_some_iff.1 (Binary.header?_of_parts h)
  have hlen := Binary.length_of_parts h
  have hmagic := Binary.drop_magic_of_parts h
  refine ⟨by rw [hbuf]; rfl, Octets.wordAt?_of_drop (by rw [hbuf]; rfl),
    Octets.wordAt?_of_drop (by rw [hbuf]; rfl), ?_, ?_,
    Octets.wordAt?_of_drop (Binary.drop_check_of_parts h), Octets.getElem?_of_drop hmagic,
    Octets.getElem?_of_drop (by rw [← List.drop_drop, hmagic]; rfl)⟩
  · have hdata : buf.drop Binary.headerSize = m.data ++ (ofWord check ++ a :: b :: tail) := by
      rw [hbuf]; rfl
    rw [Octets.slice?_of_le (by omega) (by omega), hdata, Nat.add_sub_cancel_left, List.take_left]
  · rw [Octets.slice?_of_le (by omega) (by omega), List.drop_zero, Nat.sub_zero,
      Binary.take_of_parts h]

theorem Binary.unpackAt_eq (max scan : Nat) (buf : Octets) :
    Binary.unpackAt max scan buf = some (Binary.unpack max scan buf) := by
  have hf : (binary max scan).frameLengthAt buf = some (Binary.frameLength max buf) :=
    frameLengthAt_eq _ buf
  cases hn : Binary.frameLength max buf with
  | error failure =>
    simp only [Binary.unpackAt, Binary.unpack, hf, hn, Option.bind_eq_bind, Option.bind_some]
    rfl
  | ok total =>
    by_cases hlt : buf.length < total
    · simp only [Binary.unpackAt, Binary.unpack, hf, hn, if_pos hlt, Option.bind_eq_bind,
        Option.bind_some]
      rfl
    · obtain ⟨m, check, a, b, tail, hbuf, hw, rfl⟩ := Binary.exists_parts hn (by omega)
      obtain ⟨hversion, htype, hsequence, hdata, hchecked, hcheck, ha, hb⟩ :=
        Binary.places_of_parts hbuf
      have hp : before? (Binary.headerSize + m.data.length + Binary.footerSize) Binary.magicSize =
          some (Binary.headerSize + m.data.length + 4) := by
        rw [Octets.before?_of_le (by simp only [Binary.footerSize, Binary.magicSize]; omega),
          Binary.sub_magicSize]
      have hq : before? (Binary.headerSize + m.data.length + Binary.footerSize) Binary.footerSize =
          some (Binary.headerSize + m.data.length) := by
        rw [Octets.before?_of_le (by omega), Nat.add_sub_cancel]
      have hr : Binary.resyncAt scan buf (Binary.headerSize + m.data.length + 4) = _ :=
        Binary.resyncAt_eq (by simp only [Binary.footerSize] at hlt; omega)
      rw [Binary.unpack_parts hbuf (Binary.frameLength_bounds hn).2 hw]
      simp only [Binary.unpackAt, hf, hn, if_neg hlt, hp, hq, ha, hb, hr, hcheck, hchecked,
        hversion, htype, hsequence, hdata, Option.bind_eq_bind, Option.bind_some]
      by_cases hm : Octets.half a b = Binary.magic
      · by_cases hc : check = Checksum.crc32 (Binary.checked m)
        · simp [hm, hc]
        · simp [hm, hc]
      · simp [hm]

/-- No octet is looked for outside the buffer. -/
theorem unpackAt_eq (f : Framing) (buf : Octets) : f.unpackAt buf = some (f.unpack buf) := by
  cases f with
  | field max => rw [unpackAt, Field.unpackAt_eq]; rfl
  | json max => rw [unpackAt, JsonText.unpackAt_eq]; rfl
  | binary max scan => rw [unpackAt, Binary.unpackAt_eq]; rfl

end Framing
end FrameEngine
