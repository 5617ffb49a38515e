import FrameEngine.Proofs.Framing.Positions

/-!
# FrameEngine.Proofs.Framing.Failure

All that a failed attempt can be (`Failure`, `failure_of_unpack`): a frame that is not complete, a
length below the header's or above the limit, a frame that is there wholly and is damaged, or one
that does not end with the magic octets.

In the last two cases the header has told the length. What comes of a whole frame, this last case
apart, stays the same when more octets follow (`unpack_append`).
-/

namespace FrameEngine

/-- A fault of one frame whose extent is known. -/
def EngineError.isDamage : EngineError → Bool
  | .invalidFormat _ | .json _ | .checksum _ _ => true
  | _ => false

namespace Framing

/-- What a failed attempt on a buffer can be. -/
inductive Failure (f : Framing) (buf : Octets) : UnpackFailure → Prop where
  /-- The frame is not complete. -/
  | short : Failure f buf .short
  /-- The length that is told is less than the header's. -/
  | undersized {detail : String} (held : f.lengthPlace + 4 ≤ buf.length) :
      Failure f buf ⟨.invalidFormat detail, .all⟩
  /-- The length that is told is above the limit. -/
  | oversized {size extent : Nat} (held : f.lengthPlace + 4 ≤ buf.length) (pos : 0 < extent) :
      Failure f buf (.tooLarge size f.maxMessageSize extent buf.length)
  /-- The frame is there, and no message. -/
  | damaged {n : Nat} {e : EngineError} (told : f.frameLength buf = .ok n) (held : n ≤ buf.length)
      (damage : e.isDamage = true) : Failure f buf ⟨e, .bytes n⟩
  /-- The frame is there, and other octets stand in place of the magic ones. -/
  | misplaced {max scan n : Nat} {a b : UInt8} (checksummed : f = .binary max scan)
      (told : f.frameLength buf = .ok n) (held : n ≤ buf.length) :
      Failure f buf ⟨.invalidMagic (Octets.half a b),
        Binary.resync scan buf (n - Binary.magicSize)⟩

theorem failure_of_judge {f : Framing} {buf : Octets} {word : UInt32} {e : UnpackFailure}
    (hl : f.lengthPlace + 4 ≤ buf.length) (h : f.judge word buf.length = .error e) :
    Failure f buf e := by
  cases f with
  | field max =>
    simp only [judge] at h
    split at h
    · cases h; exact .undersized hl
    · split at h
      · cases h; exact .oversized hl (by simp only [Field.headerSize] at *; omega)
      · cases h
  | json max =>
    simp only [judge] at h
    split at h
    · cases h; exact .oversized hl (by simp only [JsonText.prefixSize]; omega)
    · cases h
  | binary max scan =>
    simp only [judge] at h
    split at h
    · cases h; exact .oversized hl (by simp only [Binary.headerSize]; omega)
    · cases h

theorem failure_of_frameLength {f : Framing} {buf : Octets} {e : UnpackFailure}
    (h : f.frameLength buf = .error e) : Failure f buf e := by
  cases hw : Octets.wordAt? buf f.lengthPlace with
  | none =>
    rw [frameLength_of_lt (Octets.wordAt?_eq_none_iff.1 hw)] at h
    cases h; exact .short
  | some word =>
    have hl := Octets.le_of_wordAt? hw
    rw [frameLength_of_wordAt? hw] at h
    exact failure_of_judge hl h

theorem unpack_of_frameLength_error {f : Framing} {buf : Octets} {e : UnpackFailure}
    (h : f.frameLength buf = .error e) : f.unpack buf = .error e := by
  cases f with
  | field max => simp only [frameLength] at h; simp only [unpack, Field.unpack, h]; rfl
  | json max => simp only [frameLength] at h; simp only [unpack, JsonText.unpack, h]; rfl
  | binary max scan => simp only [frameLength] at h; simp only [unpack, Binary.unpack, h]; rfl

theorem unpack_of_lt {f : Framing} {buf : Octets} {n : Nat} (h : f.frameLength buf = .ok n)
    (hlt : buf.length < n) : f.unpack buf = .error .short := by
  cases f with
  | field max => simp only [frameLength] at h; simp only [unpack, Field.unpack, h, if_pos hlt]; rfl
  | json max => simp only [frameLength] at h; simp only [unpack, JsonText.unpack, h, if_pos hlt]; rfl
  | binary max scan =>
    simp only [frameLength] at h; simp only [unpack, Binary.unpack, h, if_pos hlt]; rfl

/-- A whole frame that gives no message is damaged, or ends with other octets than the magic ones. -/
theorem fault_of_whole {f : Framing} {buf : Octets} {n : Nat} {e : UnpackFailure}
    (hf : f.frameLength buf = .ok n) (hn : n ≤ buf.length) (h : f.unpack buf = .error e) :
    (e.error.isDamage = true ∧ e.discard = .bytes n) ∨
      ∃ max scan a b, f = .binary max scan ∧
        e = ⟨.invalidMagic (Octets.half a b), Binary.resync scan buf (n - Binary.magicSize)⟩ := by
  have hlt : ¬ buf.length < n := Nat.not_lt.2 hn
  cases f with
  | field max =>
    simp only [frameLength] at hf
    have hb := Field.frameLength_bounds hf
    obtain ⟨_, _, _, _, _, hh⟩ := Field.exists_header? buf (by omega)
    have hu := lift_error h
    simp only [Field.unpack, hf, if_neg hlt, hh] at hu
    split at hu
    · cases hu; exact .inl ⟨rfl, rfl⟩
    · cases hu
  | json max =>
    simp only [frameLength] at hf
    have hu := lift_error h
    simp only [JsonText.unpack, hf, if_neg hlt] at hu
    split at hu
    · cases hu
    · cases hu; exact .inl ⟨rfl, rfl⟩
  | binary max scan =>
    obtain ⟨_, hmax⟩ := Binary.frameLength_bounds hf
    obtain ⟨m, check, a, b, tail, hbuf, hw, rfl⟩ := Binary.exists_parts hf hn
    have hu := lift_error h
    rw [Binary.unpack_parts hbuf hmax hw, ← Binary.sub_magicSize] at hu
    split at hu
    · cases hu; exact .inr ⟨max, scan, a, b, rfl, rfl⟩
    · split at hu
      · cases hu; exact .inl ⟨rfl, rfl⟩
      · cases hu

theorem failure_of_whole {f : Framing} {buf : Octets} {n : Nat} {e : UnpackFailure}
    (hf : f.frameLength buf = .ok n) (hn : n ≤ buf.length) (h : f.unpack buf = .error e) :
    Failure f buf e := by
  obtain ⟨error, discard⟩ := e
  rcases fault_of_whole hf hn h with ⟨hd, rfl⟩ | ⟨max, scan, a, b, rfl, he⟩
  · exact .damaged hf hn hd
  · rw [he]
    exact .misplaced rfl hf hn

theorem judge_ne_short (f : Framing) (word : UInt32) (held : Nat) :
    f.judge word held ≠ .error .short := by
  cases f <;> simp only [judge, UnpackFailure.tooLarge, UnpackFailure.short] <;> grind

/-- An attempt that asks for more octets has a header that is not complete, or too few octets for
the length that is told. -/
theorem lt_of_short {f : Framing} {buf : Octets} (h : f.unpack buf = .error .short) :
    buf.length < f.lengthPlace + 4 ∨ ∃ n, f.frameLength buf = .ok n ∧ buf.length < n := by
  cases hf : f.frameLength buf with
  | ok n =>
    rcases Nat.lt_or_ge buf.length n with hlt | hn
    · exact .inr ⟨n, rfl, hlt⟩
    · rcases fault_of_whole hf hn h with ⟨hd, _⟩ | ⟨max, scan, a, b, _, he⟩
      · cases hd
      · cases he
  | error e =>
    rw [unpack_of_frameLength_error hf] at h
    cases h
    by_cases hl : f.lengthPlace + 4 ≤ buf.length
    · cases hw : Octets.wordAt? buf f.lengthPlace with
      | none => exact absurd (Octets.wordAt?_eq_none_iff.1 hw) (by omega)
      | some word =>
        rw [frameLength_of_wordAt? hw] at hf
        exact absurd hf (judge_ne_short f word _)
    · exact .inl (by omega)

/-- Every failed attempt is one of these. -/
theorem failure_of_unpack {f : Framing} {buf : Octets} {e : UnpackFailure}
    (h : f.unpack buf = .error e) : Failure f buf e := by
  cases hf : f.frameLength buf with
  | error e' =>
    rw [unpack_of_frameLength_error hf] at h
    cases h; exact failure_of_frameLength hf
  | ok n =>
    rcases Nat.lt_or_ge buf.length n with hlt | hn
    · rw [unpack_of_lt hf hlt] at h
      cases h; exact .short
    · exact failure_of_whole hf hn h

/-- What comes of a whole frame that ends as it should does not depend on what follows. -/
theorem unpack_append {f : Framing} {buf : Octets} {n : Nat} (hf : f.frameLength buf = .ok n)
    (hn : n ≤ buf.length) (hm : ∀ w d, f.unpack buf ≠ .error ⟨.invalidMagic w, d⟩)
    (more : Octets) : f.unpack (buf ++ more) = f.unpack buf := by
  have hf' := frameLength_append hf more
  have hlt : ¬ buf.length < n := Nat.not_lt.2 hn
  have hlt' : ¬ (buf ++ more).length < n := by rw [List.length_append]; omega
  cases f with
  | field max =>
    simp only [frameLength] at hf hf'
    have hb := Field.frameLength_bounds hf
    obtain ⟨total, t, s, l, rest, hh⟩ := Field.exists_header? buf (by omega)
    have hrest := congrArg List.length (Field.header?_eq_some_iff.1 hh)
    have hh' : Field.header? (buf ++ more) = some (total, t, s, l, rest ++ more) :=
      Field.header?_eq_some_iff.2 (by
        rw [Field.header?_eq_some_iff.1 hh]; simp only [List.append_assoc])
    simp only [unpack, Field.unpack, hf, hf', if_neg hlt, if_neg hlt', hh, hh']
    split
    · rfl
    · simp only [List.length_append, Octets.length_ofWord, Field.headerSize] at *
      rw [List.take_append_of_le_length (by omega)]
  | json max =>
    simp only [frameLength] at hf hf'
    simp only [unpack, JsonText.unpack, hf, hf', if_neg hlt, if_neg hlt',
      List.take_append_of_le_length hn]
  | binary max scan =>
    obtain ⟨_, hmax⟩ := Binary.frameLength_bounds hf
    obtain ⟨m, check, a, b, tail, hbuf, hw, rfl⟩ := Binary.exists_parts hf hn
    have hmore : buf ++ more =
        Binary.checked m ++ (Octets.ofWord check ++ a :: b :: (tail ++ more)) := by
      rw [hbuf]
      simp only [List.append_assoc, List.cons_append]
    simp only [unpack] at hm ⊢
    rw [Binary.unpack_parts hbuf hmax hw] at hm
    rw [Binary.unpack_parts hmore hmax hw, Binary.unpack_parts hbuf hmax hw]
    by_cases hab : Octets.half a b ≠ Binary.magic
    · rw [if_pos hab] at hm; exact absurd rfl (hm _ _)
    · rw [if_neg hab, if_neg hab]

theorem unpack_of_append {f : Framing} {buf more : Octets} {n : Nat}
    (h : f.frameLength (buf ++ more) = .ok n) (hlt : buf.length < n) :
    f.unpack buf = .error .short := by
  rcases frameLength_of_append h with hf | hf
  · exact unpack_of_lt hf hlt
  · exact unpack_of_frameLength_error hf

end Framing
end FrameEngine
