import FrameEngine.Framing.Codec
import FrameEngine.Proofs.Framing.Failure

/-!
# FrameEngine.Proofs.Framing.Progress

Every attempt comes to one of three things (`delivers_or_waits_or_rejects`): a message that lies in
the buffer and in the limit, a short read that keeps everything, or a protocol error that drops at
least one octet and none that is not there.

So each result of the decoder costs an octet, and taking out all that a buffer gives comes to an end
within as many results as it has octets (`progress_of_decoding`), for every buffer and every limit.
-/

namespace FrameEngine
namespace Framing

/-- A message comes off, of the length that the header tells. -/
def Delivers (f : Framing) (buf : Octets) : Prop :=
  ∃ m n, f.unpack buf = .ok (m, n) ∧ f.frameLength buf = .ok n ∧ 1 ≤ n ∧ n ≤ buf.length ∧
    n ≤ f.maxFrameLength

/-- More octets are needed, and none is dropped. -/
def Waits (f : Framing) (buf : Octets) : Prop := f.unpack buf = .error ⟨.shortRead, .none⟩

/-- A protocol error that drops something that is there. -/
def Rejects (f : Framing) (buf : Octets) : Prop :=
  ∃ e, f.unpack buf = .error e ∧ e.error.errorClass = .protocol ∧ e.error ≠ .shortRead ∧
    (e.discard = .all ∧ buf ≠ [] ∨ ∃ d, e.discard = .bytes d ∧ 1 ≤ d ∧ d ≤ buf.length)

theorem le_maxFrameLength {f : Framing} {buf : Octets} {n : Nat} (h : f.frameLength buf = .ok n) :
    n ≤ f.maxFrameLength := by
  cases f with
  | field max => exact (Field.frameLength_bounds h).2
  | json max =>
    have hb := JsonText.frameLength_bounds h
    have : UInt32.size + JsonText.prefixSize ≤ sizeLimit := by decide
    simp only [maxFrameLength]; omega
  | binary max scan => exact (Binary.frameLength_bounds h).2

theorem resync_bounds (scan : Nat) {place : Nat} {buf : Octets} (h0 : 1 ≤ place)
    (h : place ≤ buf.length) :
    Binary.resync scan buf place = .all ∨
      ∃ d, Binary.resync scan buf place = .bytes d ∧ 1 ≤ d ∧ d ≤ buf.length := by
  unfold Binary.resync
  dsimp only
  split
  · rename_i pos hpos
    have := Octets.findPair?_lt hpos
    rw [List.length_take, List.length_drop] at this
    simp only [Binary.magicSize]
    exact .inr ⟨_, rfl, by omega, by omega⟩
  · split
    · exact .inl rfl
    · exact .inr ⟨_, rfl, by omega, by omega⟩

theorem waits_or_rejects {f : Framing} {buf : Octets} {e : UnpackFailure}
    (h : f.unpack buf = .error e) : f.Waits buf ∨ f.Rejects buf := by
  cases failure_of_unpack h with
  | short => exact .inl h
  | undersized held =>
    exact .inr ⟨_, h, rfl, by rintro ⟨⟩, .inl ⟨rfl, by rintro rfl; simp at held⟩⟩
  | @oversized size extent held pos =>
    refine .inr ⟨_, h, rfl, by rintro ⟨⟩, ?_⟩
    unfold UnpackFailure.tooLarge
    split
    · exact .inr ⟨extent, rfl, pos, ‹_›⟩
    · exact .inl ⟨rfl, by rintro rfl; simp at held⟩
  | @damaged n e told held damage =>
    refine .inr ⟨_, h, ?_, ?_, .inr ⟨n, rfl, frameLength_pos told, held⟩⟩
    · cases e <;> first | rfl | cases damage
    · rintro rfl; cases damage
  | @misplaced max scan n a b checksummed told held =>
    subst checksummed
    have hb := Binary.frameLength_bounds told
    have hplace : 1 ≤ n - Binary.magicSize ∧ n - Binary.magicSize ≤ buf.length := by
      simp only [Binary.headerSize, Binary.footerSize, Binary.magicSize] at hb ⊢; omega
    refine .inr ⟨_, h, rfl, by rintro ⟨⟩, ?_⟩
    rcases resync_bounds scan hplace.1 hplace.2 with hr | hr
    · exact .inl ⟨hr, by rintro rfl; simp at hplace; omega⟩
    · exact .inr hr

theorem delivers_or_waits_or_rejects (f : Framing) (buf : Octets) :
    f.Delivers buf ∨ f.Waits buf ∨ f.Rejects buf := by
  cases h : f.unpack buf with
  | ok p =>
    obtain ⟨hl, hpos, hn⟩ := unpack_ok h
    exact .inl ⟨_, _, h, hl, hpos, hn, le_maxFrameLength hl⟩
  | error e => exact .inr (waits_or_rejects h)

theorem not_waits_of_delivers {f : Framing} {buf : Octets} (h : f.Delivers buf) :
    ¬ f.Waits buf := by
  obtain ⟨m, n, h, _⟩ := h
  intro hw
  rw [Waits, h] at hw
  cases hw

theorem not_rejects_of_delivers {f : Framing} {buf : Octets} (h : f.Delivers buf) :
    ¬ f.Rejects buf := by
  obtain ⟨m, n, h, _⟩ := h
  rintro ⟨e, he, _⟩
  rw [h] at he
  cases he

theorem not_rejects_of_waits {f : Framing} {buf : Octets} (h : f.Waits buf) :
    ¬ f.Rejects buf := by
  rintro ⟨e, he, _, hne, _⟩
  rw [Waits.eq_1] at h
  rw [h] at he
  cases he
  exact hne rfl

end Framing

namespace Codec

/-- Decoding until nothing more comes: the results on the way, each of which costs at least one
octet, and what is left. -/
inductive Decodes (f : Framing) : Octets → List (Except EngineError Message) → Octets → Prop where
  | stop {buf : Octets} (h : decode f buf = (.ok none, buf)) : Decodes f buf [] buf
  | step {buf next left : Octets} {r : Except EngineError Message}
      {results : List (Except EngineError Message)} (h : decode f buf = (r.map some, next))
      (shorter : next.length < buf.length) (rest : Decodes f next results left) :
      Decodes f buf (r :: results) left

/-- One step gives nothing and keeps all, or gives something and shortens the buffer. -/
theorem decode_cases (f : Framing) (buf : Octets) :
    decode f buf = (.ok none, buf) ∨
      ∃ r next, decode f buf = (Except.map some r, next) ∧ next.length < buf.length := by
  cases h : f.unpack buf with
  | ok p =>
    have hd : decode f buf = (Except.map some (.ok p.1), buf.drop p.2) := by
      simp only [decode, h]; rfl
    exact .inr ⟨_, _, hd, decode_shorter hd nofun⟩
  | error e =>
    by_cases hs : e.isShort
    · exact .inl (by simp only [decode, h, hs, if_true])
    · have hd : decode f buf = (Except.map some (.error e.error),
          buf.drop (e.discard.amount buf.length)) := by
        simp only [decode, h, if_neg hs]; rfl
      exact .inr ⟨_, _, hd, decode_shorter hd nofun⟩

/-- A failed attempt that spoils octets is reported, and they go. -/
theorem decode_of_error {f : Framing} {buf : Octets} {e : EngineError} {n : Nat}
    (h : f.unpack buf = .error ⟨e, .bytes n⟩) (he : e.isShortRead = false) (hn : n ≤ buf.length) :
    decode f buf = (.error e, buf.drop n) := by
  have hs : UnpackFailure.isShort ⟨e, .bytes n⟩ = false := he
  simp only [decode, h, hs, Bool.false_eq_true, if_false, Discard.amount, Nat.min_eq_left hn]

/-- Taking out all that a buffer gives comes to an end. -/
theorem decodes_drain (f : Framing) (buf : Octets) :
    Decodes f buf (drain f buf).1 (drain f buf).2 := by
  -- on the length of the buffer, which every result shortens
  induction hl : buf.length using Nat.strongRecOn generalizing buf with
  | _ n ih =>
    rcases decode_cases f buf with h | ⟨r, next, h, hlt⟩
    · rw [drain_of_none h]; exact .stop h
    · rw [drain_of_result h]; exact .step h hlt (ih _ (hl ▸ hlt) next rfl)

theorem length_of_decodes {f : Framing} {buf left : Octets}
    {results : List (Except EngineError Message)} (h : Decodes f buf results left) :
    results.length + left.length ≤ buf.length := by
  induction h with
  | stop _ => simp
  | step _ hlt _ ih => rw [List.length_cons]; omega

end Codec

namespace Framing

/-- An attempt on any buffer comes to exactly one of three things and reads nothing outside it; and
the decoding of the buffer comes to an end, within as many results as it has octets. -/
theorem progress_of_decoding (f : Framing) (buf : Octets) :
    (f.Delivers buf ∧ ¬ f.Waits buf ∧ ¬ f.Rejects buf ∨
      ¬ f.Delivers buf ∧ f.Waits buf ∧ ¬ f.Rejects buf ∨
      ¬ f.Delivers buf ∧ ¬ f.Waits buf ∧ f.Rejects buf) ∧
    f.unpackAt buf = some (f.unpack buf) ∧
    ∃ results left, Codec.drain f buf = (results, left) ∧ Codec.Decodes f buf results left ∧
      results.length ≤ buf.length := by
  refine ⟨?_, unpackAt_eq f buf, ?_⟩
  · rcases delivers_or_waits_or_rejects f buf with h | h | h
    · exact .inl ⟨h, not_waits_of_delivers h, not_rejects_of_delivers h⟩
    · exact .inr (.inl ⟨fun hd => not_waits_of_delivers hd h, h, not_rejects_of_waits h⟩)
    · exact .inr (.inr ⟨fun hd => not_rejects_of_delivers hd h,
        fun hw => not_rejects_of_waits hw h, h⟩)
  · have hd := Codec.decodes_drain f buf
    have := Codec.length_of_decodes hd
    exact ⟨_, _, rfl, hd, by omega⟩

end Framing
end FrameEngine
