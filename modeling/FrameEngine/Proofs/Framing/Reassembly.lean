import FrameEngine.Framing.Codec
import FrameEngine.Proofs.Framing.Failure
import Mathlib.Control.Monad.Basic
import Mathlib.Data.List.Forall2

/-!
# FrameEngine.Proofs.Framing.Reassembly

Frames are put together again however their octets arrive.

* `Segment f s r`: alone, the octets `s` come to `r` and to nothing else: a message that takes all
  of them, or damage that spoils all of them.
* `Codec.feed`: the decoding of a stream that comes in pieces.
* `feed_segments`: for every way to cut a row of segments into pieces, what comes out is what the
  segments come to, in order, and nothing is left.

A segment gives the same whatever follows it (`decode_append_of_segment`), and a part of it gives
nothing yet (`decode_of_partial`). So what a piece leaves over is the front of a segment, and the
next piece goes on there (`drain_front`).
-/

namespace FrameEngine

/-- What comes out of a stream that comes in pieces: each piece goes behind what is left of the
earlier ones, and all that the buffer then gives is taken out. -/
def Codec.feed (f : Framing) (buf : Octets) :
    List Octets → List (Except EngineError Message) × Octets
  | [] => ([], buf)
  | piece :: pieces =>
    let (results, left) := drain f (buf ++ piece)
    let (more, left) := feed f left pieces
    (results ++ more, left)

namespace Framing

/-- Octets that alone are a whole message, or a whole frame with damage. -/
inductive Segment (f : Framing) (s : Octets) : Except EngineError Message → Prop where
  | message {m : Message} (read : f.unpack s = .ok (m, s.length)) : Segment f s (.ok m)
  | damaged {e : EngineError} (damage : e.isDamage = true)
      (refused : f.unpack s = .error ⟨e, .bytes s.length⟩) : Segment f s (.error e)

variable {f : Framing} {s : Octets} {r : Except EngineError Message}

theorem frameLength_of_segment (h : Segment f s r) : f.frameLength s = .ok s.length := by
  cases h with
  | message read => exact (unpack_ok read).1
  | damaged damage refused =>
    have hf := failure_of_unpack refused
    generalize hx : (⟨_, .bytes s.length⟩ : UnpackFailure) = x at hf
    cases hf with
    | short => cases hx
    | undersized held => cases hx
    | oversized held pos => cases congrArg UnpackFailure.error hx; cases damage
    | damaged told held _ => cases hx; exact told
    | misplaced _ told held => cases congrArg UnpackFailure.error hx; cases damage

theorem unpack_append_of_segment (h : Segment f s r) (more : Octets) :
    f.unpack (s ++ more) = f.unpack s := by
  refine unpack_append (frameLength_of_segment h) (Nat.le_refl _) (fun w d hw => ?_) more
  cases h with
  | message read => rw [read] at hw; cases hw
  | damaged damage refused => rw [refused] at hw; cases hw; cases damage

end Framing

namespace Codec

open Framing (Segment)

variable {f : Framing} {s : Octets} {r : Except EngineError Message}

theorem feed_append (f : Framing) (buf : Octets) (early later : List Octets) :
    feed f buf (early ++ later) =
      ((feed f buf early).1 ++ (feed f (feed f buf early).2 later).1,
        (feed f (feed f buf early).2 later).2) := by
  induction early generalizing buf with
  | nil => simp only [feed, List.nil_append]
  | cons piece early ih => simp only [feed, List.cons_append, ih, List.append_assoc]

theorem decode_nil (f : Framing) : decode f [] = (.ok none, []) := by
  have hs : f.unpack [] = .error .short :=
    Framing.unpack_of_frameLength_error (Framing.frameLength_of_lt (Nat.succ_pos _))
  simp only [decode, hs, UnpackFailure.isShort_short, if_true]

theorem decode_append_of_segment (h : Segment f s r) (more : Octets) :
    decode f (s ++ more) = (r.map some, more) := by
  have hu := Framing.unpack_append_of_segment h more
  cases h with
  | message read =>
    rw [read] at hu
    simp only [decode, hu, List.drop_left]; rfl
  | @damaged e damage refused =>
    rw [refused] at hu
    have hs : UnpackFailure.isShort ⟨e, .bytes s.length⟩ = false := by
      cases e <;> first | rfl | cases damage
    have ha : min s.length (s ++ more).length = s.length := by
      rw [List.length_append]; omega
    simp only [decode, hu, hs, Bool.false_eq_true, if_false, Discard.amount, ha, List.drop_left]
    rfl

theorem decode_of_partial {front back : Octets} (h : Segment f (front ++ back) r)
    (hb : back ≠ []) : decode f front = (.ok none, front) := by
  have hlt : front.length < (front ++ back).length := by
    rw [List.length_append]
    have := List.length_pos_iff.2 hb
    omega
  have hs := Framing.unpack_of_append (Framing.frameLength_of_segment h) hlt
  simp only [decode, hs, UnpackFailure.isShort_short, if_true]

/-- What a buffer gives that holds the front of a row of segments: the segments that are there
wholly. The rest of it is the front of what remains of the row. -/
theorem drain_front {segs : List Octets} {results : List (Except EngineError Message)}
    (h : List.Forall₂ (Segment f) segs results) {buf rest : Octets}
    (hb : buf ++ rest = segs.flatten) :
    ∃ out later segs' left, results = out ++ later ∧ List.Forall₂ (Segment f) segs' later ∧
      drain f buf = (out, left) ∧ decode f left = (.ok none, left) ∧
      left ++ rest = segs'.flatten := by
  induction h generalizing buf with
  | nil =>
    obtain ⟨rfl, rfl⟩ := List.append_eq_nil_iff.1 hb
    exact ⟨[], [], [], [], rfl, .nil, drain_of_none (decode_nil f), decode_nil f, rfl⟩
  | @cons s r segs results hs hrest ih =>
    rw [List.flatten_cons, List.append_eq_append_iff] at hb
    -- either the buffer ends inside the first segment, or it holds all of it
    rcases hb with ⟨back, rfl, rfl⟩ | ⟨front, rfl, hfront⟩
    · by_cases hback : back = []
      · subst hback
        obtain ⟨out, later, segs', left, rfl, hl, hd, hn, hf⟩ := ih (List.nil_append _)
        have hd' := drain_of_result (decode_append_of_segment hs [])
        rw [hd] at hd'
        simp only [List.append_nil] at hd'
        exact ⟨r :: out, later, segs', left, rfl, hl, hd', hn, hf⟩
      · have hn := decode_of_partial hs hback
        exact ⟨[], r :: results, (buf ++ back) :: segs, buf, rfl, .cons hs hrest,
          drain_of_none hn, hn, by rw [List.flatten_cons, List.append_assoc]⟩
    · obtain ⟨out, later, segs', left, rfl, hl, hd, hn, hf⟩ := ih hfront.symm
      have hd' := drain_of_result (decode_append_of_segment hs front)
      rw [hd] at hd'
      exact ⟨r :: out, later, segs', left, rfl, hl, hd', hn, hf⟩

/-- The loop over the pieces, from a buffer that gives nothing by itself. -/
theorem feed_of_stalled {pieces : List Octets} {segs : List Octets}
    {results : List (Except EngineError Message)} {buf : Octets}
    (h : List.Forall₂ (Segment f) segs results) (hb : buf ++ pieces.flatten = segs.flatten)
    (hn : decode f buf = (.ok none, buf)) : feed f buf pieces = (results, []) := by
  induction pieces generalizing segs results buf with
  | nil =>
    rw [List.flatten_nil, List.append_nil] at hb
    cases h with
    | nil => rw [hb]; rfl
    | @cons s r segs results hs _ =>
      rw [hb, List.flatten_cons, decode_append_of_segment hs] at hn
      cases r <;> cases hn
  | cons piece pieces ih =>
    rw [List.flatten_cons, ← List.append_assoc] at hb
    obtain ⟨out, later, segs', left, rfl, hl, hd, hn', hf⟩ := drain_front h hb
    simp only [feed, hd, ih hl hf hn']

theorem map_some_inj {r r' : Except EngineError Message} (h : r.map some = r'.map some) :
    r = r' := by
  cases r <;> cases r' <;> cases h <;> rfl

/-- What a buffer gives first that holds the front of a row of segments: the first of them. -/
theorem decode_front {segs : List Octets} {results : List (Except EngineError Message)}
    (h : List.Forall₂ (Segment f) segs results) {buf rest next : Octets}
    (hb : buf ++ rest = segs.flatten) (hd : decode f buf = (r.map some, next)) :
    ∃ s segs' results', segs = s :: segs' ∧ results = r :: results' ∧
      List.Forall₂ (Segment f) segs' results' ∧ buf = s ++ next := by
  cases h with
  | nil =>
    obtain ⟨rfl, rfl⟩ := List.append_eq_nil_iff.1 hb
    rw [decode_nil] at hd
    cases r <;> cases hd
  | @cons s r' segs results hs hrest =>
    have hwhole : ∀ front, buf = s ++ front → ∃ s' segs' results', s :: segs = s' :: segs' ∧
        r' :: results = r :: results' ∧ List.Forall₂ (Segment f) segs' results' ∧
        buf = s' ++ next := by
      rintro front rfl
      rw [decode_append_of_segment hs] at hd
      obtain ⟨hr, rfl⟩ := Prod.mk.inj hd
      exact ⟨s, segs, results, rfl, by rw [map_some_inj hr], hrest, rfl⟩
    rw [List.flatten_cons, List.append_eq_append_iff] at hb
    rcases hb with ⟨back, hback, _⟩ | ⟨front, hfront, _⟩
    · by_cases hempty : back = []
      · exact hwhole [] (by rw [hback, hempty, List.append_nil, List.append_nil])
      · rw [hback] at hs
        rw [decode_of_partial hs hempty] at hd
        cases r <;> cases hd
    · exact hwhole front hfront

/-- However the front of a row of segments is cut into pieces, what comes out of it are the first
results of the row. -/
theorem feed_front {pieces : List Octets} {segs : List Octets}
    {results : List (Except EngineError Message)} {buf rest : Octets}
    (h : List.Forall₂ (Segment f) segs results)
    (hb : buf ++ (pieces.flatten ++ rest) = segs.flatten) (hn : decode f buf = (.ok none, buf)) :
    (feed f buf pieces).1 <+: results := by
  induction pieces generalizing segs results buf with
  | nil => exact List.nil_prefix
  | cons piece pieces ih =>
    rw [List.flatten_cons, List.append_assoc, ← List.append_assoc] at hb
    obtain ⟨out, later, segs', left, rfl, hl, hd, hn', hf⟩ := drain_front h hb
    simp only [feed, hd]
    exact (List.prefix_append_right_inj out).2 (ih hl hf hn')

/-- However a row of segments is cut into pieces, each segment comes to its result, once and in its
place, and nothing else comes out or is left. -/
theorem feed_segments {f : Framing} {segs : List Octets}
    {results : List (Except EngineError Message)} (h : List.Forall₂ (Segment f) segs results)
    {pieces : List Octets} (hp : pieces.flatten = segs.flatten) :
    feed f [] pieces = (results, []) :=
  feed_of_stalled h (by rw [List.nil_append, hp]) (decode_nil f)

/-- A frame with a wrong check and one with a right check; the third piece holds the end of the one
and the beginning of the other. -/
theorem feed_segments_of_wrong_check :
    List.Forall₂ (Segment (.binary 64 64))
        [[1, 0, 0, 0, 2, 0, 0, 0, 3, 0, 0, 0, 1, 7, 0, 0, 0, 0, 0xCA, 0xFE],
          [1, 0, 0, 0, 2, 0, 0, 0, 3, 0, 0, 0, 2, 0xCA, 0xFE, 111, 56, 79, 226, 0xCA, 0xFE]]
        [.error (.checksum 0 0x49AA9EC0), .ok (.binary ⟨1, 2, 3, [0xCA, 0xFE]⟩)] ∧
      feed (.binary 64 64) []
        [[1, 0, 0], [], [0, 2, 0, 0, 0, 3, 0, 0, 0, 1, 7, 0, 0, 0, 0, 0xCA, 0xFE, 1],
          [0, 0, 0, 2, 0, 0, 0, 3, 0, 0, 0, 2, 0xCA, 0xFE, 111, 56, 79, 226, 0xCA, 0xFE]] =
        ([.error (.checksum 0 0x49AA9EC0), .ok (.binary ⟨1, 2, 3, [0xCA, 0xFE]⟩)], []) := by
  have hwrong : Framing.Binary.unpack 64 64
      [1, 0, 0, 0, 2, 0, 0, 0, 3, 0, 0, 0, 1, 7, 0, 0, 0, 0, 0xCA, 0xFE] =
      .error ⟨.checksum 0 0x49AA9EC0, .bytes 20⟩ := by decide +kernel
  have hright : Framing.Binary.unpack 64 64
      [1, 0, 0, 0, 2, 0, 0, 0, 3, 0, 0, 0, 2, 0xCA, 0xFE, 111, 56, 79, 226, 0xCA, 0xFE] =
      .ok (⟨1, 2, 3, [0xCA, 0xFE]⟩, 21) := by decide +kernel
  have h : List.Forall₂ (Segment (.binary 64 64))
      [[1, 0, 0, 0, 2, 0, 0, 0, 3, 0, 0, 0, 1, 7, 0, 0, 0, 0, 0xCA, 0xFE],
        [1, 0, 0, 0, 2, 0, 0, 0, 3, 0, 0, 0, 2, 0xCA, 0xFE, 111, 56, 79, 226, 0xCA, 0xFE]]
      [.error (.checksum 0 0x49AA9EC0), .ok (.binary ⟨1, 2, 3, [0xCA, 0xFE]⟩)] :=
    .cons (.damaged rfl (by rw [Framing.unpack, hwrong]; rfl))
      (.cons (.message (by rw [Framing.unpack, hright]; rfl)) .nil)
  exact ⟨h, feed_segments h rfl⟩

end Codec
end FrameEngine
