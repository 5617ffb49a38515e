import FrameEngine.Proofs.Framing.Reassembly
import FrameEngine.Proofs.Framing.RoundTrip

/-!
# FrameEngine.Proofs.Framing.Resync

A frame that does not end with the magic octets, in a stream that comes in pieces. The stream goes
on with a gap through the next magic pair, and then with frames.

* `feed_across_gap`: what comes of the stream is decided by the piece that completes the bad frame.
  If it brings the whole gap along, the frames behind the gap come out, however the rest is cut. If
  it ends inside the gap, the part of the gap that has come is dropped and the other part is taken
  for the beginning of a frame.
* `gap_split_loses_frame`: in the second case a frame behind the gap is lost.
-/

namespace FrameEngine
namespace Framing

open Octets (findPair?)

/-- A frame as long as its header tells, under the limit, that ends with two octets other than the
magic ones. -/
structure Misplaced (max : Nat) (bad : Octets) (a b : UInt8) : Prop where
  told : Binary.frameLength max bad = .ok bad.length
  ends : bad.drop (bad.length - Binary.magicSize) = [a, b]
  wrong : Octets.half a b ≠ Binary.magic

/-- From the two octets `a` and `b` on, the first magic pair is the end of the gap, and the search
looks as far as there. -/
structure Gap (scan : Nat) (a b : UInt8) (gap : Octets) : Prop where
  found : findPair? 0xCA 0xFE (a :: b :: gap) = some gap.length
  within : gap.length + Binary.magicSize ≤ scan

variable {max scan : Nat} {bad gap : Octets} {a b : UInt8}

theorem Misplaced.le_length (h : Misplaced max bad a b) : Binary.magicSize ≤ bad.length := by
  have hb := Binary.frameLength_bounds h.told
  simp only [Binary.headerSize, Binary.footerSize, Binary.magicSize] at hb ⊢
  omega

theorem Misplaced.drop_append (h : Misplaced max bad a b) (more : Octets) :
    (bad ++ more).drop (bad.length - Binary.magicSize) = a :: b :: more := by
  rw [List.drop_append_of_le_length (Nat.sub_le _ _), h.ends]
  rfl

/-- The frame is found bad whatever follows it. -/
theorem Misplaced.unpack_append (h : Misplaced max bad a b) (scan : Nat) (more : Octets) :
    (binary max scan).unpack (bad ++ more) = .error ⟨.invalidMagic (Octets.half a b),
      Binary.resync scan (bad ++ more) (bad.length - Binary.magicSize)⟩ := by
  have htold₀ : (binary max scan).frameLength bad = .ok bad.length := h.told
  have htold : Binary.frameLength max (bad ++ more) = .ok bad.length :=
    frameLength_append htold₀ more
  have hle : bad.length ≤ (bad ++ more).length := by rw [List.length_append]; omega
  obtain ⟨m, check, a', b', tail, hbuf, hw, hn⟩ := Binary.exists_parts htold hle
  obtain ⟨_, hmax⟩ := Binary.frameLength_bounds htold
  have hplace : bad.length - Binary.magicSize = Binary.headerSize + m.data.length + 4 := by
    rw [hn, Binary.sub_magicSize]
  have hends := h.drop_append more
  rw [hplace, Binary.drop_magic_of_parts hbuf] at hends
  cases hends
  rw [unpack, Binary.unpack_parts hbuf (hn ▸ hmax) hw, if_pos h.wrong, hplace]
  rfl

/-- The whole gap is there: all through its end is dropped. -/
theorem resync_of_whole_gap (h : Misplaced max bad a b) (hg : Gap scan a b gap) (more : Octets) :
    Binary.resync scan (bad ++ (gap ++ more)) (bad.length - Binary.magicSize) =
      .bytes (bad.length + gap.length) := by
  have hl := h.le_length
  have hw := hg.within
  have hlen : (bad ++ (gap ++ more)).length = bad.length + gap.length + more.length := by
    simp only [List.length_append]; omega
  have hwindow : gap.length + 2 ≤
      min (bad ++ (gap ++ more)).length (bad.length - Binary.magicSize + scan) -
        (bad.length - Binary.magicSize) := by
    simp only [hlen, Binary.magicSize] at *; omega
  have hfound : findPair? 0xCA 0xFE ((a :: b :: (gap ++ more)).take
      (min (bad ++ (gap ++ more)).length (bad.length - Binary.magicSize + scan) -
        (bad.length - Binary.magicSize))) = some gap.length := by
    have hsplit : a :: b :: (gap ++ more) = (a :: b :: gap) ++ more := rfl
    rw [hsplit, List.take_append,
      List.take_of_length_le (by simpa only [List.length_cons] using hwindow)]
    exact Octets.findPair?_append hg.found _
  simp only [Binary.resync, h.drop_append, hfound]
  congr 1
  omega

/-- Only a part of the gap is there: all of it is dropped. -/
theorem resync_of_part_of_gap (h : Misplaced max bad a b) (hg : Gap scan a b gap) {k : Nat}
    (hk : k < gap.length) :
    Binary.resync scan (bad ++ gap.take k) (bad.length - Binary.magicSize) = .all := by
  have hl := h.le_length
  have hw := hg.within
  have hlen : (bad ++ gap.take k).length = bad.length + k := by
    rw [List.length_append, List.length_take_of_le (Nat.le_of_lt hk)]
  have hstop : min (bad ++ gap.take k).length (bad.length - Binary.magicSize + scan) =
      (bad ++ gap.take k).length := by
    simp only [hlen, Binary.magicSize] at *; omega
  have hnone : findPair? 0xCA 0xFE ((a :: b :: gap.take k).take
      ((bad ++ gap.take k).length - (bad.length - Binary.magicSize))) = none := by
    have htake : a :: b :: gap.take k = (a :: b :: gap).take (k + 2) := rfl
    rw [htake, List.take_take]
    exact Octets.findPair?_take hg.found (by omega)
  simp only [Binary.resync, h.drop_append, hstop, hnone, if_true]

end Framing

namespace Codec

open Framing (Misplaced Gap Segment binary)

variable {max scan : Nat} {bad gap : Octets} {a b : UInt8}

theorem decode_of_whole_gap (h : Misplaced max bad a b) (hg : Gap scan a b gap) (more : Octets) :
    decode (binary max scan) (bad ++ (gap ++ more)) =
      (Except.map some (.error (.invalidMagic (Octets.half a b))), more) := by
  have hdrop : (bad ++ (gap ++ more)).drop (bad.length + gap.length) = more := by
    rw [← List.append_assoc, List.drop_left' List.length_append]
  have hle : bad.length + gap.length ≤ (bad ++ (gap ++ more)).length := by
    simp only [List.length_append]; omega
  have hs : ∀ d, UnpackFailure.isShort ⟨.invalidMagic (Octets.half a b), d⟩ = false := fun _ => rfl
  simp only [decode, h.unpack_append, Framing.resync_of_whole_gap h hg, hs, Bool.false_eq_true,
    if_false, Discard.amount, Nat.min_eq_left hle, hdrop]
  rfl

theorem decode_of_part_of_gap (h : Misplaced max bad a b) (hg : Gap scan a b gap) {k : Nat}
    (hk : k < gap.length) :
    decode (binary max scan) (bad ++ gap.take k) =
      (Except.map some (.error (.invalidMagic (Octets.half a b))), []) := by
  have hs : ∀ d, UnpackFailure.isShort ⟨.invalidMagic (Octets.half a b), d⟩ = false := fun _ => rfl
  simp only [decode, h.unpack_append, Framing.resync_of_part_of_gap h hg hk, hs,
    Bool.false_eq_true, if_false, Discard.amount, List.drop_length]
  rfl

/-! ## Pieces -/

/-- The piece with which a stream comes to a length. -/
theorem exists_completing_piece {pieces : List Octets} {n : Nat} (h0 : 0 < n)
    (h : n ≤ pieces.flatten.length) :
    ∃ early piece later, pieces = early ++ piece :: later ∧ early.flatten.length < n ∧
      n ≤ (early ++ [piece]).flatten.length := by
  induction pieces generalizing n with
  | nil => simp at h; omega
  | cons first pieces ih =>
    by_cases hn : n ≤ first.length
    · exact ⟨[], first, pieces, rfl, h0, by simpa using hn⟩
    · rw [List.flatten_cons, List.length_append] at h
      obtain ⟨early, piece, later, rfl, hlt, hle⟩ :=
        ih (n := n - first.length) (by omega) (by omega)
      refine ⟨first :: early, piece, later, rfl, ?_, ?_⟩
      · rw [List.flatten_cons, List.length_append]; omega
      · rw [List.cons_append, List.flatten_cons, List.length_append]; omega

/-- A part of a frame gives nothing yet, in however many pieces it comes. -/
theorem feed_of_partial {f : Framing} {frame rest buf : Octets} {early : List Octets}
    (h : f.frameLength frame = .ok frame.length) (hr : rest ≠ [])
    (hb : buf ++ early.flatten ++ rest = frame) :
    feed f buf early = ([], buf ++ early.flatten) := by
  induction early generalizing buf with
  | nil => rw [List.flatten_nil, List.append_nil]; rfl
  | cons piece early ih =>
    have hb' : buf ++ piece ++ early.flatten ++ rest = frame := by
      rw [← hb, List.flatten_cons, List.append_assoc buf]
    have hsplit : f.frameLength (buf ++ piece ++ (early.flatten ++ rest)) = .ok frame.length := by
      rw [← List.append_assoc, hb', h]
    have hlt : (buf ++ piece).length < frame.length := by
      have hpos := List.length_pos_iff.2 hr
      rw [← hb']; simp only [List.length_append]; omega
    have hnone : decode f (buf ++ piece) = (.ok none, buf ++ piece) := by
      simp only [decode, Framing.unpack_of_append hsplit hlt, UnpackFailure.isShort_short, if_true]
    simp only [feed, drain_of_none hnone, ih hb', List.flatten_cons, List.append_assoc,
      List.nil_append]

theorem segment_of_packed {m : Message} {out : Octets}
    (h : (binary max scan).pack m = .ok out) : Segment (binary max scan) out (.ok m) := by
  cases m with
  | binary m =>
    obtain ⟨rfl, hmax, hw⟩ := Framing.Binary.pack_eq_ok_iff.1 h
    have hu := Framing.Binary.unpack_frame scan [] hmax hw
    rw [List.append_nil] at hu
    refine .message ?_
    rw [Framing.unpack, hu, Framing.Binary.length_frame]
    rfl
  | field m => cases h
  | json m => cases h

theorem segments_of_packed {messages : List Message} {frames : List Octets}
    (h : List.Forall₂ (fun m out => (binary max scan).pack m = .ok out) messages frames) :
    List.Forall₂ (Segment (binary max scan)) frames (messages.map .ok) := by
  induction h with
  | nil => exact .nil
  | cons hp _ ih => exact .cons (segment_of_packed hp) ih

/-- The bad frame is complete, and some of what follows it has come. -/
theorem feed_of_completed {f : Framing} {early later : List Octets} {piece x left : Octets}
    {e : EngineError} {rest : Octets} (htold : f.frameLength bad = .ok bad.length)
    (hr : rest ≠ []) (hfront : early.flatten ++ rest = bad) (hx : early.flatten ++ piece = bad ++ x)
    (hd : decode f (bad ++ x) = (Except.map some (.error e), left)) :
    feed f [] (early ++ piece :: later) =
      (.error e :: (feed f [] (left :: later)).1, (feed f [] (left :: later)).2) := by
  have hearly : feed f [] early = ([], early.flatten) := feed_of_partial htold hr hfront
  simp only [feed_append, hearly, feed, hx, drain_of_result hd, List.nil_append, List.cons_append]

/-- What comes of a frame that does not end with the magic octets, a gap behind it and frames behind
the gap. The piece that completes the bad frame decides: if it holds the whole gap, the messages
come out of the rest, and nothing is left; if it does not, all of it is dropped, and the decoding
begins anew with the next piece, in the middle of the gap. -/
theorem feed_across_gap {messages : List Message} {frames pieces : List Octets}
    (hbad : Misplaced max bad a b) (hgap : Gap scan a b gap)
    (hpack : List.Forall₂ (fun m out => (binary max scan).pack m = .ok out) messages frames)
    (hp : pieces.flatten = bad ++ (gap ++ frames.flatten)) :
    ∃ early piece later, pieces = early ++ piece :: later ∧ early.flatten.length < bad.length ∧
      bad.length ≤ (early ++ [piece]).flatten.length ∧
      (bad.length + gap.length ≤ (early ++ [piece]).flatten.length →
        feed (binary max scan) [] pieces =
          (.error (.invalidMagic (Octets.half a b)) :: messages.map .ok, [])) ∧
      ((early ++ [piece]).flatten.length < bad.length + gap.length →
        feed (binary max scan) [] pieces =
          (.error (.invalidMagic (Octets.half a b)) :: (feed (binary max scan) [] later).1,
            (feed (binary max scan) [] later).2)) := by
  have htold : (binary max scan).frameLength bad = .ok bad.length := hbad.told
  have hpos : 0 < bad.length := Framing.frameLength_pos htold
  have hlen : bad.length ≤ pieces.flatten.length := by rw [hp, List.length_append]; omega
  obtain ⟨early, piece, later, rfl, hlt, hle⟩ := exists_completing_piece hpos hlen
  have hjoin : (early ++ [piece]).flatten = early.flatten ++ piece := by
    rw [List.flatten_append, List.flatten_singleton]
  rw [hjoin] at hle
  rw [List.flatten_append, List.flatten_cons, ← List.append_assoc] at hp
  -- the pieces so far are the bad frame and the front of what follows it
  obtain ⟨x, hx⟩ : ∃ x, early.flatten ++ piece = bad ++ x :=
    (List.prefix_of_prefix_length_le ⟨_, hp.symm⟩ ⟨_, rfl⟩ hle).imp fun _ h => h.symm
  obtain ⟨rest, hrest⟩ : ∃ rest, early.flatten ++ rest = bad :=
    List.prefix_of_prefix_length_le ⟨_, rfl⟩ ⟨x, hx.symm⟩ (Nat.le_of_lt hlt)
  have hr : rest ≠ [] := by
    rintro rfl
    rw [← hrest, List.append_nil] at hlt
    exact Nat.lt_irrefl _ hlt
  have hbehind : x ++ later.flatten = gap ++ frames.flatten := by
    rw [hx, List.append_assoc] at hp
    exact List.append_cancel_left hp
  have hxlen : (early.flatten ++ piece).length = bad.length + x.length := by
    rw [hx, List.length_append]
  refine ⟨early, piece, later, rfl, hlt, by rwa [hjoin], fun hwhole => ?_, fun hpart => ?_⟩
  · rw [hjoin, hxlen] at hwhole
    obtain ⟨y, rfl⟩ : ∃ y, x = gap ++ y :=
      (List.prefix_of_prefix_length_le ⟨_, hbehind.symm⟩ ⟨_, rfl⟩ (by omega)).imp
        fun _ h => h.symm
    have hframes : ([] : Octets) ++ (y :: later).flatten = frames.flatten := by
      rw [List.append_assoc] at hbehind
      exact List.append_cancel_left hbehind
    have hd := decode_of_whole_gap hbad hgap y
    rw [feed_of_completed htold hr hrest hx hd,
      feed_of_stalled (segments_of_packed hpack) hframes (decode_nil _)]
  · rw [hjoin, hxlen] at hpart
    have hxgap : x = gap.take x.length :=
      List.prefix_iff_eq_take.1
        (List.prefix_of_prefix_length_le ⟨_, rfl⟩ ⟨_, hbehind.symm⟩ (by omega))
    have hd := decode_of_part_of_gap hbad hgap (k := x.length) (by omega)
    rw [← hxgap] at hd
    rw [feed_of_completed htold hr hrest hx hd]
    simp only [feed, List.append_nil, drain_of_none (decode_nil _), List.nil_append]

/-- The second piece brings the end of the bad frame, the gap and the first octet of a frame. -/
theorem feed_across_gap_of_late_cut :
    let bad : Octets := [1, 0, 0, 0, 2, 0, 0, 0, 3, 0, 0, 0, 0, 0, 0, 0, 0, 0, 0]
    let frame : Octets :=
      [1, 0, 0, 0, 2, 0, 0, 0, 3, 0, 0, 0, 2, 0xCA, 0xFE, 111, 56, 79, 226, 0xCA, 0xFE]
    Misplaced 64 bad 0 0 ∧ Gap 64 0 0 [7, 0xCA, 0xFE] ∧
      (binary 64 64).pack (.binary ⟨1, 2, 3, [0xCA, 0xFE]⟩) = .ok frame ∧
      feed (binary 64 64) [] [bad.take 5, bad.drop 5 ++ [7, 0xCA, 0xFE, 1], frame.drop 1] =
        ([.error (.invalidMagic 0), .ok (.binary ⟨1, 2, 3, [0xCA, 0xFE]⟩)], []) := by
  intro bad frame
  have hbad : Misplaced 64 bad 0 0 := ⟨by decide, by decide, by decide⟩
  have hgap : Gap 64 0 0 [7, 0xCA, 0xFE] := ⟨by decide, by decide⟩
  have hpack : (binary 64 64).pack (.binary ⟨1, 2, 3, [0xCA, 0xFE]⟩) = .ok frame := by
    rw [Framing.pack, Framing.Binary.pack_eq_ok_iff]
    decide +kernel
  refine ⟨hbad, hgap, hpack, ?_⟩
  have hp : [bad.take 5, bad.drop 5 ++ [7, 0xCA, 0xFE, 1], frame.drop 1].flatten =
      bad ++ ([7, 0xCA, 0xFE] ++ [frame].flatten) := rfl
  obtain ⟨early, piece, later, hpieces, hlt, hle, hwhole, _⟩ :=
    feed_across_gap hbad hgap (.cons hpack .nil) hp
  refine hwhole ?_
  -- the first piece is too short, and the second is long enough
  rcases early with _ | ⟨p, _ | ⟨q, early⟩⟩
  · cases hpieces; exact absurd hle (by decide)
  · cases hpieces; decide
  · have hfirst : p.length = 5 := by rw [← (List.cons.inj hpieces).1]; rfl
    have hsecond : q.length = 18 := by rw [← (List.cons.inj (List.cons.inj hpieces).2).1]; rfl
    have hbound : bad.length = 19 := rfl
    simp only [List.flatten_cons, List.length_append] at hlt
    omega

/-- The first piece ends with the bad frame. The frame behind the gap is lost, since its header is
looked for in the gap. -/
theorem gap_split_loses_frame :
    let bad : Octets := [1, 0, 0, 0, 2, 0, 0, 0, 3, 0, 0, 0, 0, 0, 0, 0, 0, 0, 0]
    let frame : Octets :=
      [1, 0, 0, 0, 2, 0, 0, 0, 3, 0, 0, 0, 2, 0xCA, 0xFE, 111, 56, 79, 226, 0xCA, 0xFE]
    Misplaced 64 bad 0 0 ∧ Gap 64 0 0 [0xCA, 0xFE] ∧
      (binary 64 64).pack (.binary ⟨1, 2, 3, [0xCA, 0xFE]⟩) = .ok frame ∧
      feed (binary 64 64) [] [bad ++ ([0xCA, 0xFE] ++ frame)] =
        ([.error (.invalidMagic 0), .ok (.binary ⟨1, 2, 3, [0xCA, 0xFE]⟩)], []) ∧
      feed (binary 64 64) [] [bad, [0xCA, 0xFE] ++ frame] =
        ([.error (.invalidMagic 0), .error (.messageTooLarge 196627 64)], []) := by
  intro bad frame
  have hbad : Misplaced 64 bad 0 0 := ⟨by decide, by decide, by decide⟩
  have hgap : Gap 64 0 0 [0xCA, 0xFE] := ⟨by decide, by decide⟩
  have hpack : (binary 64 64).pack (.binary ⟨1, 2, 3, [0xCA, 0xFE]⟩) = .ok frame := by
    rw [Framing.pack, Framing.Binary.pack_eq_ok_iff]
    decide +kernel
  refine ⟨hbad, hgap, hpack, ?_, ?_⟩
  · have h1 := decode_of_whole_gap hbad hgap frame
    have h2 := decode_append_of_segment (segment_of_packed hpack) []
    rw [List.append_nil] at h2
    simp only [feed, List.nil_append, drain_of_result h1, drain_of_result h2,
      drain_of_none (decode_nil _)]
    rfl
  · have h1 := decode_of_part_of_gap hbad hgap (k := 0) (by decide)
    rw [List.take_zero, List.append_nil] at h1
    have hbig : Framing.Binary.unpack 64 64 ([0xCA, 0xFE] ++ frame) =
        .error ⟨.messageTooLarge 196627 64, .all⟩ := by decide +kernel
    have h2 : decode (binary 64 64) ([0xCA, 0xFE] ++ frame) =
        (Except.map some (.error (.messageTooLarge 196627 64)), []) := by
      rw [decode, Framing.unpack, hbig]; rfl
    simp only [feed, List.nil_append, drain_of_result h1, drain_of_result h2,
      drain_of_none (decode_nil _)]
    rfl

end Codec
end FrameEngine
