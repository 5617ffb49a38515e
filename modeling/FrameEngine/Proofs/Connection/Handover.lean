import FrameEngine.Proofs.Connection.Delivery

/-!
# FrameEngine.Proofs.Connection.Handover

The socket reader changes hands: direct receives have it by turns, until the read loop takes it for
good. `Queued` is the order of those who ask for it. It makes all direct reads come before the first
read of the loop, and the answers come in the order of the calls.

What direct receives have read and not used stays with them. `handover` says what comes of a stream
of frames: the direct receives give the first of them, the loop begins with a buffer of its own, and
what is between the two, in the hands of no one, is lost.
-/

namespace FrameEngine

open Codec (feed)
open Framing (Segment)

/-- The number of a direct call that asks for a lock. -/
def Owner.ticket? : Owner → Option Nat
  | .direct ticket => some ticket
  | .loop => none

namespace Connection

variable {s : Setup} {c c' c₁ : Connection} {results : List (Except EngineError Message)}

/-- What direct receives have been answered with that came off the stream, in the order of the
calls. -/
def answers (c : Connection) : List (Except EngineError Message) :=
  c.direct.filterMap DirectCall.result?

/-- The order in which direct receives and the read loop come to the read half. -/
structure Queued (c : Connection) : Prop where
  rising : (c.readLock.line.filterMap Owner.ticket?).Pairwise (· < ·)
  below : ∀ t, .direct t ∈ c.readLock.line → t < c.direct.length
  /-- Whoever waits has no answer yet, and none who called later has one. -/
  unanswered : ∀ t, .direct t ∈ c.readLock.line →
    (c.direct.drop t).filterMap DirectCall.result? = []
  /-- Whoever is at the stream has the lock, and the read half is there. -/
  asks : ∀ t call, c.direct[t]? = some call → call.asksStream = true →
    c.readLock.isHeldBy (.direct t) = true ∧ c.readHalf = .kept
  loops : c.reader.buffer?.isSome = true → c.readHalf ≠ .kept

theorem queued_new (s : Setup) : Queued (new s) :=
  ⟨List.Pairwise.nil, nofun, nofun, nofun, nofun⟩

theorem line_of_isHeldBy {l : Lock} {o : Owner} (h : l.isHeldBy o = true) :
    ∃ rest, l.line = o :: rest := by
  have hhead : l.line.head? = some o := of_decide_eq_true h
  cases hline : l.line with
  | nil => rw [hline] at hhead; cases hhead
  | cons first rest =>
    rw [hline] at hhead
    exact ⟨rest, by rw [Option.some.inj hhead]⟩

theorem isHeldBy_request {l : Lock} {o : Owner} (h : l.isHeldBy o = true) (p : Owner) :
    (l.request p).isHeldBy o = true := by
  obtain ⟨rest, hline⟩ := line_of_isHeldBy h
  rw [Lock.isHeldBy, Lock.request, hline]
  exact decide_eq_true rfl

/-! ## Answers -/

theorem filterMap_set_eq_nil {calls : List DirectCall} {call : DirectCall}
    (h : calls.filterMap DirectCall.result? = []) (hnone : call.result? = none) (i : Nat) :
    (calls.set i call).filterMap DirectCall.result? = [] := by
  rw [List.filterMap_eq_nil_iff] at h ⊢
  intro d hd
  rcases List.mem_or_eq_of_mem_set hd with hd | rfl
  · exact h d hd
  · exact hnone

theorem drop_set_self {calls : List DirectCall} {t : Nat} (h : t < calls.length)
    (call : DirectCall) : (calls.set t call).drop t = call :: calls.drop (t + 1) := by
  rw [List.drop_set, if_neg (Nat.lt_irrefl t), Nat.sub_self, List.drop_eq_getElem_cons h]
  rfl

theorem filterMap_set {calls : List DirectCall} {t : Nat} (h : t < calls.length)
    (call : DirectCall) : (calls.set t call).filterMap DirectCall.result? =
      (calls.take t).filterMap DirectCall.result? ++
        (call :: calls.drop (t + 1)).filterMap DirectCall.result? := by
  rw [← drop_set_self h, ← List.take_set_of_le (Nat.le_refl t), ← List.filterMap_append,
    List.take_append_drop]

theorem filterMap_split (calls : List DirectCall) (t : Nat) :
    calls.filterMap DirectCall.result? = (calls.take t).filterMap DirectCall.result? ++
      (calls.drop t).filterMap DirectCall.result? := by
  rw [← List.filterMap_append, List.take_append_drop]

/-- A call that has no answer gets none. -/
theorem answers_setDirect {t : Nat} {before call : DirectCall} (h : c.direct[t]? = some before)
    (hbefore : before.result? = none) (hcall : call.result? = none) :
    (c.setDirect t call).answers = c.answers := by
  obtain ⟨hlt, hget⟩ := List.getElem?_eq_some_iff.1 h
  have hset := filterMap_set hlt call
  have hsplit := filterMap_split c.direct t
  rw [List.filterMap_cons_none hcall] at hset
  rw [List.drop_eq_getElem_cons hlt, hget, List.filterMap_cons_none hbefore] at hsplit
  exact hset.trans hsplit.symm

theorem filterMap_concat {call : DirectCall} (h : call.result? = none) (c : Connection) :
    (c.direct ++ [call]).filterMap DirectCall.result? = c.answers := by
  rw [List.filterMap_append, List.filterMap_cons_none h]
  exact List.append_nil _

/-- The first that has no answer gets the next. -/
theorem filterMap_answered {t : Nat} {r : Except EngineError Message} (h : t < c.direct.length)
    (hnone : (c.direct.drop t).filterMap DirectCall.result? = []) {call : DirectCall}
    (hcall : call.result? = some r) :
    (c.direct.set t call).filterMap DirectCall.result? = c.answers ++ [r] := by
  have hrest : (c.direct.drop (t + 1)).filterMap DirectCall.result? = [] := by
    rw [List.drop_eq_getElem_cons h] at hnone
    rw [List.filterMap_eq_nil_iff] at hnone ⊢
    exact fun d hd => hnone d (List.mem_cons_of_mem _ hd)
  have hset := filterMap_set h call
  rw [List.filterMap_cons_some hcall, hrest] at hset
  rw [hset, answers, filterMap_split c.direct t, hnone, List.append_nil]

/-! ## The line -/

namespace Queued

theorem line_of_receiving {t : Nat} (h : Queued c) (turn : c.Receiving t) :
    ∃ rest, c.readLock.line = .direct t :: rest := by
  obtain ⟨call, hcall, ⟨_, held⟩ | asks⟩ := turn
  · exact line_of_isHeldBy held
  · exact line_of_isHeldBy (h.asks t call hcall asks).1

/-- With the lock free or in other hands, no one is at the stream. -/
theorem not_asks {o : Owner} {t : Nat} {call : DirectCall} (h : Queued c)
    (held : c.readLock.isHeldBy o = true) (ho : o ≠ .direct t)
    (hcall : c.direct[t]? = some call) : call.asksStream = false := by
  refine Bool.eq_false_iff.2 fun asks => ho ?_
  obtain ⟨rest, hline⟩ := line_of_isHeldBy held
  obtain ⟨rest', hline'⟩ := line_of_isHeldBy (h.asks t call hcall asks).1
  exact (List.cons.inj (hline.symm.trans hline')).1

theorem still (h : Queued c) (rest : Still c c' results) : Queued c' := by
  refine ⟨rest.lock ▸ h.rising, ?_, ?_, fun t call hcall asks => ?_, fun hsome hkept => ?_⟩
  · rw [rest.lock, rest.direct]; exact h.below
  · rw [rest.lock, rest.direct]; exact h.unanswered
  · rw [rest.direct] at hcall
    obtain ⟨held, kept⟩ := h.asks t call hcall asks
    rw [rest.lock]
    rcases rest.half with hh | ⟨_, _, hfree⟩
    · exact ⟨held, hh.trans kept⟩
    · rw [hfree] at held; cases held
  · rw [rest.reader] at hsome
    rcases rest.half with hh | ⟨hgone, _⟩
    · exact h.loops hsome (hh.symm.trans hkept)
    · cases hgone.symm.trans hkept

theorem with_reader {reader : ReadLoop} (h : Queued c)
    (hr : reader.buffer?.isSome = true → c.readHalf ≠ .kept) : Queued { c with reader } :=
  ⟨h.rising, h.below, h.unanswered, h.asks, hr⟩

/-- A call that reads nothing, or not yet, takes the next number. -/
theorem append {call : DirectCall} (h : Queued c) (hnone : call.result? = none)
    (hasks : call.asksStream = false) : Queued { c with direct := c.direct ++ [call] } := by
  refine ⟨h.rising, fun t ht => ?_, fun t ht => ?_, fun t d hd asks => ?_, h.loops⟩
  · rw [List.length_append]
    exact Nat.lt_succ_of_lt (h.below t ht)
  · have hlt := h.below t ht
    show ((c.direct ++ [call]).drop t).filterMap DirectCall.result? = []
    rw [List.drop_append_of_le_length (Nat.le_of_lt hlt), List.filterMap_append, h.unanswered t ht,
      List.filterMap_cons_none hnone]
    rfl
  · have hd' : (c.direct ++ [call])[t]? = some d := hd
    rw [List.getElem?_append] at hd'
    split at hd'
    · exact h.asks t d hd' asks
    · rw [List.mem_singleton.1 (List.mem_of_getElem? hd'), hasks] at asks
      cases asks

theorem setDirect {t : Nat} {call : DirectCall} (h : Queued c) (hnone : call.result? = none)
    (hasks : call.asksStream = true →
      c.readLock.isHeldBy (.direct t) = true ∧ c.readHalf = .kept) :
    Queued (c.setDirect t call) := by
  refine ⟨h.rising, fun u hu => ?_, fun u hu => ?_, fun u d hd asks => ?_, h.loops⟩
  · show u < (c.direct.set t call).length
    rw [List.length_set]
    exact h.below u hu
  · show ((c.direct.set t call).drop u).filterMap DirectCall.result? = []
    rw [List.drop_set]
    split
    · exact h.unanswered u hu
    · exact filterMap_set_eq_nil (h.unanswered u hu) hnone _
  · have hd' : (c.direct.set t call)[u]? = some d := hd
    rw [List.getElem?_set] at hd'
    split at hd'
    · rename_i htu
      split at hd'
      · cases hd'
        exact htu ▸ hasks asks
      · cases hd'
    · exact h.asks u d hd' asks

theorem request_loop (h : Queued c) :
    Queued { c with readLock := c.readLock.request .loop } := by
  have hline : (c.readLock.request .loop).line = c.readLock.line ++ [.loop] := rfl
  have hmem : ∀ t, .direct t ∈ (c.readLock.request .loop).line → .direct t ∈ c.readLock.line := by
    intro t ht
    rw [hline] at ht
    rcases List.mem_append.1 ht with ht | ht
    · exact ht
    · cases List.mem_singleton.1 ht
  refine ⟨?_, fun t ht => h.below t (hmem t ht), fun t ht => h.unanswered t (hmem t ht),
    fun t call hcall asks => ?_, h.loops⟩
  · rw [hline, List.filterMap_append]
    exact (List.append_nil _).symm ▸ h.rising
  · obtain ⟨held, kept⟩ := h.asks t call hcall asks
    exact ⟨isHeldBy_request held _, kept⟩

/-- A direct receive takes the next number and asks for the lock. -/
theorem inLine (h : Queued c) : Queued c.inLine := by
  have happend : Queued { c with direct := c.direct ++ [.locking] } := h.append rfl rfl
  have hline : c.inLine.readLock.line = c.readLock.line ++ [.direct c.direct.length] := rfl
  have hdirect : c.inLine.direct = c.direct ++ [.locking] := rfl
  refine ⟨?_, fun t ht => ?_, fun t ht => ?_, fun t call hcall asks => ?_, h.loops⟩
  · rw [hline, List.filterMap_append]
    refine List.pairwise_append.2 ⟨h.rising, List.pairwise_singleton _ _, fun t ht u hu => ?_⟩
    obtain ⟨o, ho, hticket⟩ := List.mem_filterMap.1 ht
    cases o with
    | loop => cases hticket
    | direct ticket =>
      cases hticket
      rw [List.mem_singleton.1 hu]
      exact h.below t ho
  · rw [hline] at ht
    rcases List.mem_append.1 ht with ht | ht
    · exact happend.below t ht
    · rw [hdirect, List.length_append, Owner.direct.inj (List.mem_singleton.1 ht)]
      exact Nat.lt_succ_self _
  · rw [hline] at ht
    rcases List.mem_append.1 ht with ht | ht
    · exact happend.unanswered t ht
    · rw [hdirect, Owner.direct.inj (List.mem_singleton.1 ht), List.drop_left]
      rfl
  · obtain ⟨held, kept⟩ := happend.asks t call hcall asks
    exact ⟨isHeldBy_request held _, kept⟩

/-- Whoever has the lock passes it on, and no one is at the stream any more. -/
theorem release {half : Keeping} {reader : ReadLoop} {pending : Accumulator}
    {direct : List DirectCall} (h : Queued c) (hlength : direct.length = c.direct.length)
    (hdrop : ∀ t, .direct t ∈ c.readLock.line.tail →
      (direct.drop t).filterMap DirectCall.result? = [])
    (hasks : ∀ (t : Nat) (call : DirectCall), direct[t]? = some call → call.asksStream = false)
    (hloops : reader.buffer?.isSome = true → half ≠ .kept) :
    Queued { c with
      readLock := c.readLock.release, readHalf := half, reader, pending, direct } := by
  have htail : c.readLock.line.tail.Sublist c.readLock.line := List.tail_sublist _
  refine ⟨h.rising.sublist (htail.filterMap _), fun t ht => ?_, hdrop, fun t call hcall asks => ?_,
    hloops⟩
  · show t < direct.length
    rw [hlength]
    exact h.below t (htail.mem ht)
  · cases (hasks t call hcall).symm.trans asks

/-- A receive that is answered passes the lock on. -/
theorem answer {t : Nat} {call : DirectCall} {half : Keeping} {pending : Accumulator}
    (h : Queued c) (turn : c.Receiving t) (hasks : call.asksStream = false)
    (drops : half = c.readHalf ∨ half = .gone) :
    Queued { c with
      direct := c.direct.set t call, readLock := c.readLock.release, readHalf := half,
      pending } := by
  obtain ⟨rest, hline⟩ := h.line_of_receiving turn
  have held : c.readLock.isHeldBy (.direct t) = true := by
    rw [Lock.isHeldBy, hline]
    exact decide_eq_true rfl
  refine h.release List.length_set (fun u hu => ?_) (fun u d hd => ?_) fun hsome => ?_
  · -- who still waits has a higher number, so what lies behind it is not touched
    have hrising : (t :: rest.filterMap Owner.ticket?).Pairwise (· < ·) := by
      have hall := h.rising
      rw [hline] at hall
      exact hall
    rw [hline] at hu
    have hlt : t < u := (List.pairwise_cons.1 hrising).1 u (List.mem_filterMap.2 ⟨_, hu, rfl⟩)
    rw [List.drop_set, if_pos hlt]
    exact h.unanswered u (by rw [hline]; exact List.mem_cons_of_mem _ hu)
  · rw [List.getElem?_set] at hd
    split at hd
    · split at hd <;> cases hd
      exact hasks
    · rename_i hne
      exact h.not_asks held (fun ho => hne (Owner.direct.inj ho)) hd
  · rcases drops with rfl | rfl
    · exact h.loops hsome
    · intro hkept
      cases hkept

theorem receipt {t : Nat} (h : Queued c) (turn : c.Receiving t) (receipt : Receipt s c t c') :
    Queued c' := by
  obtain ⟨line, hline⟩ := h.line_of_receiving turn
  cases receipt with
  | @waits call _ asks kept rest =>
    refine (h.setDirect ?_ fun _ => ⟨?_, ?_⟩).still rest
    · cases call <;> first | rfl | cases asks
    · rw [Lock.isHeldBy, hline]
      exact decide_eq_true rfl
    · rcases kept with kept | ⟨before, hbefore, hasks⟩
      · exact kept
      · exact (h.asks t before hbefore hasks).2
  | answers _ rest => exact (h.answer turn rfl (.inl rfl)).still rest
  | fails _ drops _ rest => exact (h.answer turn rfl drops).still rest

/-- A loop that goes on, or ends: the read half is its own, so no one else is at the stream. -/
theorem onward {buffer kept : Octets} {half : Keeping} {reader : ReadLoop} (h : Queued c)
    (has : c.reader.buffer? = some buffer) (next : Onward c.readHalf kept c' half reader) :
    Queued { c with readHalf := half, reader } := by
  have hapart : c.readHalf ≠ .kept := h.loops (by rw [has]; rfl)
  refine ⟨h.rising, h.below, h.unanswered, fun t call hcall asks => ?_, fun _ => ?_⟩
  · exact absurd (h.asks t call hcall asks).2 hapart
  · cases next with
    | goes _ => exact hapart
    | ends _ => nofun

theorem turn {w : Wake} (h : Queued c) (turn : LoopTurn s c w c') : Queued c' := by
  cases turn with
  | asks _ rest =>
    have hlocking : Queued { c with readLock := c.readLock.request .loop, reader := .locking } :=
      h.request_loop.with_reader nofun
    exact hlocking.still rest
  | @takes lock half reader _ turn held apart next rest =>
    have hlock : Queued { c with readLock := lock } := by
      rcases turn with ⟨_, rfl⟩ | ⟨_, rfl⟩
      · exact h.request_loop
      · exact h
    have hreleased : Queued { c with readLock := lock.release, readHalf := half, reader } := by
      refine hlock.release rfl (fun t ht => ?_) (fun t call hcall => ?_) fun _ => apart
      · exact hlock.unanswered t (List.mem_of_mem_tail ht)
      · exact hlock.not_asks held nofun hcall
    exact hreleased.still rest
  | waits _ has next rest => exact (h.onward has next).still rest
  | @hears d buffer _ _ half reader _ _ _ _ has _ _ _ _ next rest =>
    have honward := h.onward has next
    have hrecord : Queued { c.record (.bytesRead d.length) with readHalf := half, reader } :=
      ⟨honward.rising, honward.below, honward.unanswered, honward.asks, honward.loops⟩
    exact hrecord.still rest

theorem step {l : Label} (h : Queued c) (hstep : c.step s l = some c') : Queued c' := by
  cases intake_of_step hstep with
  | still _ _ rest => exact h.still rest
  | @begins _ reader _ _ _ _ set rest =>
    have hreader : Queued { c with reader } := by
      refine h.with_reader fun hsome => ?_
      rcases set with rfl | rfl <;> cases hsome
    exact hreader.still rest
  | @sends frame call _ aside rest =>
    have hasks : call.asksStream = false := by
      cases call <;> first | rfl | cases aside.1
    exact (h.append aside.2 hasks).still rest
  | @drives ticket job call w _ _ sending aside rest =>
    have hasks : call.asksStream = false := by
      cases call <;> first | rfl | cases aside.1
    refine (h.setDirect aside.2 fun asks => ?_).still rest
    cases hasks.symm.trans asks
  | loops turn => exact h.turn turn
  | joins rest => exact h.inLine.still rest
  | enters turn receipt => exact h.inLine.receipt turn receipt
  | goes _ turn receipt => exact h.receipt turn receipt
  | @gets ticket d _ _ turn receipt =>
    obtain ⟨call, hcall, asks⟩ := turn
    have hread : Queued { c.record (.bytesRead d.length) with pending := c.pending.append d } :=
      ⟨h.rising, h.below, h.unanswered, h.asks, h.loops⟩
    exact hread.receipt ⟨call, hcall, .inr asks⟩ receipt

end Queued

/-! ## What direct receives give -/

/-- Direct receives have read the front of a row of frames. They have given what the first of these
come to, and have the rest of what they read. -/
def Answered (f : Framing) (frames : List Octets) (results : List (Except EngineError Message))
    (read : Octets) (c : Connection) : Prop :=
  ∃ done rest later, frames = done ++ rest ∧ results = c.answers ++ later ∧
    done.length = c.answers.length ∧ List.Forall₂ (Segment f) rest later ∧
    read = done.flatten ++ c.pending.held

section

variable {f : Framing} {frames : List Octets} {read : Octets}

theorem result?_of_segment {frame : Octets} {r : Except EngineError Message}
    (h : Segment f frame r) : (DirectCall.answered (r.map some)).result? = some r := by
  cases h with
  | message _ => rfl
  | @damaged e damage _ =>
    have hclass : e.errorClass = .protocol := by
      cases e <;> first | rfl | cases damage
    exact if_pos hclass

theorem holdsHeader_of_segment {frame : Octets} {r : Except EngineError Message}
    (h : Segment f frame r) : f.HoldsHeader := by
  have htold := Framing.frameLength_of_segment h
  refine Nat.le_trans (Nat.le_of_not_lt fun hlt => ?_) (Framing.le_maxFrameLength htold)
  cases (Framing.frameLength_of_lt hlt).symm.trans htold

theorem Answered.of_same (h : Answered f frames results read c) (ha : c'.answers = c.answers)
    (hp : c'.pending = c.pending) : Answered f frames results read c' := by
  rw [Answered, ha, hp]
  exact h

theorem Receiving.unanswered {t : Nat} (turn : c.Receiving t) :
    ∃ call, c.direct[t]? = some call ∧ call.result? = none := by
  obtain ⟨call, hcall, ⟨rfl, _⟩ | asks⟩ := turn
  · exact ⟨_, hcall, rfl⟩
  · exact ⟨call, hcall, by cases call <;> first | rfl | cases asks⟩

theorem Answered.receipt {t : Nat} (h : Answered s.framing frames results read c) (hq : Queued c)
    (turn : c.Receiving t) (hread : read <+: frames.flatten) (receipt : Receipt s c t c') :
    Answered s.framing frames results read c' := by
  obtain ⟨before, hcall, hbefore⟩ := turn.unanswered
  have hlt := (List.getElem?_eq_some_iff.1 hcall).1
  -- what is left of the reads is the front of the frames that have not been given
  obtain ⟨done, others, later, hframes, hresults, hlength, hsegments, hsplit⟩ := id h
  obtain ⟨tail, htail⟩ := hread
  have hfront : c.pending.held ++ tail = others.flatten := by
    rw [hsplit, hframes, List.flatten_append, List.append_assoc] at htail
    exact List.append_cancel_left htail
  cases receipt with
  | @waits call _ asks _ rest =>
    have hnone : call.result? = none := by cases call <;> first | rfl | cases asks
    refine h.of_same ?_ rest.pending
    rw [answers, rest.direct]
    exact answers_setDirect hcall hbefore hnone
  | @answers r next _ decoded rest =>
    obtain ⟨frame, others, later, rfl, rfl, hothers, hheld⟩ :=
      Codec.decode_front hsegments hfront decoded
    obtain ⟨line, hline⟩ := hq.line_of_receiving turn
    have hnone := hq.unanswered t (by rw [hline]; exact List.mem_cons_self)
    have hresult := result?_of_segment (List.forall₂_cons.1 hsegments).1
    have hnow : c'.answers = c.answers ++ [r] := by
      rw [answers, rest.direct]
      exact filterMap_answered hlt hnone hresult
    have hleft : c'.pending.held = next := congrArg Accumulator.held rest.pending
    refine ⟨done ++ [frame], others, later, ?_, ?_, ?_, hothers, ?_⟩
    · rw [hframes, List.append_assoc]; rfl
    · rw [hresults, hnow, List.append_assoc]; rfl
    · rw [hnow, List.length_append, List.length_append, hlength]; rfl
    · rw [hsplit, hheld, hleft, List.flatten_append, List.flatten_singleton, List.append_assoc]
  | @fails e half pending _ plain drops room rest =>
    have hsame : pending = c.pending := by
      refine room.resolve_right fun ⟨hlong, hshort⟩ => ?_
      cases hsegments with
      | nil =>
        have hempty : c.pending.held = [] := (List.append_eq_nil_iff.1 hfront).1
        rw [Accumulator.length, hempty] at hlong
        cases hlong
      | cons hfirst _ =>
        have hle := Framing.le_maxFrameLength_of_short (holdsHeader_of_segment hfirst) hshort
        exact absurd hlong (Nat.not_lt.2 hle)
    have hnone : (DirectCall.answered (.error e)).result? = none := if_neg plain
    refine h.of_same ?_ (rest.pending.trans hsame)
    rw [answers, rest.direct]
    exact answers_setDirect hcall hbefore hnone

theorem answered_step {l : Label} (h : Answered s.framing frames results read c) (hq : Queued c)
    (hread : read ++ l.directReads.flatten <+: frames.flatten) (hstep : c.step s l = some c') :
    Answered s.framing frames results (read ++ l.directReads.flatten) c' := by
  have hsame : l.directReads = [] → c'.answers = c.answers → c'.pending = c.pending →
      Answered s.framing frames results (read ++ l.directReads.flatten) c' := by
    intro hl hanswers hpending
    rw [hl, List.flatten_nil, List.append_nil]
    exact h.of_same hanswers hpending
  cases intake_of_step hstep with
  | still _ direct rest =>
    exact hsame direct (congrArg (List.filterMap DirectCall.result?) rest.direct) rest.pending
  | begins _ direct _ _ rest =>
    exact hsame direct (congrArg (List.filterMap DirectCall.result?) rest.direct) rest.pending
  | sends aside rest =>
    refine hsame rfl ?_ rest.pending
    rw [answers, rest.direct]
    exact filterMap_concat aside.2 c
  | drives direct sending aside rest =>
    refine hsame direct ?_ rest.pending
    rw [answers, rest.direct]
    exact answers_setDirect sending rfl aside.2
  | loops turn =>
    cases turn with
    | asks _ rest | takes _ _ _ _ rest | waits _ _ _ rest | hears _ _ _ _ _ _ _ rest =>
      exact hsame rfl (congrArg (List.filterMap DirectCall.result?) rest.direct) rest.pending
  | joins rest =>
    refine hsame rfl ?_ rest.pending
    rw [answers, rest.direct]
    exact filterMap_concat rfl c
  | enters turn receipt =>
    have hnone : Label.receiveDirect.directReads = [] := rfl
    have hline : Answered s.framing frames results read c.inLine :=
      h.of_same (filterMap_concat rfl c) rfl
    rw [hnone, List.flatten_nil, List.append_nil] at hread ⊢
    exact hline.receipt hq.inLine turn hread receipt
  | @goes ticket w _ dry turn receipt =>
    have hdry := (loopReads_of_dry dry (.direct ticket)).2
    rw [hdry, List.flatten_nil, List.append_nil] at hread ⊢
    exact h.receipt hq turn hread receipt
  | @gets ticket d _ fed turn receipt =>
    obtain ⟨call, hcall, asks⟩ := turn
    have hpiece : (Label.wake (.direct ticket) (.read (.ok d))).directReads.flatten = d := by
      rw [directReads_read fed, List.flatten_singleton]
    rw [hpiece] at hread ⊢
    have hqueued : Queued { c.record (.bytesRead d.length) with pending := c.pending.append d } :=
      ⟨hq.rising, hq.below, hq.unanswered, hq.asks, hq.loops⟩
    have hmore : Answered s.framing frames results (read ++ d)
        { c.record (.bytesRead d.length) with pending := c.pending.append d } := by
      obtain ⟨done, others, later, hframes, hresults, hlength, hsegments, hsplit⟩ := h
      refine ⟨done, others, later, hframes, hresults, hlength, hsegments, ?_⟩
      rw [hsplit, List.append_assoc]
      rfl
    exact hmore.receipt hqueued ⟨call, hcall, .inr asks⟩ hread receipt

theorem answered_steps {ls : List Label} (run : Steps s c ls c') :
    ∀ {read}, Queued c → Answered s.framing frames results read c →
      read ++ (ls.flatMap Label.directReads).flatten <+: frames.flatten →
      Answered s.framing frames results (read ++ (ls.flatMap Label.directReads).flatten) c' := by
  induction run with
  | nil c =>
    intro read _ h _
    rw [List.flatMap_nil, List.flatten_nil, List.append_nil]
    exact h
  | @cons a b c l ls first _ ih =>
    intro read hq h hread
    rw [List.flatMap_cons, List.flatten_append, ← List.append_assoc] at hread ⊢
    have hfirst := answered_step h hq ((List.prefix_append _ _).trans hread) first
    exact ih (hq.step first) hfirst hread

end

/-! ## The order of reads -/

/-- Once the read loop has the read half, it is not in its place any more. -/
theorem taken_of_loopReads {l : Label} (hq : Queued c) (h : c.step s l = some c')
    (hl : l.loopReads ≠ []) : c.readHalf ≠ .kept := by
  obtain ⟨d, rfl, hd⟩ := exists_read_of_loopReads hl
  cases intake_of_step h with
  | still loop _ _ => exact absurd loop hl
  | begins loop _ _ _ _ => exact absurd loop hl
  | loops turn =>
    cases turn with
    | waits dry _ _ _ => exact absurd (dry d rfl) hd
    | hears _ has _ _ _ _ _ _ => exact hq.loops (by rw [has]; rfl)

theorem kept_of_directReads {l : Label} (hq : Queued c) (h : c.step s l = some c')
    (hl : l.directReads ≠ []) : c.readHalf = .kept ∧ l.loopReads = [] := by
  cases intake_of_step h with
  | still _ direct _ => exact absurd direct hl
  | begins _ direct _ _ _ => exact absurd direct hl
  | drives direct _ _ _ => exact absurd direct hl
  | sends _ _ => exact absurd rfl hl
  | loops _ => exact absurd rfl hl
  | joins _ => exact absurd rfl hl
  | enters _ _ => exact absurd rfl hl
  | goes dry _ _ => exact absurd (loopReads_of_dry dry _).2 hl
  | gets _ turn _ =>
    obtain ⟨call, hcall, asks⟩ := turn
    exact ⟨(hq.asks _ call hcall asks).2, rfl⟩

theorem Still.taken (rest : Still c c' results) (h : c.readHalf ≠ .kept) :
    c'.readHalf ≠ .kept := by
  rcases rest.half with hh | ⟨hgone, _⟩
  · rw [hh]; exact h
  · rw [hgone]; nofun

theorem Onward.taken {buffer : Octets} {half half' : Keeping} {reader : ReadLoop}
    (next : Onward half buffer c' half' reader) (h : half ≠ .kept) : half' ≠ .kept := by
  cases next with
  | goes _ => exact h
  | ends _ => nofun

theorem Receipt.taken {t : Nat} (receipt : Receipt s c t c') (h : c.readHalf ≠ .kept) :
    c'.readHalf ≠ .kept := by
  cases receipt with
  | waits _ _ rest => exact rest.taken h
  | answers _ rest => exact rest.taken h
  | fails _ drops _ rest =>
    refine rest.taken ?_
    rcases drops with rfl | rfl
    · exact h
    · nofun

theorem taken_step {l : Label} (hstep : c.step s l = some c') (h : c.readHalf ≠ .kept) :
    c'.readHalf ≠ .kept := by
  cases intake_of_step hstep with
  | still _ _ rest => exact rest.taken h
  | begins _ _ _ _ rest => exact rest.taken h
  | sends _ rest => exact rest.taken h
  | drives _ _ _ rest => exact rest.taken h
  | loops turn =>
    cases turn with
    | asks _ rest => exact rest.taken h
    | takes _ _ apart _ rest => exact rest.taken apart
    | waits _ _ next rest => exact rest.taken (next.taken h)
    | hears _ _ _ _ _ _ next rest => exact rest.taken (next.taken h)
  | joins rest => exact rest.taken h
  | enters _ receipt => exact receipt.taken h
  | goes _ _ receipt => exact receipt.taken h
  | gets _ _ receipt => exact receipt.taken h

/-- What direct receives read comes before all that the read loop reads. -/
theorem reads_of_steps {ls : List Label} (run : Steps s c ls c') :
    ∀ direct loop : List Octets, Queued c → (loop ≠ [] → c.readHalf ≠ .kept) →
      direct ++ loop ++ ls.flatMap (fun l => l.directReads ++ l.loopReads) =
        direct ++ ls.flatMap Label.directReads ++ (loop ++ ls.flatMap Label.loopReads) := by
  induction run with
  | nil c =>
    intro direct loop _ _
    simp only [List.flatMap_nil, List.append_nil]
  | @cons a b c l ls first _ ih =>
    intro direct loop hq hloop
    simp only [List.flatMap_cons]
    -- a step reads for one of the two; for a direct receive only while the loop has read nothing
    by_cases hl : l.directReads = []
    · have hnext : loop ++ l.loopReads ≠ [] → b.readHalf ≠ .kept := by
        intro hne
        refine taken_step first ?_
        by_cases hnone : l.loopReads = []
        · exact hloop (by rwa [hnone, List.append_nil] at hne)
        · exact taken_of_loopReads hq first hnone
      have hrest := ih direct (loop ++ l.loopReads) (hq.step first) hnext
      simp only [hl, List.nil_append, List.append_assoc] at hrest ⊢
      exact hrest
    · obtain ⟨hkept, hnone⟩ := kept_of_directReads hq first hl
      have hempty : loop = [] := by
        by_contra hne
        exact hloop hne hkept
      have hrest := ih (direct ++ l.directReads) [] (hq.step first) fun hne => absurd rfl hne
      simp only [hempty, hnone, List.nil_append, List.append_nil, List.append_assoc] at hrest ⊢
      exact hrest

/-! ## The stream changes hands -/

/-- What comes of a stream of frames that direct receives read first and then the read loop. -/
structure Handover (s : Setup) (frames : List Octets) (results : List (Except EngineError Message))
    (ls : List Label) (c : Connection) : Prop where
  /-- Direct receives read before the read loop does. -/
  order : ls.flatMap (fun l => l.directReads ++ l.loopReads) =
    ls.flatMap Label.directReads ++ ls.flatMap Label.loopReads
  /-- They give what the first frames come to; what they have read behind these stays with them. -/
  answered : ∃ k, c.answers = results.take k ∧
    (ls.flatMap Label.directReads).flatten = (frames.take k).flatten ++ c.pending.held
  /-- The handler hears what comes of the octets of the read loop alone. -/
  heard : c.heard <+: (feed s.framing [] (ls.flatMap Label.loopReads)).1 ∧
    (c.isClosed = false → c.heard = (feed s.framing [] (ls.flatMap Label.loopReads)).1)
  /-- That is what the next frames come to, if nothing stayed with direct receives. -/
  whole : ls.flatMap Label.loopReads = [] ∨ c.pending.held = [] → c.answers ++ c.heard <+: results
  /-- Without a read loop there is nothing but answers. -/
  simple : c.reader = .absent → ls.flatMap Label.loopReads = []

theorem holdsHeader_of_reads {f : Framing} {frames : List Octets}
    (h : List.Forall₂ (Segment f) frames results) {ls : List Label}
    (hread : (ls.flatMap Label.loopReads).flatten.length ≤ frames.flatten.length)
    (hloop : ls.flatMap Label.loopReads ≠ []) : f.HoldsHeader := by
  cases h with
  | cons hfirst _ => exact holdsHeader_of_segment hfirst
  | nil =>
    obtain ⟨piece, hpiece⟩ := List.exists_mem_of_ne_nil _ hloop
    obtain ⟨l, _, hl⟩ := List.mem_flatMap.1 hpiece
    obtain ⟨d, rfl, hd⟩ := exists_read_of_loopReads (List.ne_nil_of_mem hl)
    rw [loopReads_read hd] at hl
    have hnil : (ls.flatMap Label.loopReads).flatten = [] :=
      List.length_eq_zero_iff.1 (Nat.le_zero.1 hread)
    rw [List.flatten_eq_nil_iff] at hnil
    exact absurd ((List.mem_singleton.1 hl).symm.trans (hnil piece hpiece)) hd

theorem handover {frames : List Octets} (h : List.Forall₂ (Segment s.framing) frames results)
    {ls : List Label} (run : Steps s (new s) ls c)
    (hread : (ls.flatMap fun l => l.directReads ++ l.loopReads).flatten <+: frames.flatten) :
    Handover s frames results ls c := by
  have horder : ls.flatMap (fun l => l.directReads ++ l.loopReads) =
      ls.flatMap Label.directReads ++ ls.flatMap Label.loopReads := by
    have hreads := reads_of_steps run [] [] (queued_new s) fun hne => absurd rfl hne
    exact hreads
  rw [horder, List.flatten_append] at hread
  have hdirect : ([] : Octets) ++ (ls.flatMap Label.directReads).flatten <+: frames.flatten :=
    (List.prefix_append _ _).trans hread
  have hbegin : Answered s.framing frames results [] (new s) :=
    ⟨[], frames, results, rfl, rfl, rfl, h, rfl⟩
  obtain ⟨done, others, later, hframes, hresults, hlength, hsegments, hsplit⟩ :=
    answered_steps run (queued_new s) hbegin hdirect
  rw [List.nil_append] at hsplit
  have hroom : ls.flatMap Label.loopReads ≠ [] → s.framing.HoldsHeader := by
    refine holdsHeader_of_reads h ?_
    have hle := hread.length_le
    rw [List.length_append] at hle
    exact Nat.le_trans (Nat.le_add_left _ _) hle
  have hdelivered : Delivered s (ls.flatMap Label.loopReads) c :=
    delivered_steps run hroom (kept_new s) (delivered_new s)
  refine
    { order := horder
      answered := ⟨c.answers.length, ?_, ?_⟩
      heard := ⟨hdelivered.heard, hdelivered.of_open⟩
      whole := fun hwhole => ?_
      simple := fun habsent => ?_ }
  · rw [hresults, List.take_left]
  · rw [hsplit, hframes, ← hlength, List.take_left]
  · rw [hresults]
    refine (List.prefix_append_right_inj _).2 (hdelivered.heard.trans ?_)
    rcases hwhole with hnone | hempty
    · rw [hnone]
      exact List.nil_prefix
    · obtain ⟨tail, htail⟩ := hread
      have hfront : [] ++ ((ls.flatMap Label.loopReads).flatten ++ tail) = others.flatten := by
        rw [hsplit, hempty, List.append_nil, hframes, List.flatten_append, List.append_assoc]
          at htail
        exact List.append_cancel_left htail
      exact Codec.feed_front hsegments hfront (Codec.decode_nil _)
  · exact hdelivered.waiting (by rw [habsent]; rfl) (by rw [habsent]; nofun)

end Connection
end FrameEngine
