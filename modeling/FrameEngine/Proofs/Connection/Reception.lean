import FrameEngine.Handler.Standard
import FrameEngine.Proofs.Connection.Effects
import FrameEngine.Proofs.Framing.Progress
import Mathlib.Control.Monad.Basic

/-!
# FrameEngine.Proofs.Connection.Reception

What comes off a buffer does not depend on who takes it off (`reception_agrees`): the messages and
the errors of the framing that the handler is told of in a drain, and those that direct receives are
answered with, are those of the decoder, in its order, and as much of the buffer is left.

All three go on by the same judgement of the buffer. `Codec.Decodes` is the run of the decoder, and
the others are followed along it.
-/

namespace FrameEngine

/-- What a callback tells of that came off the stream: a message, or an error of the framing. -/
def Callback.heard? : Callback → Option (Except EngineError Message)
  | .message m => some (.ok m)
  | .error e => if e.errorClass = .protocol then some (.error e) else none
  | _ => none

def Moment.heard? (m : Moment) : Option (Except EngineError Message) :=
  match m.what with
  | .called callback _ => callback.heard?
  | _ => none

/-- A direct receive that waits for octets of the stream, or for the token to ask for them. -/
def DirectCall.asksStream : DirectCall → Bool
  | .paused _ _ | .reading _ => true
  | _ => false

theorem Accumulator.consume_of_le {buf : Octets} {n : Nat} (h : n ≤ buf.length) :
    Accumulator.consume ⟨buf⟩ n = .ok ⟨buf.drop n⟩ := if_neg (Nat.not_lt.2 h)

namespace Framing

/-- The longest frame is no shorter than a header, up to the length that it tells. -/
def HoldsHeader (f : Framing) : Prop := f.lengthPlace + 4 ≤ f.maxFrameLength

theorem holdsHeader_of_limit {f : Framing} (hmax : 64 ≤ f.maxMessageSize) : f.HoldsHeader := by
  have hsize : 64 ≤ sizeLimit := by decide
  cases f <;>
    simp only [HoldsHeader, lengthPlace, maxMessageSize, maxFrameLength, JsonText.prefixSize] at * <;>
    omega

/-- What waits for more octets is no longer than a frame. -/
theorem le_maxFrameLength_of_short {f : Framing} {buf : Octets} (hroom : f.HoldsHeader)
    (h : f.unpack buf = .error .short) : buf.length ≤ f.maxFrameLength := by
  rcases lt_of_short h with hlt | ⟨n, hn, hlt⟩
  · exact Nat.le_of_lt (Nat.lt_of_lt_of_le hlt hroom)
  · exact Nat.le_trans (Nat.le_of_lt hlt) (le_maxFrameLength hn)

end Framing

namespace Codec

/-- Where the decoder has nothing to give, the framing asks for more. -/
theorem unpack_of_decode_none {f : Framing} {buf : Octets} (h : decode f buf = (.ok none, buf)) :
    f.unpack buf = .error .short := by
  rcases f.delivers_or_waits_or_rejects buf with ⟨m, n, hu, _⟩ | hw | ⟨e, hu, _, hne, _⟩
  · rw [decode, hu] at h; cases h
  · exact hw
  · rw [decode, hu] at h
    by_cases hs : e.isShort = true
    · obtain ⟨error, discard⟩ := e
      cases error <;> first | exact absurd rfl hne | cases hs
    · simp [hs] at h

theorem ne_nil_of_decode {f : Framing} {buf next : Octets} {r : Except EngineError Message}
    (h : decode f buf = (r.map some, next)) : buf ≠ [] := by
  rintro rfl
  exact Nat.not_lt_zero _ (decode_shorter h (by cases r <;> nofun))

/-- What a result of the decoder says of the framing: a message, or an error that says what to
drop. -/
theorem unpack_of_decode {f : Framing} {buf next : Octets} {r : Except EngineError Message}
    (h : decode f buf = (r.map some, next)) :
    (∃ m n, r = .ok m ∧ f.unpack buf = .ok (m, n) ∧ n ≤ buf.length ∧ next = buf.drop n) ∨
      ∃ e, r = .error e.error ∧ f.unpack buf = .error e ∧ e.isShort = false ∧
        e.error.errorClass = .protocol ∧ next = buf.drop (e.discard.orAll.amount buf.length) := by
  rcases f.delivers_or_waits_or_rejects buf with ⟨m, n, hu, _, _, hn, _⟩ | hw | ⟨e, hu, hc, hne, hd⟩
  · left
    rw [decode, hu] at h
    obtain ⟨hr, rfl⟩ := Prod.mk.inj h
    cases r with
    | ok m' => cases hr; exact ⟨m, n, rfl, hu, hn, rfl⟩
    | error e => cases hr
  · rw [Framing.Waits.eq_1] at hw
    rw [decode, hw] at h
    cases r <;> cases h
  · right
    have hs : e.isShort = false := by
      obtain ⟨error, discard⟩ := e
      cases error <;> first | rfl | exact absurd rfl hne
    have horAll : e.discard.orAll = e.discard := by
      rcases hd with ⟨hd, _⟩ | ⟨d, hd, _⟩ <;> rw [hd] <;> rfl
    rw [decode, hu] at h
    simp only [hs, Bool.false_eq_true, if_false] at h
    obtain ⟨hr, rfl⟩ := Prod.mk.inj h
    cases r with
    | ok m => cases hr
    | error e' => cases hr; exact ⟨e, rfl, hu, hs, hc, by rw [horAll]⟩

end Codec

namespace Connection

variable {s : Setup}

/-! ## What the handler hears -/

/-- The messages and the errors of the framing that the handler has been told of, in order. -/
def heard (c : Connection) : List (Except EngineError Message) :=
  (c.since 0).filterMap Moment.heard?

theorem heard_congr {c c' : Connection} (h : c'.history = c.history) : c'.heard = c.heard := by
  rw [heard, heard, since_zero, since_zero, h]

theorem heard_note (c : Connection) (o : Occurrence) :
    (c.note o).heard = c.heard ++ (Moment.heard? ⟨c.now, o⟩).toList := by
  simp only [heard, since_zero, note, List.reverse_cons, List.filterMap_append]
  cases h : Moment.heard? ⟨c.now, o⟩ <;> simp [h]

theorem heard_of_effect {c c' : Connection} (h : Effect s c c') : c'.heard = c.heard := by
  cases h with
  | @note o remark =>
    have hnone : Moment.heard? ⟨c.now, o⟩ = none := by
      cases o <;> first | rfl | cases remark
    rw [heard_note, hnone]
    exact List.append_nil _
  | record _ => exact heard_congr rfl
  | queue packed pushed =>
    rw [heard_note]
    exact (List.append_nil _).trans (heard_congr rfl)
  | request loops => exact heard_congr rfl
  | beginClose live => exact heard_congr rfl
  | tellClose =>
    rw [told, heard_note]
    exact (List.append_nil _).trans (heard_congr rfl)
  | endClose => exact heard_congr rfl

theorem heard_of_effects {c c' : Connection} (h : Effects s c c') : c'.heard = c.heard := by
  induction h with
  | refl => rfl
  | tail _ last ih => rw [heard_of_effect last, ih]

theorem heard_told (c : Connection) (cb : Callback) :
    (c.told cb).heard = c.heard ++ (Moment.heard? ⟨c.now, .called cb c.stage⟩).toList := by
  rw [told, heard_note]
  exact congrArg (· ++ _) (heard_congr rfl)

theorem heard_report (c : Connection) (e : EngineError) :
    (c.report s e).heard = c.heard ++ if e.errorClass = .protocol then [.error e] else [] := by
  obtain ⟨c₀, hbefore, hafter⟩ := report_effects (s := s) c e
  rw [heard_of_effects hafter, heard_told, heard_of_effects hbefore]
  show c.heard ++ (if e.errorClass = .protocol then some (.error e) else none).toList = _
  split <;> rfl

theorem heard_deliver (c : Connection) (m : Message) :
    (c.deliver s m).heard = c.heard ++ [.ok m] := by
  obtain ⟨c₀, hbefore, h | ⟨text, h⟩⟩ := deliver_effects (s := s) c m
  · rw [h, heard_of_effects hbefore, heard_told]; rfl
  · rw [h, heard_report, heard_of_effects hbefore, heard_told]
    exact List.append_nil _

/-! ## Draining -/

theorem drain_of_closed {c : Connection} (b : Accumulator) (h : c.isClosed = true) :
    c.drain s b = (c, b) := by
  rw [drain, h, Bool.or_true, if_pos rfl]

theorem drain_of_short {c : Connection} {buf : Octets} (h : s.framing.unpack buf = .error .short) :
    c.drain s ⟨buf⟩ = (c, ⟨buf⟩) := by
  rw [drain]
  split
  · rfl
  · split
    · rename_i hu
      cases h.symm.trans hu
    · rename_i hu
      cases h.symm.trans hu
      rfl

/-- One round of a drain: the handler is given what has been decoded. -/
inductive Handed (s : Setup) (c : Connection) : Except EngineError Message → Connection → Prop where
  | message (m : Message) :
      Handed s c (.ok m) (((c.touch.record .messageReceived).record (.messageLatency 0)).deliver s m)
  | failure {e : EngineError} (text : String) (fields : List (String × String))
      (protocol : e.errorClass = .protocol) :
      Handed s c (.error e) ((c.log .debug text fields).report s e)

theorem Handed.heard {c c' : Connection} {r : Except EngineError Message} (h : Handed s c r c') :
    c'.heard = c.heard ++ [r] := by
  cases h with
  | message m => exact heard_deliver _ m
  | failure text fields protocol =>
    rw [heard_report, if_pos protocol, heard_of_effects (effects_log (s := s) c _ _ _)]

theorem Handed.stage {c c' : Connection} {r : Except EngineError Message} (h : Handed s c r c')
    (hopen : ∀ caller cb, (s.handler.react caller cb).KeepsOpen) : c'.stage = c.stage := by
  cases h with
  | message m => exact stage_deliver hopen _ m
  | failure text fields protocol => exact stage_report hopen _ _

/-- A result of the decoder is one round of a drain: the handler is given it and the drain goes on
behind it. -/
theorem drain_of_result {c : Connection} {buf next : Octets} {r : Except EngineError Message}
    (hlive : c.isClosed = false) (h : Codec.decode s.framing buf = (r.map some, next)) :
    ∃ c' : Connection, Handed s c r c' ∧ c.drain s ⟨buf⟩ = c'.drain s ⟨next⟩ := by
  have hne : ¬ (Accumulator.isEmpty ⟨buf⟩ || c.isClosed) = true := by
    simp [hlive, Accumulator.isEmpty, Codec.ne_nil_of_decode h]
  rcases Codec.unpack_of_decode h with ⟨m, n, rfl, hu, hn, rfl⟩ | ⟨e, rfl, hu, hs, hp, rfl⟩
  · refine ⟨_, .message m, ?_⟩
    have hc := Accumulator.consume_of_le hn
    rw [drain, if_neg hne]
    split
    · rename_i hu'
      cases hu.symm.trans hu'
      split
      · rename_i hc'
        cases hc.symm.trans hc'
      · rename_i hc'
        cases hc.symm.trans hc'
        rfl
    · rename_i hu'
      cases hu.symm.trans hu'
  · refine ⟨_, .failure "Discarded bytes" [idField s,
      ("dropped", toString (Accumulator.discard ⟨buf⟩ e.discard.orAll).1),
      ("error", e.error.message)] hp, ?_⟩
    rw [drain, if_neg hne]
    split
    · rename_i hu'
      cases hu.symm.trans hu'
    · rename_i hu'
      cases hu.symm.trans hu'
      split
      · rename_i hs'
        cases hs.symm.trans hs'
      · rfl

/-- Along the run of the decoder, as long as no callback closes the connection. -/
theorem drain_of_decodes {buf left : Octets} {results : List (Except EngineError Message)}
    (h : Codec.Decodes s.framing buf results left) :
    ∀ c : Connection, (c.drain s ⟨buf⟩).1.isClosed = false →
      (c.drain s ⟨buf⟩).1.heard = c.heard ++ results ∧ (c.drain s ⟨buf⟩).2 = ⟨left⟩ := by
  induction h with
  | stop h =>
    intro c _
    rw [drain_of_short (Codec.unpack_of_decode_none h)]
    exact ⟨(List.append_nil _).symm, rfl⟩
  | @step buf next left r results h _ _ ih =>
    intro c hopen
    have hlive : c.isClosed = false := by
      cases hc : c.isClosed with
      | false => rfl
      | true => rw [drain_of_closed _ hc, hc] at hopen; exact hopen
    obtain ⟨c', hc', hd⟩ := drain_of_result hlive h
    rw [hd] at hopen ⊢
    obtain ⟨hh, hl⟩ := ih c' hopen
    exact ⟨by rw [hh, hc'.heard, List.append_assoc]; rfl, hl⟩

/-- A drain under a handler that does not close the connection leaves it open. -/
theorem drain_keeps_open (hopen : ∀ caller cb, (s.handler.react caller cb).KeepsOpen)
    {c : Connection} (hlive : c.isClosed = false) (buf : Octets) :
    (c.drain s ⟨buf⟩).1.isClosed = false := by
  have hrun := Codec.decodes_drain s.framing buf
  generalize (Codec.drain s.framing buf).1 = results at hrun
  generalize (Codec.drain s.framing buf).2 = left at hrun
  induction hrun generalizing c with
  | stop h => rwa [drain_of_short (Codec.unpack_of_decode_none h)]
  | step h _ _ ih =>
    obtain ⟨c', hc', hd⟩ := drain_of_result hlive h
    have hlive' : c'.isClosed = false := by rw [isClosed, hc'.stage hopen, ← isClosed, hlive]
    rw [hd]
    exact ih hlive'

/-! ## Direct receives -/

/-- So many octets have been read ahead for direct receives, and nobody else reads. -/
structure ReadAhead (c : Connection) (buf : Octets) : Prop where
  pending : c.pending = ⟨buf⟩
  unlocked : c.readLock = .free
  kept : c.readHalf = .kept

theorem receivePending_of_short {c : Connection}
    (hle : c.pending.length ≤ s.framing.maxFrameLength)
    (h : s.framing.unpack c.pending.held = .error .short) : c.receivePending s = (c, none) := by
  rw [receivePending]
  split
  · rfl
  · simp only [h, UnpackFailure.isShort_short, if_true, if_neg (Nat.not_lt.2 hle)]

/-- More than one frame can be is dropped. -/
theorem receivePending_of_long {c : Connection}
    (hlt : s.framing.maxFrameLength < c.pending.length)
    (h : s.framing.unpack c.pending.held = .error .short) :
    c.receivePending s = ({ c with pending := .empty }.record .bufferOverflow,
      some (.error (.bufferOverflow c.pending.length s.framing.maxFrameLength))) := by
  have hne : ¬ c.pending.isEmpty = true := by
    intro hempty
    rw [Accumulator.isEmpty, List.isEmpty_iff] at hempty
    simp [Accumulator.length, hempty] at hlt
  rw [receivePending, if_neg hne]
  simp only [h, UnpackFailure.isShort_short, if_true, if_pos hlt]

/-- A receive has taken off what has been read ahead, and so many octets are left of it. -/
inductive Drawn (c : Connection) (next : Octets) :
    Except EngineError Message → Connection → Prop where
  | message (m : Message) :
      Drawn c next (.ok m) ({ c with pending := ⟨next⟩ }.touch.record .messageReceived)
  | failure (e : EngineError) :
      Drawn c next (.error e) (({ c with pending := ⟨next⟩ }.record .error).record .protocolError)

/-- A result of the decoder is the answer to a receive. -/
theorem receivePending_of_result {c : Connection} {next : Octets} {r : Except EngineError Message}
    (h : Codec.decode s.framing c.pending.held = (r.map some, next)) :
    ∃ c' : Connection, c.receivePending s = (c', some r) ∧ Drawn c next r c' := by
  have hne : ¬ c.pending.isEmpty = true := by
    simp [Accumulator.isEmpty, Codec.ne_nil_of_decode h]
  rw [receivePending, if_neg hne]
  rcases Codec.unpack_of_decode h with ⟨m, n, rfl, hu, hn, rfl⟩ | ⟨e, rfl, hu, hs, hp, rfl⟩
  · have hconsume : c.pending.consume n = .ok ⟨c.pending.held.drop n⟩ :=
      Accumulator.consume_of_le hn
    simp only [hu, hconsume]
    exact ⟨_, rfl, .message m⟩
  · simp only [hu, hs, Bool.false_eq_true, if_false]
    exact ⟨_, rfl, .failure e.error⟩

/-- A receive that finds the lock free looks at once at what has been read ahead. -/
theorem beginReceive_of_readAhead {c : Connection} {buf : Octets} (hc : ReadAhead c buf) :
    c.beginReceive s =
      receiveRound s
        { c with direct := c.direct ++ [.locking], readLock := ⟨[.direct c.direct.length]⟩ }
        c.direct.length (.ofPolicy s.settings.retry) := by
  rw [beginReceive, hc.unlocked]
  simp only [Lock.free, Lock.request, Lock.isHeldBy, List.nil_append, List.head?_cons, decide_true,
    if_true, takeReceive, hc.kept]

theorem set_last {α : Type} (l : List α) (a b : α) : (l ++ [a]).set l.length b = l ++ [b] := by
  simp

theorem receiveDirect_of_result {c : Connection} {buf next : Octets}
    {r : Except EngineError Message} (hc : ReadAhead c buf)
    (h : Codec.decode s.framing buf = (r.map some, next)) :
    ∃ c', c.step s .receiveDirect = some c' ∧ ReadAhead c' next ∧
      c'.direct = c.direct ++ [.answered (r.map some)] := by
  have hbuf : Codec.decode s.framing c.pending.held = (r.map some, next) := by rw [hc.pending, h]
  obtain ⟨c', hr, hdrawn⟩ := receivePending_of_result (s := s)
    (c := { c with direct := c.direct ++ [.locking], readLock := ⟨[.direct c.direct.length]⟩ }) hbuf
  obtain ⟨hp, hd, hl, hk⟩ : c'.pending = ⟨next⟩ ∧
      c'.direct = c.direct ++ [.locking] ∧ c'.readLock = ⟨[.direct c.direct.length]⟩ ∧
      c'.readHalf = c.readHalf := by
    cases hdrawn <;> exact ⟨rfl, rfl, rfl, rfl⟩
  refine ⟨c'.endReceive c.direct.length r, ?_, ⟨hp, ?_, hk.trans hc.kept⟩, ?_⟩
  · rw [step, beginReceive_of_readAhead hc, receiveRound, hr]
  · show c'.readLock.release = .free
    rw [hl]; rfl
  · show c'.direct.set _ _ = _
    rw [hd]; exact set_last ..

theorem receiveMore_eq (c : Connection) (ticket : Nat) (b : Backoff) :
    ∃ call limiter, c.receiveMore s ticket b = { c with limiter }.setDirect ticket call ∧
      call.asksStream = true := by
  obtain ⟨taken, limiter, h⟩ := tryAcquire_eq c
  rw [receiveMore, h]
  cases taken with
  | true => exact ⟨_, limiter, rfl, rfl⟩
  | false => exact ⟨_, limiter, rfl, rfl⟩

theorem receiveDirect_of_short {c : Connection} {buf : Octets}
    (hmax : 64 ≤ s.framing.maxMessageSize) (hc : ReadAhead c buf) (h : s.framing.unpack buf = .error .short) :
    ∃ c' call, c.step s .receiveDirect = some c' ∧ c'.pending = ⟨buf⟩ ∧
      c'.direct = c.direct ++ [call] ∧ call.asksStream = true := by
  have hle : c.pending.length ≤ s.framing.maxFrameLength := by
    rw [hc.pending]; exact Framing.le_maxFrameLength_of_short (Framing.holdsHeader_of_limit hmax) h
  have hbuf : s.framing.unpack c.pending.held = .error .short := by rw [hc.pending, h]
  have hr := receivePending_of_short (s := s)
    (c := { c with direct := c.direct ++ [.locking], readLock := ⟨[.direct c.direct.length]⟩ })
    hle hbuf
  obtain ⟨call, limiter, hm, hcall⟩ := receiveMore_eq (s := s)
    { c with direct := c.direct ++ [.locking], readLock := ⟨[.direct c.direct.length]⟩ }
    c.direct.length (.ofPolicy s.settings.retry)
  rw [step, beginReceive_of_readAhead hc, receiveRound, hr]
  exact ⟨_, call, congrArg some hm, hc.pending, set_last .., hcall⟩

/-- Along the run of the decoder, one receive for each result. -/
theorem receives_of_decodes {buf left : Octets} {results : List (Except EngineError Message)}
    (h : Codec.Decodes s.framing buf results left) :
    ∀ c : Connection, ReadAhead c buf →
      ∃ c', Steps s c (List.replicate results.length .receiveDirect) c' ∧ ReadAhead c' left ∧
        c'.direct = c.direct ++ results.map fun r => .answered (r.map some) := by
  induction h with
  | stop _ =>
    intro c hc
    exact ⟨c, .nil c, hc, (List.append_nil _).symm⟩
  | @step buf next left r results h _ _ ih =>
    intro c hc
    obtain ⟨c₁, hstep, hc₁, hd₁⟩ := receiveDirect_of_result hc h
    obtain ⟨c₂, hsteps, hc₂, hd₂⟩ := ih c₁ hc₁
    refine ⟨c₂, .cons hstep hsteps, hc₂, ?_⟩
    rw [hd₂, hd₁, List.append_assoc]
    rfl

/-! ## Agreement -/

theorem left_of_decodes {f : Framing} {buf left : Octets}
    {results : List (Except EngineError Message)} (h : Codec.Decodes f buf results left) :
    f.unpack left = .error .short ∧
      ∀ e, .error e ∈ results → e.errorClass = .protocol := by
  induction h with
  | stop h => exact ⟨Codec.unpack_of_decode_none h, nofun⟩
  | step h _ _ ih =>
    refine ⟨ih.1, fun e he => ?_⟩
    rcases List.mem_cons.1 he with he | he
    · rcases Codec.unpack_of_decode h with ⟨m, n, hm, _⟩ | ⟨e', hr, _, _, hp, _⟩
      · cases he.trans hm
      · cases he.trans hr
        exact hp
    · exact ih.2 e he

/-- Decoding, draining into the handler and receiving directly give the same messages and the same
errors of the framing, and leave the same octets. The receives come as far as the next octets of
the stream, and none of them loses octets for want of room. -/
theorem reception_agrees (hmax : 64 ≤ s.framing.maxMessageSize) (buf : Octets) (c : Connection) :
    ((c.drain s ⟨buf⟩).1.isClosed = false →
      (c.drain s ⟨buf⟩).1.heard = c.heard ++ (Codec.drain s.framing buf).1 ∧
        (c.drain s ⟨buf⟩).2 = ⟨(Codec.drain s.framing buf).2⟩) ∧
    (ReadAhead c buf →
      ∃ c' c'' call,
        Steps s c (List.replicate (Codec.drain s.framing buf).1.length .receiveDirect) c' ∧
        c'.direct = c.direct ++
          (Codec.drain s.framing buf).1.map (fun r => .answered (r.map some)) ∧
        c'.pending = ⟨(Codec.drain s.framing buf).2⟩ ∧
        c'.step s .receiveDirect = some c'' ∧ c''.direct = c'.direct ++ [call] ∧
        call.asksStream = true ∧ c''.pending = c'.pending) ∧
    ∀ size max, .error (.bufferOverflow size max) ∉ (Codec.drain s.framing buf).1 := by
  have hrun := Codec.decodes_drain s.framing buf
  obtain ⟨hshort, hclass⟩ := left_of_decodes hrun
  refine ⟨drain_of_decodes hrun c, fun hc => ?_, fun size max hm => ?_⟩
  · obtain ⟨c', hsteps, hc', hd⟩ := receives_of_decodes hrun c hc
    obtain ⟨c'', call, hstep, hp, hd', hcall⟩ := receiveDirect_of_short hmax hc' hshort
    exact ⟨c', c'', call, hsteps, hd, hc'.pending, hstep, hd', hcall, hp.trans hc'.pending.symm⟩
  · cases hclass _ hm

theorem keepsOpen_quiet (caller : Caller) (cb : Callback) :
    (Handler.quiet.react caller cb).KeepsOpen := by
  cases cb with
  | message m => exact .done
  | connect => exact .act nofun fun _ => .done
  | close => exact .act nofun fun _ => .done
  | error e => exact .act nofun fun _ => .done

/-- A frame with a wrong check, a message, and the beginning of another frame. -/
theorem reception_agrees_of_wrong_check :
    let s : Setup :=
      { id := 1, peer := none, localAddress := none, framing := .binary 64 64, settings := .standard,
        handler := .quiet, chance := fun _ delay => delay }
    let buf : Octets :=
      [1, 0, 0, 0, 2, 0, 0, 0, 3, 0, 0, 0, 1, 7, 0, 0, 0, 0, 0xCA, 0xFE,
        1, 0, 0, 0, 2, 0, 0, 0, 3, 0, 0, 0, 2, 0xCA, 0xFE, 111, 56, 79, 226, 0xCA, 0xFE, 1, 0]
    let c : Connection := { new s with pending := ⟨buf⟩ }
    let found := [.error (.checksum 0 0x49AA9EC0), .ok (.binary ⟨1, 2, 3, [0xCA, 0xFE]⟩)]
    64 ≤ s.framing.maxMessageSize ∧ (c.drain s ⟨buf⟩).1.isClosed = false ∧ ReadAhead c buf ∧
      Codec.drain s.framing buf = (found, [1, 0]) ∧
      (c.drain s ⟨buf⟩).1.heard = found ∧
      ∃ c' c'', Steps s c [.receiveDirect, .receiveDirect] c' ∧
        c'.direct = found.map (fun r => .answered (r.map some)) ∧ c'.pending = ⟨[1, 0]⟩ ∧
        c'.step s .receiveDirect = some c'' ∧ c''.pending = ⟨[1, 0]⟩ := by
  intro s buf c found
  have hwrong : Framing.Binary.unpack 64 64 buf = .error ⟨.checksum 0 0x49AA9EC0, .bytes 20⟩ := by
    decide +kernel
  have hright : Framing.Binary.unpack 64 64 (buf.drop 20) = .ok (⟨1, 2, 3, [0xCA, 0xFE]⟩, 21) := by
    decide +kernel
  have hrest : Framing.Binary.unpack 64 64 (buf.drop 41) = .error .short := by decide +kernel
  have hfound : Codec.drain s.framing buf = (found, [1, 0]) := by
    have h1 : Codec.decode s.framing buf =
        (Except.map some (.error (.checksum 0 0x49AA9EC0)), buf.drop 20) := by
      rw [Codec.decode, Framing.unpack, hwrong]; rfl
    have h2 : Codec.decode s.framing (buf.drop 20) =
        (Except.map some (.ok (.binary ⟨1, 2, 3, [0xCA, 0xFE]⟩)), buf.drop 41) := by
      rw [Codec.decode, Framing.unpack, hright]; rfl
    have h3 : Codec.decode s.framing (buf.drop 41) = (.ok none, [1, 0]) := by
      rw [Codec.decode, Framing.unpack, hrest]; rfl
    rw [Codec.drain_of_result h1, Codec.drain_of_result h2, Codec.drain_of_none h3]
  have hmax : 64 ≤ s.framing.maxMessageSize := Nat.le_refl _
  have hopen := drain_keeps_open (s := s) keepsOpen_quiet (c := c) rfl buf
  have hc : ReadAhead c buf := ⟨rfl, rfl, rfl⟩
  obtain ⟨hdrain, hdirect, _⟩ := reception_agrees hmax buf c
  obtain ⟨c', c'', _, hsteps, hd, hp, hstep, _, _, hp'⟩ := hdirect hc
  have hheard := (hdrain hopen).1
  rw [hfound] at hsteps hd hp hheard
  exact ⟨hmax, hopen, hc, hfound, hheard, c', c'', hsteps, hd, hp, hstep, hp'.trans hp⟩

end Connection
end FrameEngine
