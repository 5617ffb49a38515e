import FrameEngine.Proofs.Connection.Steps
import FrameEngine.Proofs.Connection.Tasks

/-!
# FrameEngine.Proofs.Connection.Quiet

What the rest of a connection does to its writing side: nothing but put frames in the queue, close
it, or drop it (`Quiet`). Reading, watching for silence, closing and callbacks are all quiet, so a
property of the writing side has to be proved for the steps of writers alone.

`step_cases` says it of a step: it is quiet, or it begins a run, or it drives the write loop, or it
belongs to a direct send.
-/

namespace FrameEngine

/-- A count that has nothing to do with writing. -/
def Tally.isReading : Tally → Bool
  | .messageSent _ => false
  | _ => true

/-- The frame of a moment in which the queue took one. -/
def Moment.frame? (m : Moment) : Option Octets :=
  match m.what with
  | .queued frame => some frame
  | _ => none

theorem Lock.eq_free {l : Lock} (h : l.isFree = true) : l = .free := by
  cases l with
  | mk line => cases line with
    | nil => rfl
    | cons o rest => cases h

namespace Connection

/-- The frames that the queue has taken, in order. -/
def accepted (c : Connection) : List Octets := (c.since 0).filterMap Moment.frame?

/-- The writing side of a connection. -/
structure Outlet where
  writer : WriteLoop
  started : Bool
  lock : Lock
  half : Keeping
  direct : List DirectCall
  queue : SendQueue
  history : List Moment
  messages : UInt64
  bytes : UInt64

def outlet (c : Connection) : Outlet :=
  ⟨c.writer, c.started, c.writeLock, c.writeHalf, c.direct, c.queue, c.history,
    c.metrics.messagesSent, c.metrics.bytesSent⟩

/-- Nothing has been written and no writer has moved. The queue may have taken frames, and may have
lost its consumer; the write half may have been dropped, if no writer was at it. -/
structure Quiet (s : Setup) (c c' : Connection) : Prop where
  writer : c'.writer = c.writer
  started : c'.started = c.started
  lock : c'.writeLock = c.writeLock
  half : c'.writeHalf = c.writeHalf ∨ c'.writeHalf = .gone ∧ c.writeLock = .free
  sending : ∀ (ticket : Nat) (job : WriteJob),
    c'.direct[ticket]? = some (.sending job) ↔ c.direct[ticket]? = some (.sending job)
  written : c'.written = c.written
  messages : c'.metrics.messagesSent = c.metrics.messagesSent
  bytes : c'.metrics.bytesSent = c.metrics.bytesSent
  accepts : ∃ more, c'.accepted = c.accepted ++ more ∧
    (∀ frame ∈ more, ∃ m, s.framing.pack m = .ok frame) ∧
    (c'.queue.hasConsumer = true →
      c.queue.hasConsumer = true ∧ c'.queue.waiting = c.queue.waiting ++ more)

variable {s : Setup} {c c' c'' : Connection}

theorem accepted_congr (h : c'.history = c.history) : c'.accepted = c.accepted := by
  simp only [accepted, since_zero, h]

theorem written_congr (h : c'.history = c.history) : c'.written = c.written := by
  simp only [written, since_zero, h]

theorem written_note (c : Connection) (o : Occurrence) :
    (c.note o).written = c.written ++ Moment.written ⟨c.now, o⟩ := by
  simp only [written, since_zero, note, List.reverse_cons, List.flatMap_append, List.flatMap_cons,
    List.flatMap_nil, List.append_nil]

theorem accepted_note (c : Connection) (o : Occurrence) :
    (c.note o).accepted = c.accepted ++ (Moment.frame? ⟨c.now, o⟩).toList := by
  simp only [accepted, since_zero, note, List.reverse_cons, List.filterMap_append]
  cases h : Moment.frame? ⟨c.now, o⟩ <;> simp [h]

namespace Quiet

theorem of_outlet (h : c'.outlet = c.outlet) : Quiet s c c' := by
  obtain ⟨hw, hs, hl, hh, hd, hq, hhist, hm, hb⟩ := Outlet.mk.inj h
  refine ⟨hw, hs, hl, .inl hh, fun _ _ => by rw [hd], written_congr hhist, hm, hb, [], ?_,
    nofun, ?_⟩
  · rw [accepted_congr hhist, List.append_nil]
  · intro hc
    rw [hq] at hc ⊢
    exact ⟨hc, (List.append_nil _).symm⟩

theorem refl (c : Connection) : Quiet s c c := of_outlet rfl

theorem trans (h : Quiet s c c') (h' : Quiet s c' c'') : Quiet s c c'' := by
  obtain ⟨more, ha, hp, hq⟩ := h.accepts
  obtain ⟨more', ha', hp', hq'⟩ := h'.accepts
  refine ⟨h'.writer.trans h.writer, h'.started.trans h.started, h'.lock.trans h.lock, ?_,
    fun ticket job => (h'.sending ticket job).trans (h.sending ticket job),
    h'.written.trans h.written, h'.messages.trans h.messages, h'.bytes.trans h.bytes,
    more ++ more', ?_, ?_, ?_⟩
  · rcases h'.half with hh | hh
    · rw [hh]; exact h.half
    · exact .inr ⟨hh.1, h.lock.symm.trans hh.2⟩
  · rw [ha', ha, List.append_assoc]
  · intro frame hf
    rcases List.mem_append.1 hf with hf | hf
    · exact hp frame hf
    · exact hp' frame hf
  · intro hc
    obtain ⟨hc', hw'⟩ := hq' hc
    obtain ⟨hc, hw⟩ := hq hc'
    exact ⟨hc, by rw [hw', hw, List.append_assoc]⟩

/-- An occurrence in which no frame is taken and none is written. -/
theorem note (c : Connection) {o : Occurrence} (hw : Moment.written ⟨c.now, o⟩ = [])
    (hf : Moment.frame? ⟨c.now, o⟩ = none) : Quiet s c (c.note o) := by
  refine ⟨rfl, rfl, rfl, .inl rfl, fun _ _ => .rfl, ?_, rfl, rfl, [], ?_, nofun,
    fun hc => ⟨hc, (List.append_nil _).symm⟩⟩
  · rw [written_note, hw, List.append_nil]
  · rw [accepted_note, hf]; rfl

theorem record (c : Connection) {t : Tally} (h : t.isReading = true) : Quiet s c (c.record t) := by
  apply of_outlet
  cases t with
  | messageSent bytes => cases h
  | connectionClosed =>
    simp only [outlet, Connection.record, Metrics.record]
    split <;> rfl
  | _ => rfl

/-- A frame joins the queue. -/
theorem push {frame : Octets} {m : Message} {queue : SendQueue}
    (packed : s.framing.pack m = .ok frame) (pushed : c.queue.push frame = .ok queue) :
    Quiet s c ({ c with queue }.note (.queued frame)) := by
  obtain ⟨hc, hw⟩ : queue.hasConsumer = c.queue.hasConsumer ∧
      queue.waiting = c.queue.waiting ++ [frame] := by
    unfold SendQueue.push at pushed
    split at pushed
    · split at pushed
      · cases pushed; exact ⟨rfl, rfl⟩
      · cases pushed
    · cases pushed
  refine ⟨rfl, rfl, rfl, .inl rfl, fun _ _ => .rfl, ?_, rfl, rfl, [frame], ?_, ?_,
    fun h => ⟨?_, hw⟩⟩
  · rw [written_note]; exact List.append_nil _
  · rw [accepted_note]; rfl
  · intro f hf
    cases List.mem_singleton.1 hf
    exact ⟨m, packed⟩
  · exact hc.symm.trans h

theorem dropParts (c : Connection) : Quiet s c c.dropParts := by
  refine ⟨rfl, rfl, rfl, ?_, fun _ _ => .rfl, rfl, rfl, rfl, [], (List.append_nil _).symm, nofun,
    ?_⟩
  · simp only [Connection.dropParts]
    split
    · have hlock : c.writeLock = .free := Lock.eq_free ‹_›
      cases c.writeHalf <;> simp [Keeping.dropKept, hlock]
    · exact .inl rfl
  · simp only [Connection.dropParts]
    split
    · nofun
    · exact fun hc => ⟨hc, (List.append_nil _).symm⟩

theorem told (c : Connection) (cb : Callback) : Quiet s c (c.told cb) := by
  have hcalls : Quiet s c { c with calls := c.calls + 1 } := of_outlet rfl
  exact hcalls.trans (note _ (o := .called cb c.stage) rfl rfl)

theorem of_effect (h : Effect s c c') : Quiet s c c' := by
  cases h with
  | @note o remark =>
    cases o with
    | sent m result => exact note c rfl rfl
    | logged line => exact note c rfl rfl
    | returned => exact note c rfl rfl
    | called callback stage => cases remark
    | queued frame => cases remark
    | wrote data => cases remark
  | @record t fault =>
    have hreading : t.isReading = true := by cases t <;> first | rfl | cases fault
    exact record c hreading
  | queue packed pushed => exact push packed pushed
  | request loops => exact of_outlet rfl
  | beginClose live =>
    have hclose : Quiet s c { c with stage := .closing, queue := c.queue.close } :=
      ⟨rfl, rfl, rfl, .inl rfl, fun _ _ => .rfl, rfl, rfl, rfl, [], (List.append_nil _).symm, nofun,
        fun hc => ⟨hc, (List.append_nil _).symm⟩⟩
    exact hclose.trans (dropParts _)
  | tellClose => exact told c .close
  | endClose => exact of_outlet rfl

theorem of_effects (h : Effects s c c') : Quiet s c c' := by
  induction h with
  | refl => exact refl c
  | tail _ last ih => exact ih.trans (of_effect last)

theorem log (c : Connection) (level : LogLevel) (text : String) (fields : List (String × String)) :
    Quiet s c (c.log level text fields) :=
  note c rfl rfl

end Quiet

/-! ## Callbacks -/

theorem quiet_close (c : Connection) : Quiet s c (c.close s) := .of_effects (close_effects c)

theorem quiet_call (c : Connection) (cb : Callback) : Quiet s c (c.call s cb).1 :=
  (Quiet.told c cb).trans (.of_effects (call_effects c cb))

theorem quiet_report (c : Connection) (e : EngineError) : Quiet s c (c.report s e) := by
  obtain ⟨c₀, hbefore, hafter⟩ := report_effects (s := s) c e
  exact (Quiet.of_effects hbefore).trans ((Quiet.told c₀ _).trans (.of_effects hafter))

theorem quiet_deliver (c : Connection) (m : Message) : Quiet s c (c.deliver s m) := by
  obtain ⟨c₀, hbefore, h | ⟨text, h⟩⟩ := deliver_effects (s := s) c m
  · rw [h]; exact (Quiet.told c _).trans (.of_effects hbefore)
  · rw [h]; exact ((Quiet.told c _).trans (.of_effects hbefore)).trans (quiet_report c₀ _)

theorem quiet_reportExit (c : Connection) (e : EngineError) : Quiet s c (c.reportExit s e) := by
  unfold reportExit
  split
  · exact .refl c
  · split
    · split
      · exact .refl c
      · have hsilenced : Quiet s c { c with silenced := true } := .of_outlet rfl
        have hrecord := hsilenced.trans (.record _ (t := .idleTimeout) rfl)
        exact (hrecord.trans (.log _ _ _ _)).trans (quiet_report _ e)
    · exact quiet_report c e

theorem quiet_retryAfter (c : Connection) (f : IoFailure) (b : Backoff) :
    Quiet s c (c.retryAfter s f b).1 := by
  unfold retryAfter
  split
  · exact .refl c
  · have hdraws : Quiet s c { c with draws := c.draws + 1 } := .of_outlet rfl
    have hrecord := hdraws.trans (.record _ (t := .retry) rfl)
    exact (hrecord.trans (.log _ _ _ _)).trans (quiet_report _ _)

/-! ## Reading and watching -/

theorem quiet_drain (c : Connection) (b : Accumulator) : Quiet s c (c.drain s b).1 := by
  fun_induction drain s c b with
  | case1 c b _ => exact .refl c
  | case2 c b _ m n _ e _ => exact quiet_report c e
  | case3 c b _ m n _ rest _ _ c' ih =>
    have htouch : Quiet s c c.touch := .of_outlet rfl
    have hrecord := (htouch.trans (.record _ (t := .messageReceived) rfl)).trans
      (.record _ (t := .messageLatency 0) rfl)
    exact (hrecord.trans (quiet_deliver _ m)).trans ih
  | case4 c b _ failure _ _ => exact .refl c
  | case5 c b _ failure _ _ _ dropped c' ih =>
    exact ((Quiet.log _ _ _ _).trans (quiet_report _ _)).trans ih

theorem quiet_boundBuffer (c : Connection) (b : Accumulator) : Quiet s c (c.boundBuffer s b).1 := by
  unfold boundBuffer
  split
  · exact (Quiet.record c (t := .bufferOverflow) rfl).trans (quiet_report _ _)
  · exact .refl c

theorem quiet_stepRead {job : ReadJob} {w : Wake} {p : ReadProgress}
    (h : c.stepRead s job w = some (c', p)) : Quiet s c c' := by
  cases readStep_of h with
  | gets point fits fed =>
    have htouch : Quiet s c c.touch := .of_outlet rfl
    exact htouch.trans (.record _ rfl)
  | retries point passes granted => exact quiet_retryAfter c _ _
  | _ => exact .refl c

theorem quiet_exitReader (c : Connection) : Quiet s c (c.exitReader s) := by
  have hgone : Quiet s c { c with readHalf := .gone } := .of_outlet rfl
  exact (hgone.trans (quiet_close _)).trans (.of_outlet rfl)

theorem quiet_readerRound (c : Connection) (buffer : Accumulator) (b : Backoff) :
    Quiet s c (c.readerRound s buffer b) := by
  unfold readerRound
  split
  · exact quiet_exitReader c
  · obtain ⟨taken, limiter, h⟩ := tryAcquire_eq c
    rw [h]
    cases taken <;> exact .of_outlet rfl

theorem quiet_takeReadHalf (c : Connection) : Quiet s c (c.takeReadHalf s) := by
  unfold takeReadHalf
  dsimp only
  split
  · have htaken : Quiet s c { c with readLock := c.readLock.release, readHalf := .taken } :=
      .of_outlet rfl
    exact htaken.trans (quiet_readerRound _ _ _)
  · have hrelease : Quiet s c { c with readLock := c.readLock.release } := .of_outlet rfl
    exact (hrelease.trans (quiet_close _)).trans (.of_outlet rfl)

theorem quiet_stepReader {w : Wake} (h : c.stepReader s w = some c') : Quiet s c c' := by
  cases readerStep_of h with
  | begins fresh held =>
    have hrequest : Quiet s c { c with readLock := c.readLock.request .loop } := .of_outlet rfl
    exact hrequest.trans (quiet_takeReadHalf _)
  | queues fresh => exact .of_outlet rfl
  | enters locking held => exact quiet_takeReadHalf c
  | stops paused closed => exact quiet_exitReader c
  | resumes paused due => exact quiet_readerRound c _ _
  | goes reading read => exact (quiet_stepRead read).trans (.of_outlet rfl)
  | fails reading read =>
    exact ((quiet_stepRead read).trans (quiet_reportExit _ _)).trans (quiet_exitReader _)
  | hears reading read =>
    exact (((quiet_stepRead read).trans (quiet_drain _ _)).trans (quiet_boundBuffer _ _)).trans
      (quiet_readerRound _ _ _)

theorem quiet_stepIdler {w : Wake} (h : c.stepIdler s w = some c') : Quiet s c c' := by
  cases idlerStep_of h with
  | begins fresh => exact .of_outlet rfl
  | stops ticking closed => exact (quiet_close c).trans (.of_outlet rfl)
  | expires ticking now silent =>
    exact ((quiet_reportExit c _).trans (quiet_close _)).trans (.of_outlet rfl)
  | looks ticking now active => exact .of_outlet rfl

theorem quiet_stepRunner {w : Wake} (h : c.stepRunner s w = some c') : Quiet s c c' := by
  obtain ⟨-, -, -, c₁, hlogged, rfl⟩ := runnerStep_of h
  have hlog : Quiet s c c₁ := by
    rcases hlogged with rfl | rfl
    · exact .refl c₁
    · exact .log c _ _ _
  have hrunner : Quiet s (c₁.close s) { c₁.close s with runner := .finished } := .of_outlet rfl
  exact ((hlog.trans (quiet_close _)).trans hrunner).trans (.note _ rfl rfl)

/-! ## Direct receives -/

/-- No direct send has this number. -/
def NotSending (c : Connection) (ticket : Nat) : Prop :=
  ∀ job, c.direct[ticket]? ≠ some (.sending job)

theorem Quiet.notSending {ticket : Nat} (h : Quiet s c c') (hc : NotSending c ticket) :
    NotSending c' ticket :=
  fun job hj => hc job ((h.sending ticket job).1 hj)

theorem quiet_setDirect {ticket : Nat} {d : DirectCall} (hc : NotSending c ticket)
    (hd : ∀ job, d ≠ .sending job) : Quiet s c (c.setDirect ticket d) := by
  have hsame : Quiet s c c := .refl c
  refine ⟨hsame.writer, hsame.started, hsame.lock, hsame.half, fun t job => ?_, hsame.written,
    hsame.messages, hsame.bytes, hsame.accepts⟩
  by_cases ht : ticket = t
  · subst ht
    constructor
    · intro h
      simp only [setDirect, List.getElem?_set_self'] at h
      obtain ⟨_, _, hj⟩ := Option.map_eq_some_iff.1 h
      exact absurd hj (hd job)
    · intro h
      exact absurd h (hc job)
  · simp only [setDirect, List.getElem?_set_ne ht]

theorem quiet_endReceive {ticket : Nat} (hc : NotSending c ticket)
    (result : Except EngineError Message) : Quiet s c (c.endReceive ticket result) := by
  have hrelease : Quiet s c { c with readLock := c.readLock.release } := .of_outlet rfl
  exact hrelease.trans (quiet_setDirect hc nofun)

theorem quiet_receivePending (c : Connection) : Quiet s c (c.receivePending s).1 := by
  unfold receivePending
  split
  · exact .refl c
  · split
    · split
      · exact .refl c
      · rename_i pending _
        have hpending : Quiet s c { c with pending }.touch := .of_outlet rfl
        exact hpending.trans (.record _ rfl)
    · split
      · dsimp only
        split
        · have hpending : Quiet s c { c with pending := .empty } := .of_outlet rfl
          exact hpending.trans (.record _ rfl)
        · exact .refl c
      · rename_i failure _ _
        have hpending : Quiet s c
            { c with pending := (c.pending.discard failure.discard.orAll).2 } := .of_outlet rfl
        exact (hpending.trans (.record _ (t := .error) rfl)).trans (.record _ rfl)

theorem quiet_receiveMore {ticket : Nat} (hc : NotSending c ticket) (b : Backoff) :
    Quiet s c (c.receiveMore s ticket b) := by
  obtain ⟨taken, limiter, h⟩ := tryAcquire_eq c
  have hlimiter : Quiet s c { c with limiter } := .of_outlet rfl
  rw [receiveMore, h]
  cases taken with
  | true => exact hlimiter.trans (quiet_setDirect hc nofun)
  | false => exact hlimiter.trans (quiet_setDirect hc nofun)

theorem quiet_receiveRound {ticket : Nat} (hc : NotSending c ticket) (b : Backoff) :
    Quiet s c (c.receiveRound s ticket b) := by
  have hpending := quiet_receivePending (s := s) c
  unfold receiveRound
  split <;> rename_i h <;> rw [h] at hpending
  · exact hpending.trans (quiet_endReceive (hpending.notSending hc) _)
  · exact hpending.trans (quiet_receiveMore (hpending.notSending hc) b)

theorem quiet_takeReceive {ticket : Nat} (hc : NotSending c ticket) :
    Quiet s c (c.takeReceive s ticket) := by
  unfold takeReceive
  split
  · exact quiet_receiveRound hc _
  · exact quiet_endReceive hc _

theorem quiet_beginReceive (c : Connection) : Quiet s c (c.beginReceive s) := by
  have hsame : Quiet s c c := .refl c
  have hbegin : Quiet s c { c with
      direct := c.direct ++ [DirectCall.locking]
      readLock := c.readLock.request (.direct c.direct.length) } := by
    refine ⟨hsame.writer, hsame.started, hsame.lock, hsame.half, fun t job => ?_, hsame.written,
      hsame.messages, hsame.bytes, hsame.accepts⟩
    show (c.direct ++ [DirectCall.locking])[t]? = _ ↔ _
    rw [List.getElem?_append]
    split
    · exact .rfl
    · rename_i ht
      rw [List.getElem?_eq_none (Nat.le_of_not_lt ht)]
      cases hlast : t - c.direct.length <;> simp
  have hlast : NotSending c c.direct.length := by
    intro job hj
    rw [List.getElem?_eq_none (Nat.le_refl _)] at hj
    cases hj
  unfold beginReceive
  dsimp only
  split
  · exact hbegin.trans (quiet_takeReceive (hbegin.notSending hlast))
  · exact hbegin

theorem quiet_failReceive {ticket : Nat} (hc : NotSending c ticket) (e : EngineError) :
    Quiet s c (c.failReceive s ticket e) := by
  have hgone : Quiet s c { c with readHalf := .gone } := .of_outlet rfl
  have hend := hgone.trans (quiet_endReceive (hgone.notSending hc) (.error e))
  unfold failReceive
  dsimp only
  split
  · exact hend.trans (quiet_close _)
  · exact (hend.trans (.record _ rfl)).trans (quiet_close _)

theorem quiet_stepDirect {ticket : Nat} {w : Wake} (hc : NotSending c ticket)
    (h : c.stepDirect s ticket w = some c') : Quiet s c c' := by
  cases directStep_of h with
  | sends sending write => exact absurd sending (hc _)
  | enters locking held => exact quiet_takeReceive hc
  | stops paused closed => exact quiet_endReceive hc _
  | resumes paused due => exact quiet_receiveMore hc _
  | goes reading read =>
    have hread := quiet_stepRead read
    exact hread.trans (quiet_setDirect (hread.notSending hc) nofun)
  | fails reading read =>
    have hread := quiet_stepRead read
    exact hread.trans (quiet_failReceive (hread.notSending hc) _)
  | @hears _ job c₁ d b reading read =>
    have hpending : Quiet s c₁ { c₁ with pending := c₁.pending.append d } := .of_outlet rfl
    have hround := (quiet_stepRead read).trans hpending
    exact hround.trans (quiet_receiveRound (hround.notSending hc) b)

/-! ## Steps -/

/-- A run that begins tells the handler and sets the loops up. -/
theorem start_cases (c : Connection) (loops : LoopSet) :
    Quiet s c (c.start s loops) ∨
      c.started = false ∧ ∃ c₁, Quiet s { c with started := true } c₁ ∧
        (c.start s loops).outlet = { c₁.outlet with writer := .fresh } := by
  unfold start
  split
  · exact .inl ((Quiet.log c _ _ _).trans (.note _ rfl rfl))
  · rename_i hfresh
    right
    have hfresh' : c.isClosed = false ∧ c.started = false := by simpa using hfresh
    refine ⟨hfresh'.2, ?_⟩
    dsimp only
    have hcall := quiet_call (s := s) { c with started := true }.touch .connect
    have htouch : Quiet s { c with started := true } { c with started := true }.touch :=
      .of_outlet rfl
    generalize call s { c with started := true }.touch .connect = r at hcall ⊢
    obtain ⟨c₁, panic⟩ := r
    cases panic with
    | none => exact ⟨c₁, htouch.trans hcall, rfl⟩
    | some panic => exact ⟨c₁.report s panic, (htouch.trans hcall).trans (quiet_report _ _), rfl⟩

end Connection

/-- The frame that a caller brings along, if it does, is one that a message was packed in. -/
def Label.Packed (s : Setup) : Label → Prop
  | .sendFrame frame | .sendDirect frame => ∃ m, s.framing.pack m = .ok frame
  | _ => True

namespace Connection

variable {s : Setup} {c c' : Connection}

/-- What a step is to the writing side. -/
inductive Turn (s : Setup) (c : Connection) : Label → Connection → Prop where
  | quiet {l : Label} {c' : Connection} (rest : Quiet s c c') : Turn s c l c'
  /-- A run begins. -/
  | begins {l : Label} {c₁ c' : Connection} (fresh : c.started = false)
      (told : Quiet s { c with started := true } c₁)
      (looped : c'.outlet = { c₁.outlet with writer := .fresh }) : Turn s c l c'
  /-- The write loop goes on. -/
  | loops {w : Wake} {c' : Connection} (went : c.stepWriter s w = some c') :
      Turn s c (.wake .writer w) c'
  /-- A direct send begins. -/
  | sends (frame : Octets) : Turn s c (.sendDirect frame) (c.beginSend s frame)
  /-- A direct send goes on. -/
  | drives {ticket : Nat} {job : WriteJob} {w : Wake} {c₁ : Connection} {p : WriteProgress}
      (sending : c.direct[ticket]? = some (.sending job))
      (went : c.stepWrite s (.direct ticket) job w = some (c₁, p)) :
      Turn s c (.wake (.direct ticket) w) (c₁.afterSend ticket p)

theorem step_cases {l : Label} (h : c.step s l = some c') (hl : l.Packed s) : Turn s c l c' := by
  cases step_of h with
  | ticks timers wall => exact .quiet (.of_outlet rfl)
  | starts loops =>
    rcases start_cases (s := s) c loops with h | ⟨hfresh, c₁, htold, hlooped⟩
    · exact .quiet h
    · exact .begins hfresh htold hlooped
  | @obeys loops requested asked =>
    have hrequested : Quiet s c { c with requested } := .of_outlet rfl
    rcases start_cases (s := s) { c with requested } loops with h | ⟨hfresh, c₁, htold, hlooped⟩
    · exact .quiet (hrequested.trans h)
    · have hstarted : Quiet s { c with started := true } { c with requested, started := true } :=
        .of_outlet rfl
      exact .begins hfresh (hstarted.trans htold) hlooped
  | closes => exact .quiet (quiet_close c)
  | sends live packed pushed => exact .quiet (.push packed pushed)
  | queues live pushed =>
    obtain ⟨m, packed⟩ := hl
    exact .quiet (.push packed pushed)
  | refuses | rejects => exact .quiet (.refl c)
  | sendsDirect frame => exact .sends frame
  | receives => exact .quiet (quiet_beginReceive c)
  | reader went => exact .quiet (quiet_stepReader went)
  | writer went => exact .loops went
  | idler went => exact .quiet (quiet_stepIdler went)
  | runner went => exact .quiet (quiet_stepRunner went)
  | direct went =>
    cases directStep_of went with
    | sends sending write => exact .drives sending write
    | enters other | stops other | resumes other | goes other | fails other | hears other =>
      exact .quiet (quiet_stepDirect (fun job hj => by cases hj.symm.trans other) went)

end Connection
end FrameEngine
