import FrameEngine.Proofs.Connection.Counting
import FrameEngine.Proofs.Connection.Loops
import FrameEngine.Proofs.Connection.Reception

/-!
# FrameEngine.Proofs.Connection.Still

What the rest of a connection does to its reading side: nothing but drop a read half that nobody
uses (`Still`). Writing, watching for silence, closing and callbacks all leave it still, and so does
a drain, which gives the handler what has been decoded and touches no reader. So a property of the
reading side has to be proved for the steps of readers alone.

`stepRead_cases` says it of a read: it brings octets, or nothing has moved but the read.
-/

namespace FrameEngine

theorem EngineError.not_protocol_of_stream {e : EngineError} (h : e.isStream = true) :
    e.errorClass ≠ .protocol := by
  cases e <;> first | (cases h; done) | (intro hp; cases hp)

namespace Connection

/-- The reading side of a connection, and what tells of it. -/
structure Inlet where
  reader : ReadLoop
  lock : Lock
  half : Keeping
  pending : Accumulator
  direct : List DirectCall
  history : List Moment
  stage : Stage
  metrics : Metrics
  totals : Option Metrics

def inlet (c : Connection) : Inlet :=
  ⟨c.reader, c.readLock, c.readHalf, c.pending, c.direct, c.history, c.stage, c.metrics, c.totals⟩

/-- Nothing has been read and no reader has moved. The handler may have heard of what was decoded
before; the read half may have been dropped, if nobody was at it. -/
structure Still (c c' : Connection) (results : List (Except EngineError Message)) : Prop where
  reader : c'.reader = c.reader
  lock : c'.readLock = c.readLock
  half : c'.readHalf = c.readHalf ∨
    c'.readHalf = .gone ∧ c.readHalf = .kept ∧ c.readLock = .free
  pending : c'.pending = c.pending
  direct : c'.direct = c.direct
  heard : c'.heard = c.heard ++ results
  closed : c.isClosed = true → c'.isClosed = true
  counted : Counted 0 c c'

variable {s : Setup} {c c' c'' : Connection} {results more : List (Except EngineError Message)}

namespace Still

theorem of_inlet (h : c'.inlet = c.inlet) : Still c c' [] := by
  obtain ⟨hr, hl, hh, hp, hd, hhist, hg, hm, ht⟩ := Inlet.mk.inj h
  refine ⟨hr, hl, .inl hh, hp, hd, ?_, fun hc => ?_, .of_counters hm ht⟩
  · rw [heard_congr hhist, List.append_nil]
  · rw [isClosed, hg]; exact hc

theorem refl (c : Connection) : Still c c [] := of_inlet rfl

theorem trans (h : Still c c' results) (h' : Still c' c'' more) :
    Still c c'' (results ++ more) := by
  refine ⟨h'.reader.trans h.reader, h'.lock.trans h.lock, ?_, h'.pending.trans h.pending,
    h'.direct.trans h.direct, ?_, fun hc => h'.closed (h.closed hc), h.counted.trans h'.counted⟩
  · rcases h'.half with hh' | ⟨hgone, hkept, hfree⟩
    · rw [hh']; exact h.half
    · rcases h.half with hh | ⟨hh, _⟩
      · exact .inr ⟨hgone, hh.symm.trans hkept, h.lock.symm.trans hfree⟩
      · cases hkept.symm.trans hh
  · rw [h'.heard, h.heard, List.append_assoc]

theorem andThen (h : Still c c' results) (h' : Still c' c'' []) : Still c c'' results := by
  have hboth := h.trans h'
  rwa [List.append_nil] at hboth

theorem isOpen (h : Still c c' results) (hc : c'.isClosed = false) : c.isClosed = false := by
  cases hopen : c.isClosed with
  | false => rfl
  | true => cases (h.closed hopen).symm.trans hc

theorem with_reader (h : Still c c' results) (reader : ReadLoop) :
    Still { c with reader } { c' with reader } results :=
  ⟨rfl, h.lock, h.half, h.pending, h.direct, h.heard, h.closed, h.counted⟩

theorem with_half (h : Still c c' results) (half : Keeping) :
    Still { c with readHalf := half } { c' with readHalf := half } results :=
  ⟨h.reader, h.lock, .inl rfl, h.pending, h.direct, h.heard, h.closed, h.counted⟩

/-- An occurrence that tells of nothing decoded. -/
theorem note (c : Connection) {o : Occurrence} (ho : Moment.heard? ⟨c.now, o⟩ = none) :
    Still c (c.note o) [] := by
  refine ⟨rfl, rfl, .inl rfl, rfl, rfl, ?_, id, .of_counters rfl rfl⟩
  rw [heard_note, ho]; rfl

theorem log (c : Connection) (level : LogLevel) (text : String) (fields : List (String × String)) :
    Still c (c.log level text fields) [] :=
  note c rfl

theorem record (c : Connection) {t : Tally} (ht : t.isOwn = true) (hn : t.octets = 0) :
    Still c (c.record t) [] :=
  ⟨rfl, rfl, .inl rfl, rfl, rfl, (List.append_nil _).symm, id, hn ▸ Counted.record c ht⟩

theorem dropParts (c : Connection) : Still c c.dropParts [] := by
  refine ⟨rfl, rfl, ?_, rfl, rfl, (List.append_nil _).symm, id, .of_counters rfl rfl⟩
  simp only [Connection.dropParts]
  split
  · have hlock : c.readLock = .free := Lock.eq_free ‹_›
    cases c.readHalf <;> simp [Keeping.dropKept, hlock]
  · exact .inl rfl

theorem told (c : Connection) (cb : Callback) : Still c (c.told cb) cb.heard?.toList := by
  refine ⟨rfl, rfl, .inl rfl, rfl, rfl, ?_, id, .of_counters rfl rfl⟩
  exact heard_told c cb

theorem of_effect (h : Effect s c c') : Still c c' [] := by
  cases h with
  | @note o remark => exact note c (by cases o <;> first | rfl | cases remark)
  | @record t fault =>
    have hcounted : t.isOwn = true ∧ t.octets = 0 := by
      cases t <;> first | exact ⟨rfl, rfl⟩ | cases fault
    exact record c hcounted.1 hcounted.2
  | @queue m frame queue packed pushed =>
    have hqueue : Still c { c with queue } [] := of_inlet rfl
    exact hqueue.trans (note _ rfl)
  | request loops => exact of_inlet rfl
  | beginClose live =>
    have hclose : Still c { c with stage := .closing, queue := c.queue.close } [] :=
      ⟨rfl, rfl, .inl rfl, rfl, rfl, (List.append_nil _).symm, fun _ => rfl, .of_counters rfl rfl⟩
    exact hclose.trans (dropParts _)
  | tellClose => exact told c .close
  | endClose =>
    exact ⟨rfl, rfl, .inl rfl, rfl, rfl, (List.append_nil _).symm, fun _ => rfl,
      .of_counters rfl rfl⟩

theorem of_effects (h : Effects s c c') : Still c c' [] := by
  induction h with
  | refl => exact refl c
  | tail _ last ih => exact ih.trans (of_effect last)

end Still

/-! ## Callbacks -/

theorem still_close (c : Connection) : Still c (c.close s) [] := .of_effects (close_effects c)

theorem still_call (c : Connection) (cb : Callback) :
    Still c (c.call s cb).1 cb.heard?.toList := by
  exact (Still.told c cb).andThen (.of_effects (call_effects (s := s) c cb))

theorem still_report (c : Connection) (e : EngineError) :
    Still c (c.report s e) (if e.errorClass = .protocol then [.error e] else []) := by
  obtain ⟨c₀, hbefore, hafter⟩ := report_effects (s := s) c e
  have htold := (Still.of_effects hbefore).trans (.told c₀ (.error e))
  have hreport := htold.trans (.of_effects hafter)
  refine ⟨hreport.reader, hreport.lock, hreport.half, hreport.pending, hreport.direct,
    heard_report c e, hreport.closed, hreport.counted⟩

/-- An error that is not the framing's is nothing that was decoded. -/
theorem still_report_of_ne {e : EngineError} (c : Connection) (he : e.errorClass ≠ .protocol) :
    Still c (c.report s e) [] := by
  have hreport := still_report (s := s) c e
  rwa [if_neg he] at hreport

theorem still_deliver (c : Connection) (m : Message) : Still c (c.deliver s m) [.ok m] := by
  obtain ⟨c₀, hbefore, h | ⟨text, h⟩⟩ := deliver_effects (s := s) c m
  · rw [h]; exact (Still.told c _).trans (.of_effects hbefore)
  · rw [h]
    exact ((Still.told c _).trans (.of_effects hbefore)).trans (still_report_of_ne c₀ nofun)

theorem still_reportExit {e : EngineError} (c : Connection) (he : e.errorClass ≠ .protocol) :
    Still c (c.reportExit s e) [] := by
  unfold reportExit
  split
  · exact .refl c
  · split
    · split
      · exact .refl c
      · have hsilenced : Still c { c with silenced := true } [] := .of_inlet rfl
        have hrecord := hsilenced.trans (.record _ (t := .idleTimeout) rfl rfl)
        exact (hrecord.trans (.log _ _ _ _)).trans (still_report_of_ne _ he)
    · exact still_report_of_ne c he

theorem still_retryAfter (c : Connection) (f : IoFailure) (b : Backoff) :
    Still c (c.retryAfter s f b).1 [] := by
  unfold retryAfter
  split
  · exact .refl c
  · have hdraws : Still c { c with draws := c.draws + 1 } [] := .of_inlet rfl
    have hrecord := hdraws.trans (.record _ (t := .retry) rfl rfl)
    exact (hrecord.trans (.log _ _ _ _)).trans (still_report_of_ne _ nofun)

/-! ## Draining -/

theorem Handed.still {r : Except EngineError Message} (h : Handed s c r c') : Still c c' [r] := by
  cases h with
  | message m =>
    have htouch : Still c c.touch [] := .of_inlet rfl
    have hrecord := (htouch.trans (.record _ (t := .messageReceived) rfl rfl)).trans
      (.record _ (t := .messageLatency 0) rfl rfl)
    exact hrecord.trans (still_deliver _ m)
  | @failure e text fields protocol =>
    have hreport := (Still.log c .debug text fields).trans (still_report (s := s) _ e)
    rwa [if_pos protocol] at hreport

/-- Along the run of the decoder: the handler hears what comes first of it, and all of it if the
connection is open in the end. -/
theorem still_drain {buf left : Octets} (h : Codec.Decodes s.framing buf results left) :
    ∀ c : Connection, ∃ out, Still c (c.drain s ⟨buf⟩).1 out ∧ out <+: results ∧
      ((c.drain s ⟨buf⟩).1.isClosed = false → out = results ∧ (c.drain s ⟨buf⟩).2 = ⟨left⟩) := by
  induction h with
  | stop h =>
    intro c
    rw [drain_of_short (Codec.unpack_of_decode_none h)]
    exact ⟨[], .refl c, List.nil_prefix, fun _ => ⟨rfl, rfl⟩⟩
  | @step buf next left r results h _ _ ih =>
    intro c
    cases hlive : c.isClosed with
    | true =>
      rw [drain_of_closed _ hlive]
      exact ⟨[], .refl c, List.nil_prefix, fun hopen => by rw [hlive] at hopen; cases hopen⟩
    | false =>
      obtain ⟨c', hhanded, hd⟩ := drain_of_result hlive h
      obtain ⟨out, hstill, hout, hopen⟩ := ih c'
      rw [hd]
      refine ⟨r :: out, hhanded.still.trans hstill, List.prefix_cons_inj r |>.2 hout, fun h => ?_⟩
      obtain ⟨rfl, hleft⟩ := hopen h
      exact ⟨rfl, hleft⟩

theorem still_boundBuffer (c : Connection) (b : Accumulator) :
    Still c (c.boundBuffer s b).1 [] := by
  unfold boundBuffer
  split
  · exact (Still.record c (t := .bufferOverflow) rfl rfl).trans (still_report_of_ne _ nofun)
  · exact .refl c

theorem boundBuffer_of_le {b : Accumulator} (h : b.length ≤ s.framing.maxFrameLength) :
    c.boundBuffer s b = (c, b) :=
  if_neg (Nat.not_lt.2 h)

/-! ## Reads -/

/-- A read brings the octets that the stream gives, or it goes on or fails and has brought none. -/
theorem stepRead_cases {job : ReadJob} {w : Wake} {p : ReadProgress}
    (h : c.stepRead s job w = some (c', p)) :
    (∃ d b, p = .data d b ∧ w = .read (.ok d) ∧ d ≠ [] ∧
      c' = c.touch.record (.bytesRead d.length)) ∨
    Still c c' [] ∧ (∀ d, w = .read (.ok d) → d = []) ∧ ∀ d b, p ≠ .data d b := by
  cases readStep_of h with
  | ends point => exact .inr ⟨.refl c, fun d hd => by cases hd; rfl, nofun⟩
  | gets point fits fed => exact .inl ⟨_, _, rfl, rfl, fed, rfl⟩
  | retries point passes granted => exact .inr ⟨still_retryAfter c _ _, nofun, nofun⟩
  | _ => exact .inr ⟨.refl c, nofun, nofun⟩

theorem not_protocol_of_stepRead {job : ReadJob} {w : Wake} {e : EngineError}
    (h : c.stepRead s job w = some (c', .fails e)) : e.errorClass ≠ .protocol := by
  by_cases he : e = .idleTimeout
  · rw [he]; nofun
  · exact EngineError.not_protocol_of_stream (stream_of_stepRead h he)

/-! ## Writing -/

/-- A write brings no octets. -/
theorem still_stepWrite {o : Owner} {job : WriteJob} {w : Wake} {p : WriteProgress}
    (h : c.stepWrite s o job w = some (c', p)) : Still c c' [] ∧ ∀ r, w ≠ .read r := by
  cases writeStep_of h with
  | retries fails granted => exact ⟨still_retryAfter c _ _, by cases fails <;> nofun⟩
  | exhausts fails spent => exact ⟨.refl c, by cases fails <;> nofun⟩
  | writes point fits takes => exact ⟨.note c rfl, nofun⟩
  | completes point =>
    have htouch : Still c c.touch [] := .of_inlet rfl
    have hsent := htouch.trans (.record _ (t := .messageSent job.frame.length) rfl rfl)
    exact ⟨hsent.trans (.record _ rfl rfl), nofun⟩
  | _ => exact ⟨.refl c, nofun⟩

theorem still_dropWriteHalf (c : Connection) : Still c (c.dropWriteHalf s) [] := by
  have hgone : Still c { c with writeHalf := .gone, writeLock := c.writeLock.release } [] :=
    .of_inlet rfl
  exact (hgone.trans (still_close _)).trans (.of_inlet rfl)

theorem still_exitWriter (c : Connection) : Still c (c.exitWriter s) [] := by
  have hrequest : Still c { c with writeLock := c.writeLock.request .loop } [] := .of_inlet rfl
  unfold exitWriter
  dsimp only
  split
  · exact hrequest.trans (still_dropWriteHalf _)
  · exact .of_inlet rfl

theorem still_writerRound (c : Connection) : Still c c.writerRound [] := by
  obtain ⟨taken, limiter, h⟩ := tryAcquire_eq c
  unfold writerRound
  rw [h]
  cases taken <;> exact .of_inlet rfl

theorem still_afterWrite {p : WriteProgress} (c : Connection)
    (hp : ∀ e, p = .ends (.error e) → e.isStream = true) : Still c (c.afterWrite s p) [] := by
  unfold afterWrite
  split
  · exact .of_inlet rfl
  · have hrelease : Still c { c with writeLock := c.writeLock.release } [] := .of_inlet rfl
    dsimp only
    split
    · exact hrelease.trans (still_writerRound _)
    · have hreport := still_reportExit (s := s) { c with writeLock := c.writeLock.release }
        (EngineError.not_protocol_of_stream (hp _ rfl))
      exact (hrelease.trans hreport).trans (still_exitWriter _)

theorem inlet_requestWrite (c : Connection) (o : Owner) (frame : Octets) :
    (c.requestWrite s o frame).1.inlet = c.inlet := by
  unfold requestWrite
  dsimp only
  split <;> rfl

theorem still_stepWriter {w : Wake} (h : c.stepWriter s w = some c') : Still c c' [] := by
  cases writerStep_of h with
  | begins fresh kept =>
    have htaken : Still c { c with consumer := .taken } [] := .of_inlet rfl
    exact htaken.trans (still_writerRound _)
  | lacks fresh apart => exact (still_close c).trans (.of_inlet rfl)
  | stops waits closed => exact still_exitWriter c
  | resumes paused due => exact still_writerRound c
  | @takes frame queue receiving live popped =>
    have hqueue : Still c { c with queue } [] := .of_inlet rfl
    have hrequest := hqueue.trans
      (.of_inlet (inlet_requestWrite (s := s) { c with queue } .loop frame))
    exact hrequest.trans (still_afterWrite _ (requestWrite_eq { c with queue } .loop frame).2)
  | ends receiving live none => exact still_exitWriter c
  | goes writing write =>
    exact (still_stepWrite write).1.trans
      (still_afterWrite _ fun e he => stream_of_stepWrite write he)
  | releases releasing held => exact still_dropWriteHalf c

/-! ## Watching and running -/

theorem still_stepIdler {w : Wake} (h : c.stepIdler s w = some c') : Still c c' [] := by
  cases idlerStep_of h with
  | begins fresh => exact .of_inlet rfl
  | stops ticking closed => exact (still_close c).trans (.of_inlet rfl)
  | expires ticking now silent =>
    have hreport := still_reportExit (s := s) c (e := .idleTimeout) nofun
    exact (hreport.trans (still_close _)).trans (.of_inlet rfl)
  | looks ticking now active => exact .of_inlet rfl

theorem still_stepRunner {w : Wake} (h : c.stepRunner s w = some c') : Still c c' [] := by
  obtain ⟨-, -, -, c₁, hlogged, rfl⟩ := runnerStep_of h
  have hlog : Still c c₁ [] := by
    rcases hlogged with rfl | rfl
    · exact .refl c₁
    · exact .log c _ _ _
  have hrunner : Still (c₁.close s) { c₁.close s with runner := .finished } [] := .of_inlet rfl
  exact ((hlog.trans (still_close _)).trans hrunner).trans (.note _ rfl)

/-- A run that begins tells the handler and sets the read loop up; one that comes too late does
nothing. -/
theorem still_start (c : Connection) (loops : LoopSet) :
    Still c (c.start s loops) [] ∨
      c.started = false ∧ ∃ reader, (reader = .fresh ∨ reader = .absent) ∧
        Still { c with reader } (c.start s loops) [] := by
  unfold start
  split
  · exact .inl ((Still.log c _ _ _).trans (.note _ rfl))
  · rename_i hfresh
    right
    have hfresh' : c.isClosed = false ∧ c.started = false := by simpa using hfresh
    obtain ⟨reader, hreader, hset⟩ : ∃ reader,
        (if loops.reads = true then ReadLoop.fresh else .absent) = reader ∧
          (reader = .fresh ∨ reader = .absent) := by
      refine ⟨_, rfl, ?_⟩
      split
      · exact .inl rfl
      · exact .inr rfl
    refine ⟨hfresh'.2, reader, hset, ?_⟩
    have htouch : Still c { c with started := true }.touch [] := .of_inlet rfl
    have hcall := htouch.trans (still_call (s := s) { c with started := true }.touch .connect)
    have hpanic : ∀ e, (call s { c with started := true }.touch .connect).2 = some e →
        e.errorClass ≠ .protocol := by
      intro e he
      simp only [call, callWith, Option.map_eq_some_iff] at he
      obtain ⟨text, _, rfl⟩ := he
      intro hclass
      cases hclass
    dsimp only
    rw [hreader]
    generalize call s { c with started := true }.touch .connect = r at hcall hpanic ⊢
    obtain ⟨c₁, panic⟩ := r
    cases panic with
    | none => exact (hcall.with_reader reader).trans (.of_inlet rfl)
    | some e =>
      have hreport := hcall.trans (still_report_of_ne (s := s) c₁ (hpanic e rfl))
      exact (hreport.with_reader reader).trans (.of_inlet rfl)

end Connection
end FrameEngine
