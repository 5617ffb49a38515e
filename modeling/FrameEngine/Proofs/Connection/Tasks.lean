import FrameEngine.Connection.Step

/-!
# FrameEngine.Proofs.Connection.Tasks

What a task can do when it goes on. For each function that takes a task from one place to the next
there is a relation with one case for each way on: under which condition the task goes it, what
drives it, and what becomes of the connection. A step of the function is one of these cases
(`readStep_of`, `writeStep_of` and so on), and what is proved of all steps is proved by the cases.
-/

namespace FrameEngine
namespace Connection

variable {s : Setup} {c c' : Connection}

/-! ## Retries -/

/-- A delay is granted, or all retries are spent and nothing happens. -/
theorem retryAfter_cases (c : Connection) (f : IoFailure) (b : Backoff) :
    (∃ resume b', (c.retryAfter s f b).2 = .ok (resume, b')) ∨
      c.retryAfter s f b = (c, .error (.retriesExhausted b.attempts f)) ∧ b.next? = none := by
  unfold retryAfter
  cases hnext : b.next? with
  | none => exact .inr ⟨rfl, rfl⟩
  | some next => exact .inl ⟨_, _, rfl⟩

/-- What is granted is the next delay of the backoff. -/
theorem next?_of_granted {f : IoFailure} {b b' : Backoff} {resume : Span}
    (granted : (c.retryAfter s f b).2 = .ok (resume, b')) : ∃ delay, b.next? = some (delay, b') := by
  unfold retryAfter at granted
  cases hnext : b.next? with
  | none =>
    rw [hnext] at granted
    cases granted
  | some next =>
    rw [hnext] at granted
    cases granted
    exact ⟨_, rfl⟩

/-! ## Reads -/

/-- A read goes on. -/
inductive ReadStep (s : Setup) (c : Connection) (job : ReadJob) :
    Wake → Connection → ReadProgress → Prop where
  | stops (closed : c.isClosed = true) :
      ReadStep s c job .cancelled c (.fails .connectionClosed)
  /-- There has been silence for as long as is set. -/
  | expires {deadline : Span} (point : job.point = .reading deadline) (due : deadline ≤ c.now)
      (silent : s.settings.idleTimeout ≤ c.idleFor) :
      ReadStep s c job .timer c (.fails .idleTimeout)
  /-- The deadline is put off. -/
  | waits {deadline : Span} (point : job.point = .reading deadline) (due : deadline ≤ c.now)
      (active : c.idleFor < s.settings.idleTimeout) :
      ReadStep s c job .timer c (.goes (c.beginRead s job.backoff))
  /-- The stream has come to its end. -/
  | ends {deadline : Span} (point : job.point = .reading deadline) :
      ReadStep s c job (.read (.ok [])) c (.fails .connectionClosed)
  | gets {deadline : Span} {d : Octets} (point : job.point = .reading deadline)
      (fits : d.length ≤ readSize s) (fed : d ≠ []) :
      ReadStep s c job (.read (.ok d)) (c.touch.record (.bytesRead d.length))
        (.data d job.backoff.reset)
  /-- A failure that does not pass. -/
  | breaks {deadline : Span} {f : IoFailure} (point : job.point = .reading deadline)
      (lasts : f.isTransient = false) : ReadStep s c job (.read (.error f)) c (.fails (.io f))
  | retries {deadline : Span} {f : IoFailure} {resume : Span} {b : Backoff}
      (point : job.point = .reading deadline) (passes : f.isTransient = true)
      (granted : (c.retryAfter s f job.backoff).2 = .ok (resume, b)) :
      ReadStep s c job (.read (.error f)) (c.retryAfter s f job.backoff).1
        (.goes ⟨.retrying resume, b⟩)
  | exhausts {deadline : Span} {f : IoFailure} (point : job.point = .reading deadline)
      (passes : f.isTransient = true) (spent : job.backoff.next? = none) :
      ReadStep s c job (.read (.error f)) c (.fails (.retriesExhausted job.backoff.attempts f))
  /-- The pause after a failure is over. -/
  | resumes {resume : Span} (point : job.point = .retrying resume) (due : resume ≤ c.now) :
      ReadStep s c job .timer c (.goes (c.beginRead s job.backoff))

theorem readStep_of {job : ReadJob} {w : Wake} {p : ReadProgress}
    (h : c.stepRead s job w = some (c', p)) : ReadStep s c job w c' p := by
  unfold stepRead at h
  split at h
  · split at h <;> cases h
    exact .stops ‹_›
  · split at h <;> cases h
    exact .stops ‹_›
  · rename_i deadline hpoint
    split at h
    · split at h <;> cases h
      · exact .expires hpoint ‹_› ‹_›
      · exact .waits hpoint ‹_› (Nat.lt_of_not_le ‹_›)
    · cases h
  · rename_i deadline d hpoint
    split at h
    · rename_i hfits
      split at h <;> cases h
      · rename_i hempty
        rw [List.isEmpty_iff.1 hempty]
        exact .ends hpoint
      · rename_i hfed
        exact .gets hpoint hfits fun hd => hfed (List.isEmpty_iff.2 hd)
    · cases h
  · rename_i deadline f hpoint
    have hread := Option.some.inj h
    unfold retryRead at hread
    split at hread
    · rename_i hpasses
      rcases retryAfter_cases (s := s) c f job.backoff with ⟨resume, b, hgranted⟩ | ⟨hr, hspent⟩
      · have hstep : ReadStep s c job _ _ _ := .retries hpoint hpasses hgranted
        generalize c.retryAfter s f job.backoff = r at hread hgranted hstep
        obtain ⟨c₁, result⟩ := r
        cases hgranted
        cases hread
        exact hstep
      · rw [hr] at hread
        cases hread
        exact .exhausts hpoint hpasses hspent
    · cases hread
      exact .breaks hpoint (Bool.eq_false_iff.2 ‹_›)
  · rename_i resume hpoint
    split at h <;> cases h
    exact .resumes hpoint ‹_›
  · cases h

/-! ## Writes -/

/-- A write has come to nothing, and may be tried again: so many octets are written, the failure is
what the handler is told, and the error is that of the write if all retries are spent. -/
inductive WriteFails (c : Connection) (job : WriteJob) :
    Wake → Nat → IoFailure → EngineError → Prop where
  | late {n : Nat} {deadline : Span} (point : job.point = .writing n deadline)
      (due : deadline ≤ c.now) : WriteFails c job .timer n (.ofKind .timedOut) .writeTimeout
  | breaks {n : Nat} {deadline : Span} {f : IoFailure} (point : job.point = .writing n deadline)
      (passes : f.isTransient = true) :
      WriteFails c job (.write (.error f)) n f (.retriesExhausted job.backoff.attempts f)

/-- A write goes on. -/
inductive WriteStep (s : Setup) (o : Owner) (c : Connection) (job : WriteJob) :
    Wake → Connection → WriteProgress → Prop where
  /-- It has the lock. -/
  | enters (point : job.point = .locking) (held : c.writeLock.isHeldBy o = true) :
      WriteStep s o c job .go c (c.takeTurn s job)
  | stops {n : Nat} {time : Span}
      (point : job.point = .writing n time ∨ job.point = .retrying n time)
      (closed : c.isClosed = true) :
      WriteStep s o c job .cancelled c (.ends (.error .connectionClosed))
  | retries {w : Wake} {n : Nat} {f : IoFailure} {e : EngineError} {resume : Span}
      {backoff : Backoff} (fails : WriteFails c job w n f e)
      (granted : (c.retryAfter s f job.backoff).2 = .ok (resume, backoff)) :
      WriteStep s o c job w (c.retryAfter s f job.backoff).1
        (.goes { job with point := .retrying n resume, backoff })
  | exhausts {w : Wake} {n : Nat} {f : IoFailure} {e : EngineError}
      (fails : WriteFails c job w n f e) (spent : job.backoff.next? = none) :
      WriteStep s o c job w c (.ends (.error e))
  /-- A failure that does not pass. -/
  | breaks {n : Nat} {deadline : Span} {f : IoFailure} (point : job.point = .writing n deadline)
      (lasts : f.isTransient = false) :
      WriteStep s o c job (.write (.error f)) c (.ends (.error (.io f)))
  /-- The stream takes nothing. -/
  | stalls {n : Nat} {deadline : Span} (point : job.point = .writing n deadline) :
      WriteStep s o c job (.write (.ok 0)) c (.ends (.error (.io (.ofKind .writeZero))))
  | writes {n k : Nat} {deadline : Span} (point : job.point = .writing n deadline)
      (fits : k ≤ job.frame.length - n) (takes : k ≠ 0) :
      WriteStep s o c job (.write (.ok k)) (c.note (.wrote ((job.frame.drop n).take k)))
        (.goes ((c.note (.wrote ((job.frame.drop n).take k))).nextWrite s
          { job with backoff := job.backoff.reset } (n + k)))
  /-- The pause after a failure is over. -/
  | resumes {n : Nat} {resume : Span} (point : job.point = .retrying n resume)
      (due : resume ≤ c.now) : WriteStep s o c job .timer c (.goes (c.nextWrite s job n))
  | completes {deadline : Span} (point : job.point = .flushing deadline) :
      WriteStep s o c job (.flush (.ok ())) (c.completeWrite job) (.ends (.ok ()))
  /-- The stream does not pass on what it took. -/
  | refuses {deadline : Span} {f : IoFailure} (point : job.point = .flushing deadline) :
      WriteStep s o c job (.flush (.error f)) c (.ends (.error (.io f)))
  | expires {deadline : Span} (point : job.point = .flushing deadline) (due : deadline ≤ c.now) :
      WriteStep s o c job .timer c (.ends (.error .writeTimeout))

theorem writeStep_of_retryWrite {o : Owner} {job : WriteJob} {w : Wake} {n : Nat} {f : IoFailure}
    {exhausted : EngineError → EngineError} {p : WriteProgress}
    (fails : WriteFails c job w n f (exhausted (.retriesExhausted job.backoff.attempts f)))
    (h : c.retryWrite s job n f exhausted = (c', p)) : WriteStep s o c job w c' p := by
  unfold retryWrite at h
  rcases retryAfter_cases (s := s) c f job.backoff with ⟨resume, b, hgranted⟩ | ⟨hr, hspent⟩
  · have hstep : WriteStep s o c job w _ _ := .retries fails hgranted
    generalize c.retryAfter s f job.backoff = r at h hgranted hstep
    obtain ⟨c₁, result⟩ := r
    cases hgranted
    cases h
    exact hstep
  · rw [hr] at h
    cases h
    exact .exhausts fails hspent

theorem writeStep_of {o : Owner} {job : WriteJob} {w : Wake} {p : WriteProgress}
    (h : c.stepWrite s o job w = some (c', p)) : WriteStep s o c job w c' p := by
  unfold stepWrite at h
  split at h
  · rename_i hpoint
    split at h <;> cases h
    exact .enters hpoint ‹_›
  · rename_i hpoint
    split at h <;> cases h
    exact .stops (.inl hpoint) ‹_›
  · rename_i hpoint
    split at h <;> cases h
    exact .stops (.inr hpoint) ‹_›
  · rename_i hpoint
    split at h
    · exact writeStep_of_retryWrite (.late hpoint ‹_›) (Option.some.inj h)
    · cases h
  · rename_i hpoint
    split at h
    · rename_i hfits
      split at h <;> cases h
      · rename_i hzero
        rw [hzero]
        exact .stalls hpoint
      · exact .writes hpoint hfits ‹_›
    · cases h
  · rename_i hpoint
    split at h
    · exact writeStep_of_retryWrite (.breaks hpoint ‹_›) (Option.some.inj h)
    · cases h
      exact .breaks hpoint (Bool.eq_false_iff.2 ‹_›)
  · rename_i hpoint
    split at h <;> cases h
    exact .resumes hpoint ‹_›
  · rename_i hpoint
    cases h
    exact .completes hpoint
  · rename_i hpoint
    cases h
    exact .refuses hpoint
  · rename_i hpoint
    split at h <;> cases h
    exact .expires hpoint ‹_›
  · cases h

/-- Who waits for the write half begins when it has the lock. -/
theorem stepWrite_of_locking {o : Owner} {job : WriteJob} {w : Wake} {p : WriteProgress}
    (locking : job.point = .locking) (h : c.stepWrite s o job w = some (c', p)) :
    w = .go ∧ c.writeLock.isHeldBy o = true ∧ c' = c ∧ p = c.takeTurn s job := by
  cases writeStep_of h with
  | enters point held => exact ⟨rfl, held, rfl, rfl⟩
  | stops point => rcases point with point | point <;> cases locking.symm.trans point
  | retries fails | exhausts fails => cases fails with
    | late point | breaks point => cases locking.symm.trans point
  | breaks point | stalls point | writes point | resumes point | completes point | refuses point
  | expires point => cases locking.symm.trans point

/-! ## Loops -/

/-- The read loop goes on. -/
inductive ReaderStep (s : Setup) (c : Connection) : Wake → Connection → Prop where
  /-- It asks for the read half, and the lock is free. -/
  | begins (fresh : c.reader = .fresh) (held : (c.readLock.request .loop).isHeldBy .loop = true) :
      ReaderStep s c .go ({ c with readLock := c.readLock.request .loop }.takeReadHalf s)
  /-- It asks for the read half, and has to wait. -/
  | queues (fresh : c.reader = .fresh) :
      ReaderStep s c .go { c with readLock := c.readLock.request .loop, reader := .locking }
  | enters (locking : c.reader = .locking) (held : c.readLock.isHeldBy .loop = true) :
      ReaderStep s c .go (c.takeReadHalf s)
  | stops {resume : Span} {buffer : Accumulator} {b : Backoff}
      (paused : c.reader = .paused resume buffer b) (closed : c.isClosed = true) :
      ReaderStep s c .cancelled (c.exitReader s)
  | resumes {resume : Span} {buffer : Accumulator} {b : Backoff}
      (paused : c.reader = .paused resume buffer b) (due : resume ≤ c.now) :
      ReaderStep s c .timer (c.readerRound s buffer b)
  | goes {w : Wake} {job job' : ReadJob} {buffer : Accumulator} {c₁ : Connection}
      (reading : c.reader = .reading job buffer)
      (read : c.stepRead s job w = some (c₁, .goes job')) :
      ReaderStep s c w { c₁ with reader := .reading job' buffer }
  | fails {w : Wake} {job : ReadJob} {buffer : Accumulator} {c₁ : Connection} {e : EngineError}
      (reading : c.reader = .reading job buffer)
      (read : c.stepRead s job w = some (c₁, .fails e)) :
      ReaderStep s c w ((c₁.reportExit s e).exitReader s)
  /-- It drains what it gets, bounds what is left, and goes on. -/
  | hears {w : Wake} {job : ReadJob} {buffer : Accumulator} {c₁ : Connection} {d : Octets}
      {b : Backoff} (reading : c.reader = .reading job buffer)
      (read : c.stepRead s job w = some (c₁, .data d b)) :
      ReaderStep s c w
        (((c₁.drain s (buffer.append d)).1.boundBuffer s
            (c₁.drain s (buffer.append d)).2).1.readerRound s
          ((c₁.drain s (buffer.append d)).1.boundBuffer s
            (c₁.drain s (buffer.append d)).2).2 b)

theorem readerStep_of {w : Wake} (h : c.stepReader s w = some c') : ReaderStep s c w c' := by
  unfold stepReader at h
  split at h
  · rename_i hfresh
    cases h
    dsimp only
    split
    · exact .begins hfresh ‹_›
    · exact .queues hfresh
  · rename_i hlocking
    split at h <;> cases h
    exact .enters hlocking ‹_›
  · rename_i hpaused
    split at h <;> cases h
    exact .stops hpaused ‹_›
  · rename_i hpaused
    split at h <;> cases h
    exact .resumes hpaused ‹_›
  · rename_i hreading
    split at h
    · cases h
    · cases h
      exact .goes hreading ‹_›
    · cases h
      exact .fails hreading ‹_›
    · cases h
      exact .hears hreading ‹_›
  · cases h

theorem reader_ne_absent {w : Wake} (h : c.stepReader s w = some c') : c.reader ≠ .absent := by
  intro absent
  unfold stepReader at h
  rw [absent] at h
  cases h

/-- The write loop goes on. -/
inductive WriterStep (s : Setup) (c : Connection) : Wake → Connection → Prop where
  | begins (fresh : c.writer = .fresh) (kept : c.consumer = .kept) :
      WriterStep s c .go { c with consumer := .taken }.writerRound
  /-- There is no queue for it. -/
  | lacks (fresh : c.writer = .fresh) (apart : c.consumer ≠ .kept) :
      WriterStep s c .go { c.close s with writer := .finished }
  | stops (waits : c.writer = .receiving ∨ ∃ resume, c.writer = .paused resume)
      (closed : c.isClosed = true) : WriterStep s c .cancelled (c.exitWriter s)
  | resumes {resume : Span} (paused : c.writer = .paused resume) (due : resume ≤ c.now) :
      WriterStep s c .timer c.writerRound
  | takes {frame : Octets} {queue : SendQueue} (receiving : c.writer = .receiving)
      (live : c.isClosed = false) (popped : c.queue.pop = (.frame frame, queue)) :
      WriterStep s c .go (({ c with queue }.requestWrite s .loop frame).1.afterWrite s
        ({ c with queue }.requestWrite s .loop frame).2)
  /-- There will be no more frames. -/
  | ends (receiving : c.writer = .receiving) (live : c.isClosed = false)
      (none : ∀ frame, c.queue.pop.1 ≠ .frame frame) : WriterStep s c .go (c.exitWriter s)
  | goes {w : Wake} {job : WriteJob} {c₁ : Connection} {p : WriteProgress}
      (writing : c.writer = .writing job)
      (write : c.stepWrite s .loop job w = some (c₁, p)) : WriterStep s c w (c₁.afterWrite s p)
  | releases (releasing : c.writer = .releasing) (held : c.writeLock.isHeldBy .loop = true) :
      WriterStep s c .go (c.dropWriteHalf s)

theorem writerStep_of {w : Wake} (h : c.stepWriter s w = some c') : WriterStep s c w c' := by
  unfold stepWriter at h
  split at h
  · rename_i hfresh
    cases h
    split
    · exact .begins hfresh ‹_›
    · exact .lacks hfresh ‹_›
  · rename_i hpaused
    split at h <;> cases h
    exact .stops (.inr ⟨_, hpaused⟩) ‹_›
  · rename_i hreceiving
    split at h <;> cases h
    exact .stops (.inl hreceiving) ‹_›
  · rename_i hpaused
    split at h <;> cases h
    exact .resumes hpaused ‹_›
  · rename_i hreceiving
    split at h
    · cases h
    · rename_i hlive
      split at h
      · cases h
        exact .takes hreceiving (Bool.eq_false_iff.2 hlive) ‹_›
      · cases h
      · rename_i hframe _
        cases h
        exact .ends hreceiving (Bool.eq_false_iff.2 hlive) fun frame hpop =>
          hframe frame c.queue.pop.2 (Prod.ext hpop rfl)
  · rename_i hwriting
    split at h
    · cases h
    · cases h
      exact .goes hwriting ‹_›
  · rename_i hreleasing
    split at h <;> cases h
    exact .releases hreleasing ‹_›
  · cases h

theorem writer_ne_absent {w : Wake} (h : c.stepWriter s w = some c') : c.writer ≠ .absent := by
  intro absent
  unfold stepWriter at h
  rw [absent] at h
  cases h

theorem writer_ne_finished {w : Wake} (h : c.stepWriter s w = some c') :
    c.writer ≠ .finished := by
  intro finished
  unfold stepWriter at h
  rw [finished] at h
  cases h

/-- The loop that watches for silence goes on. -/
inductive IdlerStep (s : Setup) (c : Connection) : Wake → Connection → Prop where
  | begins (fresh : c.idler = .fresh) :
      IdlerStep s c .go { c with
        idler := if s.settings.idleCheckInterval = 0 then .aborted
          else .ticking (c.nextLook s c.now) }
  | stops {due : Span} (ticking : c.idler = .ticking due) (closed : c.isClosed = true) :
      IdlerStep s c .cancelled { c.close s with idler := .finished }
  | expires {due : Span} (ticking : c.idler = .ticking due) (now : due ≤ c.now)
      (silent : s.settings.idleTimeout < c.idleFor) :
      IdlerStep s c .timer { (c.reportExit s .idleTimeout).close s with idler := .finished }
  | looks {due : Span} (ticking : c.idler = .ticking due) (now : due ≤ c.now)
      (active : c.idleFor ≤ s.settings.idleTimeout) :
      IdlerStep s c .timer { c with idler := .ticking (c.nextLook s due) }

theorem idlerStep_of {w : Wake} (h : c.stepIdler s w = some c') : IdlerStep s c w c' := by
  unfold stepIdler at h
  split at h
  · rename_i hfresh
    cases h
    exact .begins hfresh
  · rename_i hticking
    split at h <;> cases h
    exact .stops hticking ‹_›
  · rename_i hticking
    split at h
    · split at h <;> cases h
      · exact .expires hticking ‹_› ‹_›
      · exact .looks hticking ‹_› (Nat.le_of_not_lt ‹_›)
    · cases h
  · cases h

/-- The task that runs the loops goes on once, when they are over. -/
theorem runnerStep_of {w : Wake} (h : c.stepRunner s w = some c') :
    w = .go ∧ c.runner = .joining ∧ c.loopsOver = true ∧
      ∃ c₁, (c₁ = c ∨ c₁ = c.log .error "Connection loop aborted" []) ∧
        c' = { c₁.close s with runner := .finished }.note .returned := by
  unfold stepRunner at h
  split at h
  · split at h <;> cases h
    rename_i hover
    refine ⟨rfl, hover.1, hover.2, _, ?_, rfl⟩
    split
    · exact .inr rfl
    · exact .inl rfl
  · cases h

/-! ## Direct calls -/

/-- A direct call goes on. -/
inductive DirectStep (s : Setup) (c : Connection) (ticket : Nat) : Wake → Connection → Prop where
  /-- A send goes on. -/
  | sends {w : Wake} {job : WriteJob} {c₁ : Connection} {p : WriteProgress}
      (sending : c.direct[ticket]? = some (.sending job))
      (write : c.stepWrite s (.direct ticket) job w = some (c₁, p)) :
      DirectStep s c ticket w (c₁.afterSend ticket p)
  /-- A receive has the lock. -/
  | enters (locking : c.direct[ticket]? = some .locking)
      (held : c.readLock.isHeldBy (.direct ticket) = true) :
      DirectStep s c ticket .go (c.takeReceive s ticket)
  | stops {resume : Span} {b : Backoff} (paused : c.direct[ticket]? = some (.paused resume b))
      (closed : c.isClosed = true) :
      DirectStep s c ticket .cancelled (c.endReceive ticket (.error .connectionClosed))
  | resumes {resume : Span} {b : Backoff} (paused : c.direct[ticket]? = some (.paused resume b))
      (due : resume ≤ c.now) : DirectStep s c ticket .timer (c.receiveMore s ticket b)
  | goes {w : Wake} {job job' : ReadJob} {c₁ : Connection}
      (reading : c.direct[ticket]? = some (.reading job))
      (read : c.stepRead s job w = some (c₁, .goes job')) :
      DirectStep s c ticket w (c₁.setDirect ticket (.reading job'))
  | fails {w : Wake} {job : ReadJob} {c₁ : Connection} {e : EngineError}
      (reading : c.direct[ticket]? = some (.reading job))
      (read : c.stepRead s job w = some (c₁, .fails e)) :
      DirectStep s c ticket w (c₁.failReceive s ticket e)
  | hears {w : Wake} {job : ReadJob} {c₁ : Connection} {d : Octets} {b : Backoff}
      (reading : c.direct[ticket]? = some (.reading job))
      (read : c.stepRead s job w = some (c₁, .data d b)) :
      DirectStep s c ticket w ({ c₁ with pending := c₁.pending.append d }.receiveRound s ticket b)

theorem directStep_of {ticket : Nat} {w : Wake} (h : c.stepDirect s ticket w = some c') :
    DirectStep s c ticket w c' := by
  unfold stepDirect at h
  split at h
  · rename_i hsending
    split at h
    · cases h
    · cases h
      exact .sends hsending ‹_›
  · rename_i hlocking
    split at h <;> cases h
    exact .enters hlocking ‹_›
  · rename_i hpaused
    split at h <;> cases h
    exact .stops hpaused ‹_›
  · rename_i hpaused
    split at h <;> cases h
    exact .resumes hpaused ‹_›
  · rename_i hreading
    split at h
    · cases h
    · cases h
      exact .goes hreading ‹_›
    · cases h
      exact .fails hreading ‹_›
    · cases h
      exact .hears hreading ‹_›
  · cases h

end Connection
end FrameEngine
