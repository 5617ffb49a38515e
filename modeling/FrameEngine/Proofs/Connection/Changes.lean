import FrameEngine.Proofs.Connection.Intake

/-!
# FrameEngine.Proofs.Connection.Changes

What a step of a connection comes to: a chain of `Change`s, each of one kind. That tasks move, locks
are passed on and clocks are set is all of one kind, which leaves the stage, the queue, the counters
and the history alone (`Core`). Two things are marked along the chain: a delay that is granted after
a failure, and a call that tells the handler that more is buffered than a frame can be (`Mark`).

There is one lemma for each function, in the order of the definitions, and `changes_step` for a
step. What is true of each kind of change is true of a step, then, and no function is looked at
again: `Supply`, `Retries` and `Buffer` read off the chain what becomes of the queue, of the count of
retries and of the calls.
-/

namespace FrameEngine

/-! ## What is marked -/

/-- The handler is told that more is buffered than a frame can be. -/
def Callback.isOverflow : Callback → Bool
  | .error (.bufferOverflow _ _) => true
  | _ => false

theorem Callback.isOverflow_of_own {e : EngineError} (h : e.own ≠ some .bufferOverflow) :
    (Callback.error e).isOverflow = false := by
  cases e <;> first | rfl | exact absurd rfl h

/-- The backoff that is asked for a delay when a read goes on. -/
def ReadJob.asks (job : ReadJob) (w : Wake) : Option Backoff :=
  match job.point, w with
  | .reading _, .read (.error f) => if f.isTransient then some job.backoff else none
  | _, _ => none

/-- The backoff that is asked for a delay when a write goes on: for a failure that may pass, and
for a write that is late. -/
def WriteJob.asks (job : WriteJob) (w : Wake) : Option Backoff :=
  match job.point, w with
  | .writing _ _, .timer => some job.backoff
  | .writing _ _, .write (.error f) => if f.isTransient then some job.backoff else none
  | _, _ => none

/-- How many delays a backoff gives that may be asked. -/
def Backoff.grants : Option Backoff → Nat
  | some b => b.next?.isSome.toNat
  | none => 0

/-- What is marked of a step. -/
inductive Mark where
  /-- A delay is granted. -/
  | retry
  /-- The handler is told of an overflow. -/
  | overflow (call : Call)

def Tally.marks : Tally → List Mark
  | .retry => [.retry]
  | _ => []

def Call.marks (call : Call) : List Mark :=
  if call.callback.isOverflow then [.overflow call] else []

def Backoff.marks (asked : Option Backoff) : List Mark :=
  List.replicate (Backoff.grants asked) .retry

/-- A backoff that gives no delay leaves no mark. -/
theorem Backoff.marks_of_spent {b : Backoff} (spent : b.next? = none) :
    Backoff.marks (some b) = [] := by
  rw [marks, grants, spent]
  rfl

/-- A read asks for a delay only when it fails. -/
theorem ReadJob.asks_eq_none (job : ReadJob) {w : Wake} (hw : ∀ f, w ≠ .read (.error f)) :
    job.asks w = none := by
  unfold asks
  split
  · exact absurd rfl (hw _)
  · rfl

theorem ReadJob.asks_failure {job : ReadJob} {deadline : Span}
    (point : job.point = .reading deadline) (f : IoFailure) :
    job.asks (.read (.error f)) = if f.isTransient then some job.backoff else none := by
  unfold asks
  rw [point]

theorem WriteJob.asks_failure {job : WriteJob} {n : Nat} {deadline : Span}
    (point : job.point = .writing n deadline) (f : IoFailure) :
    job.asks (.write (.error f)) = if f.isTransient then some job.backoff else none := by
  unfold asks
  rw [point]

theorem Call.marks_of_own {e : EngineError} (h : e.own ≠ some .bufferOverflow) (stage : Stage) :
    Call.marks ⟨.error e, stage⟩ = [] := by
  rw [Call.marks, Callback.isOverflow_of_own h]
  rfl

namespace Connection

/-- The backoff that is asked for a delay in a step. -/
def asks (c : Connection) : Label → Option Backoff
  | .wake .reader w =>
    match c.reader with
    | .reading job _ => job.asks w
    | _ => none
  | .wake .writer w =>
    match c.writer with
    | .writing job => job.asks w
    | _ => none
  | .wake (.direct ticket) w =>
    match c.direct[ticket]? with
    | some (.sending job) => job.asks w
    | some (.reading job) => job.asks w
    | _ => none
  | _ => none

/-- The connection when the read loop has drained octets that the stream gives it. -/
def drainedBy (s : Setup) (c : Connection) (d : Octets) : Connection :=
  match c.reader with
  | .reading _ buffer => ((c.touch.record (.bytesRead d.length)).drain s (buffer.append d)).1
  | _ => c

/-- The calls that tell of an overflow in a step: one, if what has been read leaves too much. -/
def spilt (s : Setup) (c : Connection) (l : Label) : List Call :=
  l.loopReads.flatMap fun d =>
    if s.framing.maxFrameLength < (c.leftover s d).length then
      [⟨.error (.bufferOverflow (c.leftover s d).length s.framing.maxFrameLength),
        (c.drainedBy s d).stage⟩]
    else []

/-- The marks of a step. -/
def marks (s : Setup) (c : Connection) (l : Label) : List Mark :=
  Backoff.marks (c.asks l) ++ (c.spilt s l).map .overflow

/-! ## Changes -/

/-- What is left alone when tasks move. -/
structure Core where
  stage : Stage
  queue : SendQueue
  metrics : Metrics
  history : List Moment

def core (c : Connection) : Core := ⟨c.stage, c.queue, c.metrics, c.history⟩

/-- One thing that a step does to a connection, with its marks. -/
inductive Change (s : Setup) : Connection → List Mark → Connection → Prop where
  | effect {c c' : Connection} (h : Effect s c c') : Change s c [] c'
  | tell (c : Connection) (cb : Callback) : Change s c (Call.marks ⟨cb, c.stage⟩) (c.told cb)
  | count (c : Connection) (t : Tally) : Change s c t.marks (c.record t)
  | write (c : Connection) (data : Octets) : Change s c [] (c.note (.wrote data))
  | push {c : Connection} {frame : Octets} {queue : SendQueue}
      (pushed : c.queue.push frame = .ok queue) :
      Change s c [] ({ c with queue }.note (.queued frame))
  | pop {c : Connection} {frame : Octets} {queue : SendQueue}
      (popped : c.queue.pop = (.frame frame, queue)) : Change s c [] { c with queue }
  /-- The consumer's end of the queue goes after the connection has been closed. -/
  | strip {c : Connection} (closed : c.isClosed = true) :
      Change s c [] { c with consumer := .gone, queue := c.queue.dropConsumer }
  | settle {c c' : Connection} (same : c'.core = c.core) : Change s c [] c'

/-- A chain of changes, with the marks that are left on the way. -/
inductive Changes (s : Setup) (c : Connection) : List Mark → Connection → Prop where
  | refl : Changes s c [] c
  | tail {ms more : List Mark} {c' c'' : Connection} (first : Changes s c ms c')
      (last : Change s c' more c'') : Changes s c (ms ++ more) c''

variable {s : Setup} {c c' c'' c₀ : Connection} {ms more : List Mark} {w : Wake}

namespace Changes

theorem single (h : Change s c ms c') : Changes s c ms c' := .tail .refl h

theorem trans (h : Changes s c ms c') (h' : Changes s c' more c'') :
    Changes s c (ms ++ more) c'' := by
  induction h' with
  | refl => rwa [List.append_nil]
  | tail _ last ih =>
    rw [← List.append_assoc]
    exact ih.tail last

/-- What comes after leaves no mark. -/
theorem andThen (h : Changes s c ms c') (h' : Changes s c' [] c'') : Changes s c ms c'' := by
  have hboth := h.trans h'
  rwa [List.append_nil] at hboth

theorem of_core (same : c'.core = c.core) : Changes s c [] c' := .single (.settle same)

theorem settled (h : Changes s c ms c') (same : c''.core = c'.core) : Changes s c ms c'' :=
  h.andThen (.of_core same)

theorem count (h : Changes s c ms c') {t : Tally} (plain : t.marks = []) :
    Changes s c ms (c'.record t) := by
  have hone : Change s c' [] (c'.record t) := plain ▸ Change.count c' t
  exact h.andThen (.single hone)

theorem of_effects (h : Effects s c c') : Changes s c [] c' := by
  induction h with
  | refl => exact .refl
  | tail _ last ih => exact ih.andThen (.single (.effect last))

theorem log (h : Changes s c ms c') (level : LogLevel) (text : String)
    (fields : List (String × String)) : Changes s c ms (c'.log level text fields) :=
  h.andThen (.of_effects (effects_log c' level text fields))

theorem close (h : Changes s c ms c') : Changes s c ms (c'.close s) :=
  h.andThen (.of_effects (close_effects c'))

end Changes

/-! ## Callbacks -/

theorem changes_call (c : Connection) (cb : Callback) :
    Changes s c (Call.marks ⟨cb, c.stage⟩) (c.call s cb).1 :=
  (Changes.single (.tell c cb)).andThen (.of_effects (call_effects c cb))

/-- Before the handler is told of an error it is counted, which leaves the stage as it is. -/
theorem changes_report (c : Connection) (e : EngineError) :
    Changes s c (Call.marks ⟨.error e, c.stage⟩) (c.report s e) := by
  have hcounted : Changes s c [] (c.countError e) := by
    unfold countError
    split
    · exact (Changes.refl.count rfl).count rfl
    · exact Changes.refl.count rfl
  have hstage : (c.countError e).stage = c.stage := by unfold countError; split <;> rfl
  have hcall := changes_call (s := s) (c.countError e) (.error e)
  rw [hstage] at hcall
  have htold := hcounted.trans hcall
  rcases report_cases (s := s) c e with h | ⟨text, fields, h⟩ <;> rw [h]
  · exact htold
  · exact htold.log _ _ _

theorem Changes.report (h : Changes s c ms c') {e : EngineError}
    (plain : e.own ≠ some .bufferOverflow) : Changes s c ms (c'.report s e) := by
  have hreport := changes_report (s := s) c' e
  rw [Call.marks_of_own plain] at hreport
  exact h.andThen hreport

theorem Changes.deliver (h : Changes s c ms c') (m : Message) :
    Changes s c ms (c'.deliver s m) := by
  refine h.andThen ?_
  have hcall : Changes s c' [] (c'.call s (.message m)).1 := changes_call c' (.message m)
  rcases deliver_cases (s := s) c' m with h | ⟨text, fields, panic, h⟩ <;> rw [h]
  · exact hcall
  · exact (hcall.log _ _ _).report nofun

theorem Changes.reportExit (h : Changes s c ms c') {e : EngineError}
    (plain : e.own ≠ some .bufferOverflow) : Changes s c ms (c'.reportExit s e) := by
  unfold Connection.reportExit
  split
  · exact h
  · split
    · split
      · exact h
      · have hmarked : Changes s c ms { c' with silenced := true } := h.settled rfl
        exact ((hmarked.count rfl).log _ _ _).report plain
    · exact h.report plain

theorem changes_retryAfter (c : Connection) (f : IoFailure) (b : Backoff) :
    Changes s c (Backoff.marks (some b)) (c.retryAfter s f b).1 := by
  rw [Backoff.marks, Backoff.grants, retryAfter]
  cases b.next? with
  | none => exact .refl
  | some next =>
    have hdraws : Changes s c [] { c with draws := c.draws + 1 } := .of_core rfl
    have hcount := hdraws.trans (.single (.count _ .retry))
    exact (hcount.log _ _ _).report nofun

/-! ## Reading -/

theorem changes_stepRead {job : ReadJob} {p : ReadProgress}
    (h : c.stepRead s job w = some (c', p)) : Changes s c (Backoff.marks (job.asks w)) c' := by
  have hplain : (∀ f, w ≠ .read (.error f)) → Backoff.marks (job.asks w) = [] := fun hw => by
    rw [job.asks_eq_none hw]
    rfl
  cases readStep_of h with
  | stops | expires | waits | ends | resumes =>
    rw [hplain nofun]
    exact .refl
  | gets point fits fed =>
    rw [hplain nofun]
    have htouch : Changes s c [] c.touch := .of_core rfl
    exact htouch.count rfl
  | breaks point lasts =>
    rw [ReadJob.asks_failure point, lasts]
    exact .refl
  | retries point passes granted =>
    rw [ReadJob.asks_failure point, if_pos passes]
    exact changes_retryAfter c _ _
  | exhausts point passes spent =>
    rw [ReadJob.asks_failure point, if_pos passes, Backoff.marks_of_spent spent]
    exact .refl

/-- The error that ends a read is not an overflow. -/
theorem own_of_stepRead {job : ReadJob} {e : EngineError}
    (h : c.stepRead s job w = some (c', .fails e)) : e.own ≠ some .bufferOverflow := by
  by_cases he : e = .idleTimeout
  · rw [he]
    nofun
  · rw [EngineError.own_of_stream (stream_of_stepRead h he)]
    nofun

theorem changes_drain (c : Connection) (b : Accumulator) : Changes s c [] (c.drain s b).1 := by
  fun_induction drain s c b with
  | case1 c b _ => exact .refl
  | case2 c b _ m n _ e he =>
    refine Changes.refl.report ?_
    unfold Accumulator.consume at he
    split at he <;> cases he
    intro hown
    cases hown
  | case3 c b _ m n _ rest _ _ c' ih =>
    have htouch : Changes s c [] c.touch := .of_core rfl
    exact (((htouch.count rfl).count rfl).deliver m).andThen ih
  | case4 c b _ failure _ _ => exact .refl
  | case5 c b _ failure h _ _ dropped c' ih =>
    refine ((Changes.refl.log _ _ _).report ?_).andThen ih
    rw [own_of_unpack h]
    intro hown
    cases hown

theorem changes_boundBuffer (c : Connection) (b : Accumulator) :
    Changes s c (if s.framing.maxFrameLength < b.length then
      [.overflow ⟨.error (.bufferOverflow b.length s.framing.maxFrameLength), c.stage⟩] else [])
      (c.boundBuffer s b).1 := by
  unfold boundBuffer
  split
  · have hcount : Changes s c [] (c.record .bufferOverflow) := Changes.refl.count rfl
    exact hcount.trans (changes_report (c.record .bufferOverflow) (.bufferOverflow _ _))
  · exact .refl

theorem Changes.exitReader (h : Changes s c ms c') : Changes s c ms (c'.exitReader s) := by
  have hgone : Changes s c ms { c' with readHalf := .gone } := h.settled rfl
  exact hgone.close.settled rfl

theorem Changes.readerRound (h : Changes s c ms c') (buffer : Accumulator) (b : Backoff) :
    Changes s c ms (c'.readerRound s buffer b) := by
  unfold Connection.readerRound
  split
  · exact h.exitReader
  · obtain ⟨taken, limiter, htoken⟩ := tryAcquire_eq c'
    rw [htoken]
    cases taken <;> exact h.settled rfl

theorem Changes.takeReadHalf (h : Changes s c ms c') : Changes s c ms (c'.takeReadHalf s) := by
  unfold Connection.takeReadHalf
  dsimp only
  split
  · have htaken : Changes s c ms { c' with readLock := c'.readLock.release, readHalf := .taken } :=
      h.settled rfl
    exact htaken.readerRound _ _
  · have hrelease : Changes s c ms { c' with readLock := c'.readLock.release } := h.settled rfl
    exact hrelease.close.settled rfl

/-- What the read loop does with octets: it drains them, bounds what is left, and goes on. -/
theorem stepReader_read {d : Octets} (hd : d ≠ []) (h : c.stepReader s (.read (.ok d)) = some c') :
    d.length ≤ readSize s ∧ ∃ b, c' =
      ((c.drainedBy s d).boundBuffer s (c.leftover s d)).1.readerRound s
        ((c.drainedBy s d).boundBuffer s (c.leftover s d)).2 b := by
  cases readerStep_of h with
  | goes reading read => cases readStep_of read
  | fails reading read =>
    cases readStep_of read
    exact absurd rfl hd
  | @hears _ job _ _ _ _ reading read =>
    cases readStep_of read with
    | gets point fits fed =>
      exact ⟨fits, job.backoff.reset, by simp only [drainedBy, leftover, reading]⟩

/-- What brings no octets to the read loop spills none. -/
theorem marks_of_dry {l : Label} (dry : l.loopReads = []) :
    c.marks s l = Backoff.marks (c.asks l) := by
  rw [marks, spilt, dry]
  exact List.append_nil _

theorem asks_of_read (c : Connection) (d : Octets) :
    c.asks (.wake .reader (.read (.ok d))) = none := by
  cases hreader : c.reader with
  | reading job buffer =>
    cases hpoint : job.point <;> simp only [asks, hreader, ReadJob.asks, hpoint]
  | _ => simp only [asks, hreader]

theorem changes_drainedBy (c : Connection) (d : Octets) : Changes s c [] (c.drainedBy s d) := by
  unfold drainedBy
  split
  · have htouch : Changes s c [] c.touch := .of_core rfl
    exact (htouch.count rfl).andThen (changes_drain _ _)
  · exact .refl

theorem changes_stepReader (h : c.stepReader s w = some c') :
    Changes s c (c.marks s (.wake .reader w)) c' := by
  by_cases hw : ∃ d, w = .read (.ok d) ∧ d ≠ []
  · obtain ⟨d, rfl, hd⟩ := hw
    obtain ⟨-, b, rfl⟩ := stepReader_read hd h
    have hbound := (changes_drainedBy c d).trans (changes_boundBuffer (s := s) _ (c.leftover s d))
    have hmarks := hbound.readerRound ((c.drainedBy s d).boundBuffer s (c.leftover s d)).2 b
    rw [marks, asks_of_read, spilt, loopReads_read hd, List.flatMap_singleton]
    split at hmarks <;> rename_i hlong <;> simp only [hlong, if_true, if_false] <;> exact hmarks
  · have dry : ∀ d, w = .read (.ok d) → d = [] := by
      intro d hread
      by_contra hd
      exact hw ⟨d, hread, hd⟩
    rw [marks_of_dry (loopReads_of_dry dry .reader).1]
    simp only [asks]
    have hrequest : Changes s c [] { c with readLock := c.readLock.request .loop } := .of_core rfl
    generalize hreader : c.reader = reader
    cases readerStep_of h with
    | begins fresh held =>
      cases hreader.symm.trans fresh
      exact hrequest.takeReadHalf
    | queues fresh =>
      cases hreader.symm.trans fresh
      exact hrequest.settled rfl
    | enters locking held =>
      cases hreader.symm.trans locking
      exact Changes.refl.takeReadHalf
    | stops paused closed =>
      cases hreader.symm.trans paused
      exact Changes.refl.exitReader
    | resumes paused due =>
      cases hreader.symm.trans paused
      exact Changes.refl.readerRound _ _
    | goes reading read =>
      cases hreader.symm.trans reading
      exact (changes_stepRead read).settled rfl
    | fails reading read =>
      cases hreader.symm.trans reading
      exact ((changes_stepRead read).reportExit (own_of_stepRead read)).exitReader
    | hears reading read =>
      obtain ⟨d, b, hp, hread, hd, -⟩ | ⟨-, -, hnot⟩ := stepRead_cases read
      · exact absurd (dry d hread) hd
      · exact absurd rfl (hnot _ _)

/-! ## Writing -/

/-- A write that comes to nothing asks for a delay. -/
theorem WriteFails.asks {job : WriteJob} {n : Nat} {f : IoFailure} {e : EngineError}
    (h : WriteFails c job w n f e) : job.asks w = some job.backoff := by
  cases h with
  | late point due =>
    unfold WriteJob.asks
    rw [point]
  | breaks point passes => rw [WriteJob.asks_failure point, if_pos passes]

theorem changes_stepWrite {o : Owner} {job : WriteJob} {p : WriteProgress}
    (h : c.stepWrite s o job w = some (c', p)) : Changes s c (Backoff.marks (job.asks w)) c' := by
  cases writeStep_of h with
  | retries fails granted =>
    rw [fails.asks]
    exact changes_retryAfter c _ _
  | exhausts fails spent =>
    rw [fails.asks, Backoff.marks_of_spent spent]
    exact .refl
  | breaks point lasts =>
    rw [WriteJob.asks_failure point, lasts]
    exact .refl
  | enters point | stalls point | refuses point | expires point | resumes point =>
    unfold WriteJob.asks
    rw [point]
    exact .refl
  | stops point closed =>
    unfold WriteJob.asks
    rcases point with point | point <;> rw [point] <;> exact .refl
  | writes point fits takes =>
    unfold WriteJob.asks
    rw [point]
    exact .single (.write c _)
  | completes point =>
    unfold WriteJob.asks
    rw [point]
    have htouch : Changes s c [] c.touch := .of_core rfl
    exact (htouch.count rfl).count rfl

/-- The consumer's end of the queue goes only when the connection is closed. -/
theorem Changes.dropWriteHalf (h : Changes s c ms c') : Changes s c ms (c'.dropWriteHalf s) := by
  have hgone : Changes s c ms { c' with writeHalf := .gone, writeLock := c'.writeLock.release } :=
    h.settled rfl
  exact (hgone.close.andThen (.single (.strip (isClosed_close _)))).settled rfl

theorem Changes.exitWriter (h : Changes s c ms c') : Changes s c ms (c'.exitWriter s) := by
  have hrequest : Changes s c ms { c' with writeLock := c'.writeLock.request .loop } :=
    h.settled rfl
  unfold Connection.exitWriter
  dsimp only
  split
  · exact hrequest.dropWriteHalf
  · exact hrequest.settled rfl

theorem Changes.writerRound (h : Changes s c ms c') : Changes s c ms c'.writerRound := by
  obtain ⟨taken, limiter, htoken⟩ := tryAcquire_eq c'
  unfold Connection.writerRound
  rw [htoken]
  cases taken <;> exact h.settled rfl

theorem Changes.afterWrite (h : Changes s c ms c') {p : WriteProgress}
    (hp : ∀ e, p = .ends (.error e) → e.isStream = true) :
    Changes s c ms (c'.afterWrite s p) := by
  unfold Connection.afterWrite
  split
  · exact h.settled rfl
  · have hrelease : Changes s c ms { c' with writeLock := c'.writeLock.release } := h.settled rfl
    dsimp only
    split
    · exact hrelease.writerRound
    · rename_i e
      have hplain : e.own ≠ some .bufferOverflow := by
        rw [EngineError.own_of_stream (hp e rfl)]
        nofun
      exact (hrelease.reportExit hplain).exitWriter

theorem core_requestWrite (c : Connection) (o : Owner) (frame : Octets) :
    (c.requestWrite s o frame).1.core = c.core := by
  unfold requestWrite
  dsimp only
  split <;> rfl

theorem changes_stepWriter (h : c.stepWriter s w = some c') :
    Changes s c (Backoff.marks (c.asks (.wake .writer w))) c' := by
  simp only [asks]
  generalize hwriter : c.writer = writer
  cases writerStep_of h with
  | begins fresh kept =>
    cases hwriter.symm.trans fresh
    have htaken : Changes s c [] { c with consumer := .taken } := .of_core rfl
    exact htaken.writerRound
  | lacks fresh apart =>
    cases hwriter.symm.trans fresh
    exact Changes.refl.close.settled rfl
  | stops waits closed =>
    rcases waits with receiving | ⟨resume, paused⟩
    · cases hwriter.symm.trans receiving
      exact Changes.refl.exitWriter
    · cases hwriter.symm.trans paused
      exact Changes.refl.exitWriter
  | resumes paused due =>
    cases hwriter.symm.trans paused
    exact Changes.refl.writerRound
  | @takes frame queue receiving live popped =>
    cases hwriter.symm.trans receiving
    have hpopped : Changes s c [] { c with queue } := .single (.pop popped)
    have hrequest := hpopped.settled (core_requestWrite (s := s) { c with queue } .loop frame)
    exact hrequest.afterWrite (requestWrite_eq { c with queue } .loop frame).2
  | ends receiving live none =>
    cases hwriter.symm.trans receiving
    exact Changes.refl.exitWriter
  | goes writing write =>
    cases hwriter.symm.trans writing
    exact (changes_stepWrite write).afterWrite fun e he => stream_of_stepWrite write he
  | releases releasing held =>
    cases hwriter.symm.trans releasing
    exact Changes.refl.dropWriteHalf

/-! ## Watching and running -/

theorem changes_stepIdler (h : c.stepIdler s w = some c') : Changes s c [] c' := by
  cases idlerStep_of h with
  | begins fresh => exact .of_core rfl
  | stops ticking closed => exact Changes.refl.close.settled rfl
  | expires ticking now silent =>
    have hreport : Changes s c [] (c.reportExit s .idleTimeout) :=
      Changes.refl.reportExit (by simp [EngineError.own])
    exact hreport.close.settled rfl
  | looks ticking now active => exact .of_core rfl

theorem changes_stepRunner (h : c.stepRunner s w = some c') : Changes s c [] c' := by
  obtain ⟨-, -, -, c₁, hlogged, rfl⟩ := runnerStep_of h
  have hlog : Changes s c [] c₁ := by
    rcases hlogged with rfl | rfl
    · exact .refl
    · exact Changes.refl.log _ _ _
  have hrunner : Changes s c [] { c₁.close s with runner := .finished } := hlog.close.settled rfl
  exact hrunner.andThen (.single (.effect (.note _ rfl)))

theorem changes_start (c : Connection) (loops : LoopSet) : Changes s c [] (c.start s loops) := by
  unfold start
  split
  · exact (Changes.refl.log _ _ _).andThen (.single (.effect (.note _ rfl)))
  · have hbegun : Changes s c [] { c with started := true }.touch := .of_core rfl
    dsimp only
    generalize { c with started := true }.touch = c₀ at hbegun ⊢
    have hcall : Changes s c [] (c₀.call s .connect).1 := hbegun.trans (changes_call c₀ .connect)
    generalize hr : c₀.call s .connect = r at hcall
    obtain ⟨c₁, panic⟩ := r
    cases panic with
    | none => exact hcall.settled rfl
    | some e =>
      have hplain := (panics_of_call (congrArg Prod.snd hr)).2
      have hreport : Changes s c [] (c₁.report s e) := hcall.report (by rw [hplain]; nofun)
      exact hreport.settled rfl

/-! ## Direct calls -/

theorem core_afterSend (c : Connection) (ticket : Nat) (p : WriteProgress) :
    (c.afterSend ticket p).core = c.core := by
  cases p <;> rfl

theorem changes_beginSend (c : Connection) (frame : Octets) :
    Changes s c [] (c.beginSend s frame) :=
  .of_core ((core_afterSend _ _ _).trans (core_requestWrite _ _ _))

/-- What a direct receive finds wrong is counted, and the handler is not told of it. -/
theorem changes_receivePending (c : Connection) : Changes s c [] (c.receivePending s).1 := by
  unfold receivePending
  split
  · exact .refl
  · split
    · split
      · exact .refl
      · rename_i pending _
        have htouch : Changes s c [] { c with pending }.touch := .of_core rfl
        exact htouch.count rfl
    · split
      · dsimp only
        split
        · have hempty : Changes s c [] { c with pending := .empty } := .of_core rfl
          exact hempty.count rfl
        · exact .refl
      · rename_i failure _ _
        have hrest : Changes s c []
            { c with pending := (c.pending.discard failure.discard.orAll).2 } := .of_core rfl
        exact (hrest.count (t := .error) rfl).count rfl

theorem core_receiveMore (c : Connection) (ticket : Nat) (b : Backoff) :
    (c.receiveMore s ticket b).core = c.core := by
  obtain ⟨taken, limiter, h⟩ := tryAcquire_eq c
  rw [receiveMore, h]
  cases taken <;> rfl

theorem Changes.receiveRound (h : Changes s c ms c') (ticket : Nat) (b : Backoff) :
    Changes s c ms (c'.receiveRound s ticket b) := by
  have hpending := h.andThen (changes_receivePending c')
  unfold Connection.receiveRound
  split <;> rename_i hr <;> rw [hr] at hpending
  · exact hpending.settled rfl
  · exact hpending.settled (core_receiveMore _ _ _)

theorem Changes.takeReceive (h : Changes s c ms c') (ticket : Nat) :
    Changes s c ms (c'.takeReceive s ticket) := by
  unfold Connection.takeReceive
  split
  · exact h.receiveRound _ _
  · exact h.settled rfl

theorem changes_beginReceive (c : Connection) : Changes s c [] (c.beginReceive s) := by
  have hjoins : Changes s c [] c.inLine := .of_core rfl
  unfold beginReceive
  dsimp only
  split
  · exact hjoins.takeReceive _
  · exact hjoins

theorem Changes.failReceive (h : Changes s c ms c') (ticket : Nat) (e : EngineError) :
    Changes s c ms (c'.failReceive s ticket e) := by
  have hend : Changes s c ms ({ c' with readHalf := .gone }.endReceive ticket (.error e)) :=
    h.settled rfl
  unfold Connection.failReceive
  dsimp only
  split
  · exact hend.close
  · exact (hend.count rfl).close

theorem changes_stepDirect {ticket : Nat} (h : c.stepDirect s ticket w = some c') :
    Changes s c (Backoff.marks (c.asks (.wake (.direct ticket) w))) c' := by
  simp only [asks]
  generalize hcall : c.direct[ticket]? = call
  cases directStep_of h with
  | sends sending write =>
    cases hcall.symm.trans sending
    exact (changes_stepWrite write).settled (core_afterSend _ _ _)
  | enters locking held =>
    cases hcall.symm.trans locking
    exact Changes.refl.takeReceive ticket
  | stops paused closed =>
    cases hcall.symm.trans paused
    exact .of_core rfl
  | resumes paused due =>
    cases hcall.symm.trans paused
    exact .of_core (core_receiveMore _ _ _)
  | goes reading read =>
    cases hcall.symm.trans reading
    exact (changes_stepRead read).settled rfl
  | fails reading read =>
    cases hcall.symm.trans reading
    exact (changes_stepRead read).failReceive _ _
  | @hears _ _ c₁ d b reading read =>
    cases hcall.symm.trans reading
    have hpending : Changes s c _ { c₁ with pending := c₁.pending.append d } :=
      (changes_stepRead read).settled rfl
    exact hpending.receiveRound ticket b

/-! ## Steps -/

/-- A step is a chain of changes, and leaves its marks. -/
theorem changes_step {l : Label} (h : c.step s l = some c') : Changes s c (c.marks s l) c' := by
  cases step_of h with
  | ticks timers wall => exact .of_core rfl
  | starts loops => exact changes_start c loops
  | @obeys loops requested asked =>
    have hrequested : Changes s c [] { c with requested } := .of_core rfl
    exact hrequested.trans (changes_start _ loops)
  | closes => exact Changes.refl.close
  | sends live packed pushed => exact .single (.push pushed)
  | queues live pushed => exact .single (.push pushed)
  | refuses | rejects => exact .refl
  | sendsDirect frame => exact changes_beginSend c frame
  | receives => exact changes_beginReceive c
  | reader went => exact changes_stepReader went
  | writer went => rw [marks_of_dry rfl]; exact changes_stepWriter went
  | idler went => exact changes_stepIdler went
  | runner went => exact changes_stepRunner went
  | direct went => rw [marks_of_dry rfl]; exact changes_stepDirect went

end Connection
end FrameEngine
