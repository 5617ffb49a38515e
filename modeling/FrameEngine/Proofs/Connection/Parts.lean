import FrameEngine.Proofs.Connection.Calm
import FrameEngine.Proofs.Connection.Intake
import FrameEngine.Proofs.Connection.Wire

/-!
# FrameEngine.Proofs.Connection.Parts

What the steps of a connection do to the halves of its stream and to the consumer's end of its
queue. A part is spared by all that do not use it: it stays where it is, and so does its lock, unless
the connection closes (`Spares`). Readers spare the writing side and writers the read half, so a
step that is not one of the loop that may take a part sheds it at most (`sheds_step`), with one
exception: a direct receive that cannot read drops the read half (`ReadFails`). Likewise only a
loop's own turns move it on (`writer_step`, `reader_step`).
-/

namespace FrameEngine

/-- A label is a turn of a task or it is not. -/
theorem Label.eq_wake_or_ne (l : Label) (task : Task) :
    (∃ w, l = .wake task w) ∨ ∀ w, l ≠ .wake task w := by
  by_cases h : ∃ w, l = .wake task w
  · exact .inl h
  · exact .inr fun w hw => h ⟨w, hw⟩

namespace Connection

/-- A part is shed at most, and its lock is not passed on. -/
structure Spares (p : Part) (c c' : Connection) : Prop where
  free : c'.isFree p = c.isFree p
  sheds : Sheds p c c'

/-- No part is touched, though locks may have been passed on. -/
structure Leaves (c c' : Connection) : Prop where
  stage : c'.stage = c.stage
  part : c'.part = c.part

/-- The loop that may take a part for good. -/
def Part.loop : Part → Task
  | .readHalf => .reader
  | .writeHalf | .consumer => .writer

/-- A direct receive finds that it cannot read. -/
inductive ReadFails (s : Setup) (c : Connection) : Label → Prop where
  | intro {ticket : Nat} {job : ReadJob} {w : Wake} {c₁ : Connection} {e : EngineError}
      (reading : c.direct[ticket]? = some (.reading job))
      (fails : c.stepRead s job w = some (c₁, .fails e)) : ReadFails s c (.wake (.direct ticket) w)

variable {s : Setup} {c c' c'' : Connection} {p : Part} {w : Wake}

namespace Leaves

theorem refl (c : Connection) : Leaves c c := ⟨rfl, rfl⟩

theorem trans (h : Leaves c c') (h' : Leaves c' c'') : Leaves c c'' :=
  ⟨h'.stage.trans h.stage, h'.part.trans h.part⟩

theorem isClosed (h : Leaves c c') : c'.isClosed = c.isClosed := by
  rw [Connection.isClosed, Connection.isClosed, h.stage]

theorem sheds (h : Leaves c c') (p : Part) : Sheds p c c' :=
  .keeps h.isClosed (congrFun h.part p)

end Leaves

namespace Sheds

theorem leaves (h : Sheds p c c') (h' : Leaves c' c'') : Sheds p c c'' := by
  have hsame : c''.part p = c'.part p := congrFun h'.part p
  cases h with
  | keeps stage same => exact .keeps (h'.isClosed.trans stage) (hsame.trans same)
  | drops live closed dropped =>
    exact .drops live (h'.isClosed.trans closed) (hsame.trans dropped)

/-- In a connection that is open still, the part is where it was. -/
theorem live (h : Sheds p c c') (hc : c'.isClosed = false) :
    c.isClosed = false ∧ c'.part p = c.part p := by
  cases h with
  | keeps stage same => exact ⟨stage.symm.trans hc, same⟩
  | drops _ closed _ => cases closed.symm.trans hc

theorem taken (h : Sheds p c c') : c'.part p = .taken ↔ c.part p = .taken := by
  cases h with
  | keeps _ same => rw [same]
  | drops _ _ dropped =>
    rw [dropped]
    cases c.part p <;> split <;> simp [Keeping.dropKept]

theorem gone (h : Sheds p c c') (hc : c.part p = .gone) : c'.part p = .gone := by
  cases h with
  | keeps _ same => exact same.trans hc
  | drops _ _ dropped =>
    rw [dropped, hc]
    split <;> rfl

/-- A connection that closes drops what nobody is at. -/
theorem closing (h : Sheds p c c') (live : c.isClosed = false) (closed : c'.isClosed = true) :
    c'.part p = if c.isFree p then (c.part p).dropKept else c.part p := by
  cases h with
  | keeps stage _ => cases (stage.trans live).symm.trans closed
  | drops _ _ dropped => exact dropped

end Sheds

namespace Spares

theorem trans (h : Spares p c c') (h' : Spares p c' c'') : Spares p c c'' :=
  ⟨h'.free.trans h.free, h.sheds.trans h'.sheds h.free⟩

/-- What no closing looks at has changed. -/
theorem of_same (free : c'.isFree p = c.isFree p) (stage : c'.isClosed = c.isClosed)
    (same : c'.part p = c.part p) : Spares p c c' :=
  ⟨free, .keeps stage same⟩

/-- What a reader does to its half and the lock of it. -/
theorem reads (hp : p ≠ .readHalf) (c : Connection) {half : Keeping} {lock : Lock} :
    Spares p c { c with readHalf := half, readLock := lock } := by
  cases p with
  | readHalf => exact absurd rfl hp
  | writeHalf => exact .of_same rfl rfl rfl
  | consumer => exact .of_same rfl rfl rfl

end Spares

theorem Calm.spares (h : Calm s c c') (p : Part) : Spares p c c' := ⟨h.isFree p, h.parts p⟩

/-! ## The read loop -/

section

variable (hp : p ≠ .readHalf)
include hp

theorem spares_exitReader (c : Connection) : Spares p c (c.exitReader s) := by
  have hgone : Spares p c { c with readHalf := .gone } := .reads hp c
  exact (hgone.trans ((calm_close _).spares p)).trans (.of_same rfl rfl rfl)

theorem spares_readerRound (c : Connection) (buffer : Accumulator) (b : Backoff) :
    Spares p c (c.readerRound s buffer b) := by
  unfold readerRound
  split
  · exact spares_exitReader hp c
  · obtain ⟨taken, limiter, h⟩ := tryAcquire_eq c
    rw [h]
    cases taken <;> exact .of_same rfl rfl rfl

theorem spares_takeReadHalf (c : Connection) : Spares p c (c.takeReadHalf s) := by
  unfold takeReadHalf
  dsimp only
  split
  · exact (Spares.reads hp c).trans (spares_readerRound hp _ _ _)
  · have hrelease : Spares p c { c with readLock := c.readLock.release } := .reads hp c
    exact (hrelease.trans ((calm_close _).spares p)).trans (.of_same rfl rfl rfl)

theorem spares_stepReader (h : c.stepReader s w = some c') : Spares p c c' := by
  have hrequest : Spares p c { c with readLock := c.readLock.request .loop } := .reads hp c
  cases readerStep_of h with
  | begins fresh held => exact hrequest.trans (spares_takeReadHalf hp _)
  | queues fresh => exact hrequest.trans (.of_same rfl rfl rfl)
  | enters locking held => exact spares_takeReadHalf hp c
  | stops paused closed => exact spares_exitReader hp c
  | resumes paused due => exact spares_readerRound hp _ _ _
  | goes reading read => exact ((calm_stepRead read).spares p).trans (.of_same rfl rfl rfl)
  | @fails _ _ _ c₁ e reading read =>
    have hexit := (calm_stepRead read).trans (calm_reportExit c₁ (idle_of_stepRead read))
    exact (hexit.spares p).trans (spares_exitReader hp _)
  | @hears _ _ buffer c₁ d b reading read =>
    have hdrain := (calm_stepRead read).trans (calm_drain c₁ (buffer.append d))
    exact ((hdrain.trans (calm_boundBuffer _ _)).spares p).trans (spares_readerRound hp _ _ _)

/-- A direct receive that cannot read drops the read half and nothing else. -/
theorem spares_failReceive (c : Connection) (ticket : Nat) (e : EngineError) :
    Spares p c (c.failReceive s ticket e) := by
  have hend : Spares p c ({ c with readHalf := .gone }.endReceive ticket (.error e)) :=
    (Spares.reads hp c).trans (.of_same rfl rfl rfl)
  unfold failReceive
  dsimp only
  split
  · exact hend.trans ((calm_close _).spares p)
  · exact hend.trans (((Calm.record _ .error).trans (calm_close _)).spares p)

end

/-! ## The write loop -/

theorem spares_dropWriteHalf (c : Connection) : Spares .readHalf c (c.dropWriteHalf s) := by
  have hgone : Spares .readHalf c { c with writeHalf := .gone, writeLock := c.writeLock.release } :=
    .of_same rfl rfl rfl
  exact (hgone.trans ((calm_close _).spares _)).trans (.of_same rfl rfl rfl)

theorem spares_exitWriter (c : Connection) : Spares .readHalf c (c.exitWriter s) := by
  have hrequest : Spares .readHalf c { c with writeLock := c.writeLock.request .loop } :=
    .of_same rfl rfl rfl
  unfold exitWriter
  dsimp only
  split
  · exact hrequest.trans (spares_dropWriteHalf _)
  · exact .of_same rfl rfl rfl

/-- A round of the write loop takes a token or waits for one. -/
theorem writerRound_eq (c : Connection) : ∃ limiter writer,
    c.writerRound = { c with limiter, writer } ∧
      (writer = .receiving ∨ ∃ resume, writer = .paused resume) := by
  obtain ⟨taken, limiter, h⟩ := tryAcquire_eq c
  unfold writerRound
  rw [h]
  cases taken with
  | true => exact ⟨limiter, _, rfl, .inl rfl⟩
  | false => exact ⟨limiter, _, rfl, .inr ⟨_, rfl⟩⟩

theorem leaves_writerRound (c : Connection) : Leaves c c.writerRound := by
  obtain ⟨limiter, writer, h, -⟩ := writerRound_eq c
  rw [h]
  exact ⟨rfl, rfl⟩

theorem spares_writerRound (c : Connection) : Spares .readHalf c c.writerRound := by
  obtain ⟨limiter, writer, h, -⟩ := writerRound_eq c
  rw [h]
  exact .of_same rfl rfl rfl

theorem spares_afterWrite {r : WriteProgress} (c : Connection)
    (hr : ∀ e, r = .ends (.error e) → e.isStream = true) :
    Spares .readHalf c (c.afterWrite s r) := by
  unfold afterWrite
  split
  · exact .of_same rfl rfl rfl
  · have hrelease : Spares .readHalf c { c with writeLock := c.writeLock.release } :=
      .of_same rfl rfl rfl
    dsimp only
    split
    · exact hrelease.trans (spares_writerRound _)
    · exact (hrelease.trans ((calm_reportStream _ (hr _ rfl)).spares _)).trans
        (spares_exitWriter _)

theorem spares_requestWrite (c : Connection) (o : Owner) (frame : Octets) :
    Spares .readHalf c (c.requestWrite s o frame).1 := by
  unfold requestWrite
  dsimp only
  split <;> exact .of_same rfl rfl rfl

theorem spares_stepWriter (h : c.stepWriter s w = some c') : Spares .readHalf c c' := by
  cases writerStep_of h with
  | begins fresh kept =>
    have htaken : Spares .readHalf c { c with consumer := .taken } := .of_same rfl rfl rfl
    exact htaken.trans (spares_writerRound _)
  | lacks fresh apart => exact ((calm_close c).spares _).trans (.of_same rfl rfl rfl)
  | stops waits closed => exact spares_exitWriter c
  | resumes paused due => exact spares_writerRound c
  | @takes frame queue receiving live popped =>
    have hqueue : Spares .readHalf c { c with queue } := .of_same rfl rfl rfl
    exact (hqueue.trans (spares_requestWrite { c with queue } .loop frame)).trans
      (spares_afterWrite _ (requestWrite_eq { c with queue } .loop frame).2)
  | ends receiving live none => exact spares_exitWriter c
  | goes writing write =>
    exact ((calm_stepWrite write).spares _).trans
      (spares_afterWrite _ fun e he => stream_of_stepWrite write he)
  | releases releasing held => exact spares_dropWriteHalf c

/-! ## Watching and running -/

theorem spares_stepIdler (h : c.stepIdler s w = some c') : Spares p c c' := by
  obtain ⟨c₁, idler, hcalm, rfl⟩ := calm_stepIdler h
  exact (hcalm.spares p).trans (.of_same rfl rfl rfl)

theorem spares_stepRunner (h : c.stepRunner s w = some c') : Spares p c c' := by
  obtain ⟨c₁, hcalm, rfl⟩ := calm_stepRunner h
  exact (hcalm.spares p).trans (.of_same rfl rfl rfl)

theorem spares_start (c : Connection) (loops : LoopSet) : Spares p c (c.start s loops) := by
  rcases calm_start (s := s) c loops with hcalm | ⟨c₁, reader, writer, idler, runner, hcalm, hstart⟩
  · exact hcalm.spares p
  · have hstarted : Spares p c { c with started := true } := .of_same rfl rfl rfl
    rw [hstart]
    exact (hstarted.trans (hcalm.spares p)).trans (.of_same rfl rfl rfl)

/-! ## Direct calls -/

theorem leaves_afterSend (c : Connection) (ticket : Nat) (r : WriteProgress) :
    Leaves c (c.afterSend ticket r) := by
  cases r <;> exact ⟨rfl, rfl⟩

theorem leaves_requestWrite (c : Connection) (o : Owner) (frame : Octets) :
    Leaves c (c.requestWrite s o frame).1 := by
  unfold requestWrite
  dsimp only
  split <;> exact ⟨rfl, rfl⟩

theorem leaves_beginSend (c : Connection) (frame : Octets) : Leaves c (c.beginSend s frame) := by
  have hbegin : Leaves c { c with direct := c.direct ++ [DirectCall.locking] } := ⟨rfl, rfl⟩
  exact (hbegin.trans (leaves_requestWrite _ _ _)).trans (leaves_afterSend _ _ _)

theorem leaves_receivePending (c : Connection) : Leaves c (c.receivePending s).1 := by
  unfold receivePending
  split
  · exact .refl c
  · split
    · split <;> exact ⟨rfl, rfl⟩
    · split
      · dsimp only
        split <;> exact ⟨rfl, rfl⟩
      · exact ⟨rfl, rfl⟩

theorem leaves_receiveMore (c : Connection) (ticket : Nat) (b : Backoff) :
    Leaves c (c.receiveMore s ticket b) := by
  obtain ⟨call, limiter, h, -⟩ := receiveMore_eq (s := s) c ticket b
  rw [h]
  exact ⟨rfl, rfl⟩

theorem leaves_receiveRound (c : Connection) (ticket : Nat) (b : Backoff) :
    Leaves c (c.receiveRound s ticket b) := by
  have hpending := leaves_receivePending (s := s) c
  unfold receiveRound
  split <;> rename_i h <;> rw [h] at hpending
  · exact hpending.trans ⟨rfl, rfl⟩
  · exact hpending.trans (leaves_receiveMore _ _ _)

theorem leaves_takeReceive (c : Connection) (ticket : Nat) :
    Leaves c (c.takeReceive s ticket) := by
  unfold takeReceive
  split
  · exact leaves_receiveRound _ _ _
  · exact ⟨rfl, rfl⟩

theorem leaves_beginReceive (c : Connection) : Leaves c (c.beginReceive s) := by
  have hjoins : Leaves c c.inLine := ⟨rfl, rfl⟩
  unfold beginReceive
  dsimp only
  split
  · exact hjoins.trans (leaves_takeReceive _ _)
  · exact hjoins

theorem failReceive_readHalf (c : Connection) (ticket : Nat) (e : EngineError) :
    (c.failReceive s ticket e).isClosed = true ∧ (c.failReceive s ticket e).readHalf = .gone := by
  have hclose : ∀ c : Connection, c.readHalf = .gone →
      (c.close s).isClosed = true ∧ (c.close s).readHalf = .gone :=
    fun c hc => ⟨isClosed_close c, ((calm_close c).parts .readHalf).gone hc⟩
  unfold failReceive
  dsimp only
  split
  · exact hclose _ rfl
  · exact hclose _ rfl

/-- A direct call sheds a part at most, if it can read. -/
theorem sheds_stepDirect {ticket : Nat} (h : c.stepDirect s ticket w = some c')
    (reads : p = .readHalf → ¬ ReadFails s c (.wake (.direct ticket) w)) : Sheds p c c' := by
  cases directStep_of h with
  | sends sending write => exact ((calm_stepWrite write).parts p).leaves (leaves_afterSend _ _ _)
  | enters locking held => exact (leaves_takeReceive c ticket).sheds p
  | stops paused closed => exact .keeps rfl rfl
  | resumes paused due => exact (leaves_receiveMore c ticket _).sheds p
  | goes reading read => exact ((calm_stepRead read).parts p).leaves ⟨rfl, rfl⟩
  | fails reading read =>
    have hp : p ≠ .readHalf := fun hp => reads hp ⟨reading, read⟩
    exact (((calm_stepRead read).spares p).trans (spares_failReceive hp _ _ _)).sheds
  | @hears _ _ c₁ d b reading read =>
    have hpending : Leaves c₁ { c₁ with pending := c₁.pending.append d } := ⟨rfl, rfl⟩
    exact ((calm_stepRead read).parts p).leaves (hpending.trans (leaves_receiveRound _ _ _))

theorem gone_of_readFails {l : Label} (h : c.step s l = some c') (hl : ReadFails s c l) :
    c'.isClosed = true ∧ c'.readHalf = .gone := by
  obtain ⟨reading, fails⟩ := hl
  simp only [step, stepTask, stepDirect, reading, fails] at h
  cases h
  exact failReceive_readHalf _ _ _

/-! ## The loops -/

/-- A run that begins sets the write loop up. -/
theorem writer_start (c : Connection) (loops : LoopSet) :
    (c.start s loops).writer = c.writer ∨ c.started = false ∧ (c.start s loops).started = true ∧
      (c.start s loops).writer = .fresh := by
  rcases start_cases (s := s) c loops with h | ⟨hfresh, c₁, htold, hlooped⟩
  · exact .inl h.writer
  · exact .inr ⟨hfresh, (congrArg Outlet.started hlooped).trans htold.started,
      congrArg Outlet.writer hlooped⟩

theorem writer_stepDirect {ticket : Nat} (h : c.stepDirect s ticket w = some c') :
    c'.writer = c.writer := by
  cases directStep_of h with
  | sends sending write => exact (writer_afterSend _ _ _).trans (calm_stepWrite write).writer
  | enters other | stops other | resumes other | goes other | fails other | hears other =>
    exact (quiet_stepDirect (fun job hj => by cases hj.symm.trans other) h).writer

/-- Only its own turns move the write loop on. -/
theorem writer_step {l : Label} (h : c.step s l = some c') (hl : ∀ w, l ≠ .wake .writer w) :
    c'.writer = c.writer ∨ c.started = false ∧ c'.started = true ∧ c'.writer = .fresh := by
  cases step_of h with
  | ticks | sends | queues | refuses | rejects => exact .inl rfl
  | starts loops => exact writer_start c loops
  | @obeys loops requested asked => exact writer_start { c with requested } loops
  | closes => exact .inl (quiet_close c).writer
  | sendsDirect frame => exact .inl (writer_beginSend c frame)
  | receives => exact .inl (quiet_beginReceive c).writer
  | reader went => exact .inl (quiet_stepReader went).writer
  | writer => exact absurd rfl (hl _)
  | idler went => exact .inl (quiet_stepIdler went).writer
  | runner went => exact .inl (quiet_stepRunner went).writer
  | direct went => exact .inl (writer_stepDirect went)

theorem Receipt.reader {ticket : Nat} (h : Receipt s c ticket c') : c'.reader = c.reader := by
  cases h with
  | waits _ _ rest => exact rest.reader
  | answers _ rest => exact rest.reader
  | fails _ _ _ rest => exact rest.reader

/-- Only its own turns move the read loop on. -/
theorem reader_step {l : Label} (h : c.step s l = some c') (hl : ∀ w, l ≠ .wake .reader w) :
    c'.reader = c.reader ∨ c.started = false ∧ (c'.reader = .fresh ∨ c'.reader = .absent) := by
  cases intake_of_step h with
  | still _ _ rest => exact .inl rest.reader
  | begins _ _ fresh set rest =>
    have hreader : c'.reader = _ := rest.reader
    exact .inr ⟨fresh, hreader ▸ set⟩
  | sends _ rest => exact .inl rest.reader
  | drives _ _ _ rest => exact .inl rest.reader
  | loops => exact absurd rfl (hl _)
  | joins rest => exact .inl rest.reader
  | enters _ receipt => exact .inl receipt.reader
  | goes _ _ receipt => exact .inl receipt.reader
  | gets _ _ receipt => exact .inl receipt.reader

theorem Onward.ne_absent {half half' : Keeping} {buffer : Octets} {reader : ReadLoop}
    (h : Onward half buffer c' half' reader) : reader ≠ .absent := by
  cases h with
  | goes left =>
    rintro rfl
    cases left
  | ends => exact nofun

/-- A read loop that takes turns does not vanish. -/
theorem LoopTurn.ne_absent (h : LoopTurn s c w c') :
    c.reader ≠ .absent ∧ c'.reader ≠ .absent := by
  have hbuffer : ∀ {buffer : Octets}, c.reader.buffer? = some buffer → c.reader ≠ .absent := by
    intro buffer hb habsent
    rw [habsent] at hb
    cases hb
  cases h with
  | asks fresh rest => exact ⟨by rw [fresh]; nofun, by rw [rest.reader]; nofun⟩
  | takes turn _ _ next rest =>
    refine ⟨?_, ?_⟩
    · rcases turn with ⟨hr, -⟩ | ⟨hr, -⟩ <;> rw [hr] <;> nofun
    · rw [rest.reader]
      rcases next with hn | ⟨rfl, -⟩
      · rintro rfl
        cases hn
      · nofun
  | waits _ has next rest => exact ⟨hbuffer has, by rw [rest.reader]; exact next.ne_absent⟩
  | hears _ has _ _ _ _ next rest =>
    exact ⟨hbuffer has, by rw [rest.reader]; exact next.ne_absent⟩

/-! ## Steps -/

/-- Whatever happens but a turn of its loop sheds a part at most, if direct receives can read. -/
theorem sheds_step {l : Label} (h : c.step s l = some c') (apart : ∀ w, l ≠ .wake p.loop w)
    (reads : p = .readHalf → ¬ ReadFails s c l) : Sheds p c c' := by
  cases step_of h with
  | ticks | sends | queues | refuses | rejects => exact .keeps rfl rfl
  | starts loops => exact (spares_start c loops).sheds
  | @obeys loops requested asked =>
    have hrequested : Spares p c { c with requested } := .of_same rfl rfl rfl
    exact (hrequested.trans (spares_start _ loops)).sheds
  | closes => exact (calm_close c).parts p
  | sendsDirect frame => exact (leaves_beginSend c frame).sheds p
  | receives => exact (leaves_beginReceive c).sheds p
  | @reader w _ went =>
    have hp : p ≠ .readHalf := by
      rintro rfl
      exact apart w rfl
    exact (spares_stepReader hp went).sheds
  | @writer w _ went =>
    cases p with
    | readHalf => exact (spares_stepWriter went).sheds
    | writeHalf => exact absurd rfl (apart w)
    | consumer => exact absurd rfl (apart w)
  | idler went => exact (spares_stepIdler went).sheds
  | runner went => exact (spares_stepRunner went).sheds
  | direct went => exact sheds_stepDirect went reads

end Connection
end FrameEngine
