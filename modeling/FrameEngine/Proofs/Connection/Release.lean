import FrameEngine.Proofs.Connection.Parts

/-!
# FrameEngine.Proofs.Connection.Release

What a connection still has of its stream when it is closed and its loops have ended. Closing drops
each part that nobody is at. What a loop has it drops when it ends, and the consumer's end of the
queue is always gone then (`ReaderHas`, `WriterHas`). But a half that a direct call is at when the
connection closes is left in its place: no one drops it afterwards but a loop that comes to it, or a
direct receive that cannot read. `released_of_loopsOver` says exactly when each half is gone.
-/

namespace FrameEngine

/-- The write loop has the consumer's end of the queue. -/
def WriteLoop.hasConsumer : WriteLoop → Bool
  | .paused _ | .receiving | .writing _ | .releasing => true
  | .absent | .fresh | .finished => false

theorem Lock.isFree_iff {k : Lock} : k.isFree = true ↔ k = .free :=
  ⟨Lock.eq_free, by rintro rfl; rfl⟩

def DirectCall.isAnswered : DirectCall → Bool
  | .answered _ => true
  | _ => false

namespace Connection

/-- Where the parts of the writing side are. -/
structure WriterHas (c : Connection) : Prop where
  fresh : c.started = false → c.writer = .absent
  taken : c.consumer = .taken ↔ c.writer.hasConsumer = true
  live : c.isClosed = false → c.writeHalf = .kept
  closed : c.isClosed = true → c.consumer ≠ .kept

/-- Where the read half is. -/
structure ReaderHas (c : Connection) : Prop where
  taken : c.readHalf = .taken → c.reader.buffer?.isSome = true
  live : c.isClosed = false → c.readHalf ≠ .gone
  ended : c.reader = .finished → c.readHalf = .gone

structure Accounted (c : Connection) : Prop where
  kept : Kept c
  writing : WriterHas c
  reading : ReaderHas c

/-- The write loop keeps what it has. -/
structure Bears (c c' : Connection) : Prop where
  taken : c.consumer = .taken → c'.consumer = .taken
  live : c'.isClosed = false → c.isClosed = false ∧ c'.writeHalf = c.writeHalf

/-- The write loop has ended and dropped what it had. -/
structure Emptied (c : Connection) : Prop where
  writer : c.writer = .finished
  half : c.writeHalf = .gone
  consumer : c.consumer = .gone
  closed : c.isClosed = true

/-- What the write loop comes to that has the consumer's end of the queue. -/
inductive Carries (c c' : Connection) : Prop where
  | goes (has : c'.writer.hasConsumer = true) (bears : Bears c c') : Carries c c'
  | ends (emptied : Emptied c') : Carries c c'

/-- A turn of the write loop. -/
inductive WriterTurn (s : Setup) (c c' : Connection) : Prop where
  | carries (has : c.writer.hasConsumer = true) (turn : Carries c c') : WriterTurn s c c'
  /-- It begins and takes the consumer's end of the queue. -/
  | takes (fresh : c.writer = .fresh) (kept : c.consumer = .kept)
      (has : c'.writer.hasConsumer = true) (rest : Leaves { c with consumer := .taken } c') :
      WriterTurn s c c'
  /-- It begins too late. -/
  | late {c₁ : Connection} (fresh : c.writer = .fresh) (away : c.consumer ≠ .kept)
      (calm : Calm s c c₁) (ended : c' = { c₁ with writer := .finished }) : WriterTurn s c c'

/-- Somewhere along the labels a direct receive finds that it cannot read. -/
inductive FailsAlong (s : Setup) : Connection → List Label → Prop where
  | now {c : Connection} {l : Label} {ls : List Label} (fails : ReadFails s c l) :
      FailsAlong s c (l :: ls)
  | later {c c' : Connection} {l : Label} {ls : List Label} (first : c.step s l = some c')
      (rest : FailsAlong s c' ls) : FailsAlong s c (l :: ls)

variable {s : Setup} {a b c c' c'' : Connection} {w : Wake} {l : Label} {ls : List Label}

/-! ## Turns of the write loop -/

theorem Bears.trans (h : Bears c c') (h' : Bears c' c'') : Bears c c'' := by
  refine ⟨fun hc => h'.taken (h.taken hc), fun hlive => ?_⟩
  obtain ⟨hlive', hhalf'⟩ := h'.live hlive
  obtain ⟨hlive'', hhalf⟩ := h.live hlive'
  exact ⟨hlive'', hhalf'.trans hhalf⟩

theorem Leaves.bears (h : Leaves c c') : Bears c c' :=
  ⟨fun hc => (congrFun h.part .consumer).trans hc, (h.sheds .writeHalf).live⟩

theorem Calm.bears (h : Calm s c c') : Bears c c' :=
  ⟨(h.parts .consumer).taken.2, (h.parts .writeHalf).live⟩

theorem Carries.after (h : Bears c c') (h' : Carries c' c'') : Carries c c'' := by
  cases h' with
  | goes has bears => exact .goes has (h.trans bears)
  | ends emptied => exact .ends emptied

theorem emptied_dropWriteHalf (c : Connection) : Emptied (c.dropWriteHalf s) := by
  have hclose := calm_close (s := s)
    { c with writeHalf := .gone, writeLock := c.writeLock.release }
  exact ⟨rfl, (hclose.parts .writeHalf).gone rfl, rfl,
    isClosed_close { c with writeHalf := .gone, writeLock := c.writeLock.release }⟩

theorem carries_exitWriter (c : Connection) : Carries c (c.exitWriter s) := by
  unfold exitWriter
  dsimp only
  split
  · exact .ends (emptied_dropWriteHalf _)
  · exact .goes rfl ⟨id, fun hlive => ⟨hlive, rfl⟩⟩

theorem hasConsumer_writerRound (c : Connection) : c.writerRound.writer.hasConsumer = true := by
  obtain ⟨limiter, writer, h, hw | ⟨resume, hw⟩⟩ := writerRound_eq c
  · rw [h, hw]; rfl
  · rw [h, hw]; rfl

theorem carries_writerRound (c : Connection) : Carries c c.writerRound :=
  .goes (hasConsumer_writerRound c) (leaves_writerRound c).bears

theorem carries_afterWrite {r : WriteProgress} (c : Connection)
    (hr : ∀ e, r = .ends (.error e) → e.isStream = true) : Carries c (c.afterWrite s r) := by
  unfold afterWrite
  split
  · exact .goes rfl ⟨id, fun hlive => ⟨hlive, rfl⟩⟩
  · have hrelease : Bears c { c with writeLock := c.writeLock.release } :=
      ⟨id, fun hlive => ⟨hlive, rfl⟩⟩
    dsimp only
    split
    · exact .after hrelease (carries_writerRound _)
    · exact .after (hrelease.trans (calm_reportStream _ (hr _ rfl)).bears) (carries_exitWriter _)

theorem writerTurn_of_stepWriter (h : c.stepWriter s w = some c') : WriterTurn s c c' := by
  cases writerStep_of h with
  | begins fresh kept =>
    exact .takes fresh kept (hasConsumer_writerRound _) (leaves_writerRound _)
  | lacks fresh apart => exact .late fresh apart (calm_close c) rfl
  | stops waits closed =>
    have hhas : c.writer.hasConsumer = true := by
      rcases waits with receiving | ⟨resume, paused⟩
      · rw [receiving]; rfl
      · rw [paused]; rfl
    exact .carries hhas (carries_exitWriter c)
  | resumes paused due => exact .carries (by rw [paused]; rfl) (carries_writerRound c)
  | @takes frame queue receiving live popped =>
    have hqueue : Leaves c { c with queue } := ⟨rfl, rfl⟩
    have hrequest := hqueue.trans (leaves_requestWrite (s := s) { c with queue } .loop frame)
    exact .carries (by rw [receiving]; rfl) (.after hrequest.bears
      (carries_afterWrite _ (requestWrite_eq { c with queue } .loop frame).2))
  | ends receiving live none => exact .carries (by rw [receiving]; rfl) (carries_exitWriter c)
  | goes writing write =>
    exact .carries (by rw [writing]; rfl) (.after (calm_stepWrite write).bears
      (carries_afterWrite _ fun e he => stream_of_stepWrite write he))
  | releases releasing held =>
    exact .carries (by rw [releasing]; rfl) (.ends (emptied_dropWriteHalf c))

/-! ## Turns of the read loop -/

theorem readerHas_exitReader (c : Connection) : ReaderHas (c.exitReader s) := by
  have hgone : (c.exitReader s).readHalf = .gone :=
    ((calm_close { c with readHalf := .gone }).parts .readHalf).gone rfl
  refine ⟨fun htaken => ?_, fun hlive => ?_, fun _ => hgone⟩
  · cases hgone.symm.trans htaken
  · cases (isClosed_exitReader c).symm.trans hlive

theorem readerHas_readerRound (hc : c.isClosed = false → c.readHalf ≠ .gone) (buffer : Accumulator)
    (backoff : Backoff) : ReaderHas (c.readerRound s buffer backoff) := by
  unfold readerRound
  split
  · exact readerHas_exitReader c
  · obtain ⟨taken, limiter, h⟩ := tryAcquire_eq c
    rw [h]
    cases taken with
    | true => exact ⟨fun _ => rfl, hc, nofun⟩
    | false => exact ⟨fun _ => rfl, hc, nofun⟩

theorem readerHas_takeReadHalf (hc : c.readHalf ≠ .taken) : ReaderHas (c.takeReadHalf s) := by
  unfold takeReadHalf
  dsimp only
  split
  · refine readerHas_readerRound (fun _ hgone => ?_) _ _
    cases hgone
  · rename_i hkept
    have hgone : c.readHalf = .gone := by
      cases h : c.readHalf with
      | kept => exact absurd h hkept
      | taken => exact absurd h hc
      | gone => rfl
    have hclose := (calm_close (s := s) { c with readLock := c.readLock.release }).parts .readHalf
    have hgone' := hclose.gone hgone
    refine ⟨fun htaken => ?_, fun hlive => ?_, fun _ => hgone'⟩
    · cases hgone'.symm.trans htaken
    · cases (isClosed_close _).symm.trans hlive

theorem readerHas_stepReader (hr : ReaderHas c) (h : c.stepReader s w = some c') :
    ReaderHas c' := by
  have hnone : c.reader.buffer? = none → c.readHalf ≠ .taken := by
    intro hb htaken
    have hsome := hr.taken htaken
    rw [hb] at hsome
    cases hsome
  have hlive : ∀ {c₁ : Connection}, Calm s c c₁ → c₁.isClosed = false → c₁.readHalf ≠ .gone := by
    intro c₁ hcalm hc hgone
    obtain ⟨hc', hsame⟩ := (hcalm.parts .readHalf).live hc
    exact hr.live hc' (hsame.symm.trans hgone)
  cases readerStep_of h with
  | begins fresh held => exact readerHas_takeReadHalf (hnone (by rw [fresh]; rfl))
  | queues fresh =>
    have htaken := hnone (by rw [fresh]; rfl)
    exact ⟨fun h => absurd h htaken, hr.live, nofun⟩
  | enters locking held => exact readerHas_takeReadHalf (hnone (by rw [locking]; rfl))
  | stops paused closed => exact readerHas_exitReader c
  | resumes paused due => exact readerHas_readerRound hr.live _ _
  | goes reading read =>
    have hread := hlive (calm_stepRead read)
    exact ⟨fun _ => rfl, hread, nofun⟩
  | fails reading read => exact readerHas_exitReader _
  | @hears _ _ buffer c₁ d b reading read =>
    have hdrain := (calm_stepRead read).trans (calm_drain c₁ (buffer.append d))
    exact readerHas_readerRound (hlive (hdrain.trans (calm_boundBuffer _ _))) _ _

/-! ## Steps -/

/-- A connection that has nobody at a part does not have it in its place once it is closed. -/
theorem Sheds.ne_kept {p : Part} (h : Sheds p c c') (free : c.isFree p = true)
    (hc : c.isClosed = true → c.part p ≠ .kept) (hc' : c'.isClosed = true) :
    c'.part p ≠ .kept := by
  cases h with
  | keeps stage same =>
    rw [same]
    exact hc (stage.symm.trans hc')
  | drops _ _ dropped =>
    rw [dropped, if_pos free]
    cases c.part p <;> nofun

theorem accounted_new (s : Setup) : Accounted (new s) :=
  ⟨kept_new s, ⟨fun _ => rfl, by simp [new, WriteLoop.hasConsumer], fun _ => rfl, nofun⟩,
    ⟨nofun, fun _ => nofun, nofun⟩⟩

theorem started_of_step (hk : Kept c) (h : c.step s l = some c') (hs : c'.started = false) :
    c.started = false := by
  obtain ⟨calls, hstretch⟩ := (advances_step false hk nofun nofun h).stretch
  refine Bool.eq_false_iff.2 fun hstarted => ?_
  cases hs.symm.trans (hstretch.course.started hstarted)

theorem fresh_step (hc : Accounted c) (h : c.step s l = some c') (hs : c'.started = false) :
    c'.writer = .absent := by
  have habsent := hc.writing.fresh (started_of_step hc.kept h hs)
  rcases l.eq_wake_or_ne .writer with ⟨w, rfl⟩ | hl
  · exact absurd habsent (writer_ne_absent h)
  · rcases writer_step h hl with hw | ⟨-, hs', -⟩
    · exact hw.trans habsent
    · cases hs.symm.trans hs'

theorem Emptied.writerHas (h : Emptied c) (fresh : c.started = false → c.writer = .absent) :
    WriterHas c := by
  refine ⟨fresh, ?_, fun hlive => ?_, fun _ => ?_⟩
  · rw [h.consumer, h.writer]; exact ⟨nofun, nofun⟩
  · cases h.closed.symm.trans hlive
  · rw [h.consumer]; nofun

/-- A write loop that goes on has the consumer's end of the queue, and the write half is where it
was as long as the connection is open. -/
theorem writerHas_of_goes (fresh : c.started = false → c.writer = .absent)
    (htaken : c.consumer = .taken) (has : c.writer.hasConsumer = true)
    (live : c.isClosed = false → c.writeHalf = .kept) : WriterHas c := by
  refine ⟨fresh, ⟨fun _ => has, fun _ => htaken⟩, live, fun _ => ?_⟩
  rw [htaken]; nofun

theorem WriterTurn.writerHas (h : WriterTurn s c c') (hw : WriterHas c)
    (fresh : c'.started = false → c'.writer = .absent) : WriterHas c' := by
  have hlive : Sheds .writeHalf c c' → c'.isClosed = false → c'.writeHalf = .kept := by
    intro hsheds hlive'
    obtain ⟨hlive, hhalf⟩ := hsheds.live hlive'
    exact hhalf.trans (hw.live hlive)
  cases h with
  | carries has turn =>
    cases turn with
    | goes has' bears =>
      refine writerHas_of_goes fresh (bears.taken (hw.taken.2 has)) has' fun hlive' => ?_
      obtain ⟨hlive, hhalf⟩ := bears.live hlive'
      exact hhalf.trans (hw.live hlive)
    | ends emptied => exact emptied.writerHas fresh
  | takes _ _ has rest =>
    have htakes : Sheds .writeHalf c { c with consumer := .taken } := .keeps rfl rfl
    exact writerHas_of_goes fresh (congrFun rest.part .consumer) has (hlive (htakes.leaves rest))
  | late hfresh away calm ended =>
    subst ended
    have htaken := (calm.parts .consumer).taken.trans hw.taken
    rw [hfresh] at htaken
    exact ⟨fresh, htaken, hlive ((calm.parts .writeHalf).leaves ⟨rfl, rfl⟩),
      (calm.parts .consumer).ne_kept rfl fun _ => away⟩

theorem writerHas_step (hc : Accounted c) (h : c.step s l = some c') : WriterHas c' := by
  have hw := hc.writing
  have hfresh := fresh_step hc h
  rcases l.eq_wake_or_ne .writer with ⟨w, rfl⟩ | hl
  · exact (writerTurn_of_stepWriter h).writerHas hw hfresh
  · have hconsumer : Sheds .consumer c c' := sheds_step h hl nofun
    have hhalf : Sheds .writeHalf c c' := sheds_step h hl nofun
    refine ⟨hfresh, hconsumer.taken.trans (hw.taken.trans ?_), fun hlive => ?_,
      hconsumer.ne_kept rfl hw.closed⟩
    · rcases writer_step h hl with hsame | ⟨hs, -, hsame⟩
      · rw [hsame]
      · rw [hsame, hw.fresh hs]; rfl
    · obtain ⟨hlive', hsame⟩ := hhalf.live hlive
      exact hsame.trans (hw.live hlive')

theorem readerHas_step (hc : Accounted c) (h : c.step s l = some c') : ReaderHas c' := by
  have hr := hc.reading
  rcases l.eq_wake_or_ne .reader with ⟨w, rfl⟩ | hl
  · exact readerHas_stepReader hr h
  · by_cases hfails : ReadFails s c l
    · obtain ⟨hclosed, hgone⟩ := gone_of_readFails h hfails
      refine ⟨fun htaken => ?_, fun hlive => ?_, fun _ => hgone⟩
      · cases hgone.symm.trans htaken
      · cases hclosed.symm.trans hlive
    · have hsheds : Sheds .readHalf c c' := sheds_step h hl fun _ => hfails
      refine ⟨fun htaken => ?_, fun hlive hgone => ?_, fun hended => hsheds.gone ?_⟩
      · have hbuffer := hr.taken (hsheds.taken.1 htaken)
        rcases reader_step h hl with hsame | ⟨hs, -⟩
        · rw [hsame]; exact hbuffer
        · have habsent : c.reader = .absent := by
            by_contra habsent
            cases hs.symm.trans (hc.kept.reads habsent)
          rw [habsent] at hbuffer
          cases hbuffer
      · obtain ⟨hlive', hsame⟩ := hsheds.live hlive
        exact hr.live hlive' (hsame.symm.trans hgone)
      · rcases reader_step h hl with hsame | ⟨-, hset | hset⟩
        · exact hr.ended (hsame.symm.trans hended)
        · cases hset.symm.trans hended
        · cases hset.symm.trans hended

theorem accounted_step (hc : Accounted c) (h : c.step s l = some c') : Accounted c' :=
  ⟨(advances_step false hc.kept nofun nofun h).kept, writerHas_step hc h, readerHas_step hc h⟩

theorem accounted_steps (run : Steps s a ls b) (ha : Accounted a) : Accounted b := by
  induction run with
  | nil c => exact ha
  | cons first _ ih => exact ih (accounted_step ha first)

/-! ## The writing side -/

/-- While the write loop has the consumer's end of the queue or the write half has been dropped, it
stays so. -/
theorem bound_step (hc : Accounted c) (h : c.step s l = some c')
    (hb : c.consumer = .taken ∨ c.writeHalf = .gone) :
    c'.consumer = .taken ∨ c'.writeHalf = .gone := by
  rcases l.eq_wake_or_ne .writer with ⟨w, rfl⟩ | hl
  · cases writerTurn_of_stepWriter h with
    | carries has turn =>
      cases turn with
      | goes _ bears => exact .inl (bears.taken (hc.writing.taken.2 has))
      | ends emptied => exact .inr emptied.half
    | takes _ _ _ rest => exact .inl (congrFun rest.part .consumer)
    | late fresh away calm ended =>
      subst ended
      exact hb.imp (calm.parts .consumer).taken.2 (calm.parts .writeHalf).gone
  · have hconsumer : Sheds .consumer c c' := sheds_step h hl nofun
    have hhalf : Sheds .writeHalf c c' := sheds_step h hl nofun
    exact hb.imp hconsumer.taken.2 hhalf.gone

theorem bound_steps (run : Steps s a ls b) (ha : Accounted a) :
    a.consumer = .taken ∨ a.writeHalf = .gone → b.consumer = .taken ∨ b.writeHalf = .gone := by
  induction run with
  | nil c => exact id
  | cons first _ ih => exact fun hb => ih (accounted_step ha first) (bound_step ha first hb)

/-- A write loop that does not have the consumer's end of the queue leaves the write half alone, and
it does not get it any more once the connection is closed. -/
theorem unbound_step (hc : Accounted c) (h : c.step s l = some c') (hn : c.consumer ≠ .taken) :
    Sheds .writeHalf c c' ∧ (c'.isClosed = true → c'.consumer ≠ .taken) := by
  rcases l.eq_wake_or_ne .writer with ⟨w, rfl⟩ | hl
  · cases writerTurn_of_stepWriter h with
    | carries has _ => exact absurd (hc.writing.taken.2 has) hn
    | takes _ kept _ rest =>
      have htakes : Sheds .writeHalf c { c with consumer := .taken } := .keeps rfl rfl
      exact ⟨htakes.leaves rest, fun hclosed =>
        absurd kept (hc.writing.closed (rest.isClosed.symm.trans hclosed))⟩
    | late fresh away calm ended =>
      subst ended
      exact ⟨(calm.parts .writeHalf).leaves ⟨rfl, rfl⟩, fun _ htaken =>
        hn ((calm.parts .consumer).taken.1 htaken)⟩
  · have hconsumer : Sheds .consumer c c' := sheds_step h hl nofun
    exact ⟨sheds_step h hl nofun, fun _ htaken => hn (hconsumer.taken.1 htaken)⟩

/-- Without the write loop, a write half in its place stays there once the connection is closed. -/
theorem unbound_steps (run : Steps s a ls b) (ha : Accounted a) (closed : a.isClosed = true) :
    a.consumer ≠ .taken → b.writeHalf = a.writeHalf := by
  induction run with
  | nil c => exact fun _ => rfl
  | cons first _ ih =>
    intro hn
    obtain ⟨hsheds, haway⟩ := unbound_step ha first hn
    obtain ⟨hclosed, hsame⟩ := hsheds.closed closed
    exact (ih (accounted_step ha first) hclosed (haway hclosed)).trans hsame

/-! ## The reading side -/

/-- Nobody but the read loop has turns of it, and it does not vanish. -/
theorem absent_of_step (hc : Accounted c) (h : c.step s l = some c')
    (habsent : c'.reader = .absent) :
    c.reader = .absent ∧ ∀ w, l ≠ .wake .reader w := by
  have hl : ∀ w, l ≠ .wake .reader w := by
    rintro w rfl
    exact (loopTurn_of_stepReader h).ne_absent.2 habsent
  refine ⟨?_, hl⟩
  rcases reader_step h hl with hsame | ⟨hs, -⟩
  · exact hsame.symm.trans habsent
  · by_contra hpresent
    cases hs.symm.trans (hc.kept.reads hpresent)

theorem absent_of_steps (run : Steps s a ls b) (ha : Accounted a) (habsent : b.reader = .absent) :
    a.reader = .absent := by
  induction run with
  | nil c => exact habsent
  | cons first _ ih => exact (absent_of_step ha first (ih (accounted_step ha first) habsent)).1

theorem failsAlong_cons (first : c.step s l = some c') :
    FailsAlong s c (l :: ls) ↔ ReadFails s c l ∨ FailsAlong s c' ls := by
  constructor
  · intro h
    cases h with
    | now fails => exact .inl fails
    | later first' rest =>
      cases first.symm.trans first'
      exact .inr rest
  · rintro (fails | rest)
    · exact .now fails
    · exact .later first rest

/-- Without a read loop, only a direct receive that cannot read drops the read half of a connection
that is closed. -/
theorem readHalf_steps (run : Steps s a ls b) (ha : Accounted a) (closed : a.isClosed = true)
    (habsent : b.reader = .absent) :
    b.readHalf = .gone ↔ a.readHalf = .gone ∨ FailsAlong s a ls := by
  induction run with
  | nil c => exact ⟨.inl, fun h => h.resolve_right nofun⟩
  | @cons a c b l ls first rest ih =>
    have hc := accounted_step ha first
    obtain ⟨-, hl⟩ := absent_of_step ha first (absent_of_steps rest hc habsent)
    rw [failsAlong_cons first]
    by_cases hfails : ReadFails s a l
    · obtain ⟨hclosed, hgone⟩ := gone_of_readFails first hfails
      rw [ih hc hclosed habsent]
      exact ⟨fun _ => .inr (.inl hfails), fun _ => .inl hgone⟩
    · have hsheds : Sheds .readHalf a c := sheds_step first hl fun _ => hfails
      obtain ⟨hclosed, hsame⟩ := hsheds.closed closed
      rw [ih hc hclosed habsent, show c.readHalf = a.readHalf from hsame]
      exact or_congr_right ⟨.inr, fun h => h.resolve_left hfails⟩

/-! ## What is left -/

theorem over_of_loopsOver (ended : c.loopsOver = true) :
    c.writer.hasConsumer = false ∧ (c.reader = .absent ∨ c.reader = .finished) := by
  simp only [loopsOver, Bool.and_eq_true, Bool.or_eq_true, decide_eq_true_eq] at ended
  obtain ⟨⟨hreader, hwriter⟩, -⟩ := ended
  refine ⟨?_, hreader⟩
  rcases hwriter with hw | hw <;> rw [hw] <;> rfl

theorem consumer_of_loopsOver (hc : Accounted c) (closed : c.isClosed = true)
    (ended : c.loopsOver = true) : c.consumer = .gone := by
  cases h : c.consumer with
  | kept => exact absurd h (hc.writing.closed closed)
  | taken =>
    have hhas := hc.writing.taken.1 h
    rw [(over_of_loopsOver ended).1] at hhas
    cases hhas
  | gone => rfl

/-- A part in its place is gone after the connection has closed if nobody was at it, and only
then. -/
theorem Sheds.gone_iff {p : Part} (h : Sheds p c c') (live : c.isClosed = false)
    (closed : c'.isClosed = true) (kept : c.part p = .kept) :
    c'.part p = .gone ↔ c.isFree p = true := by
  rw [h.closing live closed, kept]
  cases c.isFree p <;> simp [Keeping.dropKept]

section

variable {after : List Label} (ha : Accounted a) (live : a.isClosed = false)
  (closes : a.step s l = some b) (closed : b.isClosed = true) (run : Steps s b after c)
include ha live closes closed run

theorem writeHalf_gone_iff (gone : c.consumer = .gone) :
    c.writeHalf = .gone ↔ a.writeLock = .free ∨ a.consumer = .taken := by
  have hb := accounted_step ha closes
  -- A write loop at work drops the half when it ends; without one it goes with the closing or never.
  by_cases htaken : a.consumer = .taken
  · rcases bound_steps run hb (bound_step ha closes (.inl htaken)) with h | h
    · cases gone.symm.trans h
    · exact ⟨fun _ => .inr htaken, fun _ => h⟩
  · obtain ⟨hsheds, haway⟩ := unbound_step ha closes htaken
    have hgone : b.writeHalf = .gone ↔ a.writeLock.isFree = true :=
      hsheds.gone_iff live closed (ha.writing.live live)
    rw [unbound_steps run hb closed (haway closed), hgone, Lock.isFree_iff, or_iff_left htaken]

theorem readHalf_gone_iff (hreader : c.reader = .absent ∨ c.reader = .finished) :
    c.readHalf = .gone ↔
      a.readLock = .free ∨ c.reader ≠ .absent ∨ FailsAlong s a (l :: after) := by
  have hb := accounted_step ha closes
  rcases hreader with habsent | hended
  · have hbabsent := absent_of_steps run hb habsent
    obtain ⟨haabsent, hl⟩ := absent_of_step ha closes hbabsent
    rw [readHalf_steps run hb closed habsent, failsAlong_cons closes,
      or_iff_right (not_not.2 habsent)]
    -- The closing step may itself be the read that fails, whose receive has the lock.
    by_cases hfails : ReadFails s a l
    · have hgone := (gone_of_readFails closes hfails).2
      exact ⟨fun _ => .inr (.inl hfails), fun _ => .inl hgone⟩
    · have hkept : a.readHalf = .kept := by
        cases h : a.readHalf with
        | kept => rfl
        | taken =>
          have hbuffer := ha.reading.taken h
          rw [haabsent] at hbuffer
          cases hbuffer
        | gone => exact absurd h (ha.reading.live live)
      have hsheds : Sheds .readHalf a b := sheds_step closes hl fun _ => hfails
      have hgone : b.readHalf = .gone ↔ a.readLock.isFree = true :=
        hsheds.gone_iff live closed hkept
      rw [hgone, Lock.isFree_iff, or_iff_right hfails]
  · have hpresent : c.reader ≠ .absent := by rw [hended]; nofun
    exact ⟨fun _ => .inr (.inl hpresent), fun _ =>
      (accounted_steps run hb).reading.ended hended⟩

end

/-- The step `l` closes the connection, and later its loops are over. The consumer's end of the
queue is gone then. The write half is gone if nobody was at it or in line for it when the connection
closed, or if the write loop was at work, and otherwise it is there still. The read half is gone if
nobody was at it or in line for it, if there was a read loop, or if a direct receive found that it
could not read, and otherwise it is there still. -/
theorem released_of_loopsOver {before after : List Label} (reach : Steps s (new s) before a)
    (live : a.isClosed = false) (closes : a.step s l = some b) (closed : b.isClosed = true)
    (run : Steps s b after c) (ended : c.loopsOver = true) :
    c.consumer = .gone ∧
      (c.writeHalf = .gone ↔ a.writeLock = .free ∨ a.consumer = .taken) ∧
      (c.readHalf = .gone ↔
        a.readLock = .free ∨ c.reader ≠ .absent ∨ FailsAlong s a (l :: after)) := by
  have ha := accounted_steps reach (accounted_new s)
  have hb := accounted_step ha closes
  obtain ⟨calls, hstretch⟩ := (advances_steps false run hb.kept nofun nofun).stretch
  have hclosed : c.isClosed = true := hstretch.isClosed hb.kept.settled closed
  have hgone := consumer_of_loopsOver (accounted_steps run hb) hclosed ended
  exact ⟨hgone, writeHalf_gone_iff ha live closes closed run hgone,
    readHalf_gone_iff ha live closes closed run (over_of_loopsOver ended).2⟩

/-- All loops run, and a direct send is at the write half when the connection is closed: the write
loop waits for it and drops the half then. -/
theorem released_of_loopsOver_of_sending :
    let s : Setup :=
      { id := 1, peer := none, localAddress := none, framing := .field 64,
        settings := { ConnectionSettings.standard with rateLimit := .zero false },
        handler := .quiet, chance := fun _ delay => delay }
    let before : List Label :=
      [.start .full, .wake .reader .go, .wake .writer .go, .wake .idler .go,
        .sendDirect [0, 0, 0, 16, 0, 0, 0, 1, 0, 0, 0, 1, 0, 0, 0, 0]]
    let after : List Label :=
      [.wake .reader .cancelled, .wake .writer .cancelled, .wake .idler .cancelled,
        .wake (.direct 0) .cancelled, .wake .writer .go]
    ∃ a b c, Steps s (new s) before a ∧ a.isClosed = false ∧ a.step s .close = some b ∧
      b.isClosed = true ∧ Steps s b after c ∧ c.loopsOver = true ∧
      c.consumer = .gone ∧ c.writeHalf = .gone ∧ c.readHalf = .gone := by
  intro s before after
  have hseen : ((follow s (new s) before).bind fun a =>
      (follow s (a.close s) after).map fun c =>
        ((a.isClosed, (a.close s).isClosed, c.loopsOver), a.consumer, c.reader)) =
      some ((false, true, true), .taken, .finished) := by
    decide +kernel
  obtain ⟨a, ha, hrest⟩ := Option.bind_eq_some_iff.1 hseen
  obtain ⟨c, hc, heq⟩ := Option.map_eq_some_iff.1 hrest
  obtain ⟨hstages, htaken, hended⟩ := Prod.mk.inj heq |>.imp_right Prod.mk.inj
  obtain ⟨hlive, hclosed, hover⟩ := Prod.mk.inj hstages |>.imp_right Prod.mk.inj
  have hpresent : c.reader ≠ .absent := by rw [hended]; nofun
  have hstep : a.step s .close = some (a.close s) := rfl
  obtain ⟨hconsumer, hwrite, hread⟩ := released_of_loopsOver (steps_of_follow ha) hlive hstep
    hclosed (steps_of_follow hc) hover
  exact ⟨a, a.close s, c, steps_of_follow ha, hlive, hstep, hclosed, steps_of_follow hc, hover,
    hconsumer, hwrite.2 (.inr htaken), hread.2 (.inr (.inl hpresent))⟩

/-- One token, which the first of two direct receives has used. The connection is closed while the
second waits for a token and a direct send is at the stream: both are told so, and both halves are
in their places still. -/
theorem halves_left_when_closed :
    let s : Setup :=
      { id := 1, peer := none, localAddress := none, framing := .field 64,
        settings :=
          { ConnectionSettings.standard with rateLimit := .ofNat 1, rateBurst := 1 },
        handler := .quiet, chance := fun _ delay => delay }
    let ls : List Label :=
      [.receiveDirect,
        .wake (.direct 0) (.read (.ok [0, 0, 0, 16, 0, 0, 0, 1, 0, 0, 0, 1, 0, 0, 0, 0])),
        .receiveDirect, .sendDirect [0, 0, 0, 16, 0, 0, 0, 1, 0, 0, 0, 2, 0, 0, 0, 0], .close,
        .wake (.direct 1) .cancelled, .wake (.direct 2) .cancelled]
    ∃ c, Steps s (new s) ls c ∧ c.stage = .closed ∧ c.loopsOver = true ∧
      (∀ d ∈ c.direct, d.isAnswered = true) ∧ c.readHalf = .kept ∧ c.writeHalf = .kept := by
  intro s ls
  have hseen : (follow s (new s) ls).map (fun c =>
      ((c.stage, c.loopsOver, c.direct.all DirectCall.isAnswered), c.readHalf, c.writeHalf)) =
      some ((.closed, true, true), .kept, .kept) := by
    decide +kernel
  obtain ⟨c, hrun, hc⟩ := Option.map_eq_some_iff.1 hseen
  obtain ⟨hends, hread, hwrite⟩ := Prod.mk.inj hc |>.imp_right Prod.mk.inj
  obtain ⟨hclosed, hover, hanswered⟩ := Prod.mk.inj hends |>.imp_right Prod.mk.inj
  exact ⟨c, steps_of_follow hrun, hclosed, hover, List.all_eq_true.1 hanswered, hread, hwrite⟩

end Connection
end FrameEngine
