import FrameEngine.Proofs.Connection.Calm

/-!
# FrameEngine.Proofs.Connection.Ages

What any function of a connection does to its measures: the clocks stand, the last activity is never
set back, and tokens may be taken from the limiter. Silence is reported as in `Calm`, and a direct
call is answered with it only when it has lasted long enough. There is one lemma for each function,
and `ages_step` for a step, of which only a tick moves the clocks.
-/

namespace FrameEngine

/-- The bucket after tokens have been asked for at a time, any number of times. -/
abbrev TokenBucket.Spends (now : Nat) : TokenBucket → TokenBucket → Prop :=
  Relation.ReflTransGen fun b b' => b' = (b.tryAcquire now).2

/-- How far a label takes the clock of the timers. -/
def Label.timerTime : Label → Span
  | .tick timers _ => timers
  | _ => 0

/-- How far a label takes the clock of silence and tokens. -/
def Label.wallTime : Label → Span
  | .tick _ wall => wall
  | _ => 0

namespace Connection

/-- The direct call with this number has been answered that the connection is silent. -/
def AnswersSilence (c : Connection) (ticket : Nat) : Prop :=
  c.direct[ticket]? = some (.answered (.error .idleTimeout))

/-- The clocks have stood still. -/
structure Ages (s : Setup) (c c' : Connection) : Prop where
  now : c'.now = c.now
  wall : c'.wall = c.wall
  limiter : TokenBucket.Spends c.wall c.limiter c'.limiter
  later : c.lastActive ≤ c'.lastActive
  silence : Hushes s c c'
  answers : ∀ ticket, c'.AnswersSilence ticket →
    c.AnswersSilence ticket ∨ s.settings.idleTimeout ≤ c.idleFor

/-- What a connection is measured by, and those who are told. -/
structure Gauges where
  now : Span
  wall : Span
  limiter : TokenBucket
  lastActive : Nat
  silenced : Bool
  history : List Moment
  direct : List DirectCall

def gauges (c : Connection) : Gauges :=
  ⟨c.now, c.wall, c.limiter, c.lastActive, c.silenced, c.history, c.direct⟩

variable {s : Setup} {c c' c'' c₁ : Connection}

theorem Calm.ages (h : Calm s c c') : Ages s c c' := by
  refine ⟨h.now, h.wall, h.limiter ▸ .refl, h.later, h.silence, fun ticket ht => .inl ?_⟩
  rwa [AnswersSilence, ← h.direct]

namespace Ages

theorem of_gauges (h : c'.gauges = c.gauges) : Ages s c c' := by
  obtain ⟨hn, hw, hl, ha, hs, hh, hd⟩ := Gauges.mk.inj h
  refine ⟨hn, hw, hl ▸ .refl, Nat.le_of_eq ha.symm, .same hs (silences_congr hh),
    fun t ht => .inl ?_⟩
  rwa [AnswersSilence, ← hd]

theorem refl (c : Connection) : Ages s c c := of_gauges rfl

theorem trans (h : Ages s c c') (h' : Ages s c' c'') : Ages s c c'' := by
  have hanti := idleFor_anti h.wall h.later
  refine ⟨h'.now.trans h.now, h'.wall.trans h.wall, h.limiter.trans (h.wall ▸ h'.limiter),
    Nat.le_trans h.later h'.later, h.silence.trans h'.silence hanti, fun ticket ht => ?_⟩
  rcases h'.answers ticket ht with hbefore | hidle
  · exact h.answers ticket hbefore
  · exact .inr (Nat.le_trans hidle hanti)

/-- What tasks are set to after it is no matter. -/
theorem andThen (h : Ages s c c') (hg : c''.gauges = c'.gauges) : Ages s c c'' :=
  h.trans (of_gauges hg)

end Ages

/-- A token is asked for. -/
theorem ages_tryAcquire {limiter : TokenBucket} {taken : Bool}
    (h : c.tryAcquire = (taken, { c with limiter })) : Ages s c { c with limiter } := by
  have hlimiter : limiter = (c.limiter.tryAcquire c.wall).2 :=
    (congrArg (fun r => r.2.limiter) h).symm
  exact ⟨rfl, rfl, .single hlimiter, Nat.le_refl _, .same rfl (silences_congr rfl),
    fun _ ht => .inl ht⟩

/-- A direct call moves on, and is told of silence only if there is silence. -/
theorem ages_setDirect {d : DirectCall} (c : Connection) (ticket : Nat)
    (idle : d = .answered (.error .idleTimeout) → s.settings.idleTimeout ≤ c.idleFor) :
    Ages s c (c.setDirect ticket d) := by
  refine ⟨rfl, rfl, .refl, Nat.le_refl _, .same rfl (silences_congr rfl), fun t ht => ?_⟩
  by_cases hne : ticket = t
  · subst hne
    simp only [AnswersSilence, setDirect, List.getElem?_set_self'] at ht
    obtain ⟨_, _, hd⟩ := Option.map_eq_some_iff.1 ht
    exact .inr (idle hd)
  · simp only [AnswersSilence, setDirect, List.getElem?_set_ne hne] at ht
    exact .inl ht

/-- A direct call begins. -/
theorem ages_enrol (c : Connection) : Ages s c { c with direct := c.direct ++ [.locking] } := by
  refine ⟨rfl, rfl, .refl, Nat.le_refl _, .same rfl (silences_congr rfl), fun t ht => .inl ?_⟩
  simp only [AnswersSilence, List.getElem?_append] at ht ⊢
  split at ht
  · exact ht
  · cases h : t - c.direct.length <;> simp [h] at ht

/-! ## The read loop -/

theorem ages_exitReader (c : Connection) : Ages s c (c.exitReader s) := by
  have hgone : Ages s c { c with readHalf := .gone } := .of_gauges rfl
  exact (hgone.trans (calm_close _).ages).andThen rfl

theorem ages_readerRound (c : Connection) (buffer : Accumulator) (b : Backoff) :
    Ages s c (c.readerRound s buffer b) := by
  unfold readerRound
  split
  · exact ages_exitReader c
  · obtain ⟨taken, limiter, h⟩ := tryAcquire_eq c
    have htaken : Ages s c { c with limiter } := ages_tryAcquire h
    rw [h]
    cases taken <;> exact htaken.andThen rfl

theorem ages_takeReadHalf (c : Connection) : Ages s c (c.takeReadHalf s) := by
  unfold takeReadHalf
  dsimp only
  split
  · have htaken : Ages s c { c with readLock := c.readLock.release, readHalf := .taken } :=
      .of_gauges rfl
    exact htaken.trans (ages_readerRound _ _ _)
  · have hrelease : Ages s c { c with readLock := c.readLock.release } := .of_gauges rfl
    exact (hrelease.trans (calm_close _).ages).andThen rfl

/-- What the read loop does with octets. -/
theorem ages_heard (c : Connection) (b : Accumulator) (backoff : Backoff) :
    Ages s c (((c.drain s b).1.boundBuffer s (c.drain s b).2).1.readerRound s
      ((c.drain s b).1.boundBuffer s (c.drain s b).2).2 backoff) :=
  ((calm_drain c b).trans (calm_boundBuffer _ _)).ages.trans (ages_readerRound _ _ _)

theorem ages_stepReader {w : Wake} (h : c.stepReader s w = some c') : Ages s c c' := by
  cases readerStep_of h with
  | begins fresh held =>
    have hrequest : Ages s c { c with readLock := c.readLock.request .loop } := .of_gauges rfl
    exact hrequest.trans (ages_takeReadHalf _)
  | queues fresh => exact .of_gauges rfl
  | enters locking held => exact ages_takeReadHalf c
  | stops paused closed => exact ages_exitReader c
  | resumes paused due => exact ages_readerRound _ _ _
  | goes reading read => exact (calm_stepRead read).ages.andThen rfl
  | @fails _ _ _ c₁ e reading read =>
    have hexit := calm_reportExit c₁ (idle_of_stepRead read)
    exact ((calm_stepRead read).trans hexit).ages.trans (ages_exitReader _)
  | hears reading read => exact (calm_stepRead read).ages.trans (ages_heard _ _ _)

/-! ## The write loop -/

theorem ages_dropWriteHalf (c : Connection) : Ages s c (c.dropWriteHalf s) := by
  have hgone : Ages s c { c with writeHalf := .gone, writeLock := c.writeLock.release } :=
    .of_gauges rfl
  exact (hgone.trans (calm_close _).ages).andThen rfl

theorem ages_exitWriter (c : Connection) : Ages s c (c.exitWriter s) := by
  have hrequest : Ages s c { c with writeLock := c.writeLock.request .loop } := .of_gauges rfl
  unfold exitWriter
  dsimp only
  split
  · exact hrequest.trans (ages_dropWriteHalf _)
  · exact .of_gauges rfl

theorem ages_writerRound (c : Connection) : Ages s c c.writerRound := by
  obtain ⟨taken, limiter, h⟩ := tryAcquire_eq c
  have htaken : Ages s c { c with limiter } := ages_tryAcquire h
  unfold writerRound
  rw [h]
  cases taken <;> exact htaken.andThen rfl

theorem ages_afterWrite {p : WriteProgress} (c : Connection)
    (hp : ∀ e, p = .ends (.error e) → e.isStream = true) : Ages s c (c.afterWrite s p) := by
  unfold afterWrite
  split
  · exact .of_gauges rfl
  · have hrelease : Ages s c { c with writeLock := c.writeLock.release } := .of_gauges rfl
    dsimp only
    split
    · exact hrelease.trans (ages_writerRound _)
    · exact (hrelease.trans (calm_reportStream _ (hp _ rfl)).ages).trans (ages_exitWriter _)

theorem gauges_requestWrite (c : Connection) (o : Owner) (frame : Octets) :
    (c.requestWrite s o frame).1.gauges = c.gauges := by
  unfold requestWrite
  dsimp only
  split <;> rfl

theorem ages_stepWriter {w : Wake} (h : c.stepWriter s w = some c') : Ages s c c' := by
  cases writerStep_of h with
  | begins fresh kept =>
    have htaken : Ages s c { c with consumer := .taken } := .of_gauges rfl
    exact htaken.trans (ages_writerRound _)
  | lacks fresh apart => exact (calm_close c).ages.andThen rfl
  | stops waits closed => exact ages_exitWriter c
  | resumes paused due => exact ages_writerRound c
  | @takes frame queue receiving live popped =>
    have hrequest : Ages s c ({ c with queue }.requestWrite s .loop frame).1 :=
      .of_gauges (gauges_requestWrite { c with queue } .loop frame)
    exact hrequest.trans (ages_afterWrite _ (requestWrite_eq { c with queue } .loop frame).2)
  | ends receiving live none => exact ages_exitWriter c
  | goes writing write =>
    exact (calm_stepWrite write).ages.trans
      (ages_afterWrite _ fun e he => stream_of_stepWrite write he)
  | releases releasing held => exact ages_dropWriteHalf c

/-! ## Watching and running -/

theorem ages_stepIdler {w : Wake} (h : c.stepIdler s w = some c') : Ages s c c' := by
  obtain ⟨c₁, idler, hcalm, rfl⟩ := calm_stepIdler h
  exact hcalm.ages.andThen rfl

theorem ages_stepRunner {w : Wake} (h : c.stepRunner s w = some c') : Ages s c c' := by
  obtain ⟨c₁, hcalm, rfl⟩ := calm_stepRunner h
  have hfinished : Ages s c { c₁ with runner := .finished } := hcalm.ages.andThen rfl
  exact hfinished.trans (Calm.note _ rfl).ages

theorem ages_start (c : Connection) (loops : LoopSet) : Ages s c (c.start s loops) := by
  rcases calm_start (s := s) c loops with hcalm | ⟨c₁, reader, writer, idler, runner, hcalm, hstart⟩
  · exact hcalm.ages
  · have hstarted : Ages s c { c with started := true } := .of_gauges rfl
    rw [hstart]
    exact (hstarted.trans hcalm.ages).andThen rfl

/-! ## Direct calls -/

theorem ages_afterSend {p : WriteProgress} (c : Connection) (ticket : Nat)
    (hp : ∀ e, p = .ends (.error e) → e.isStream = true) : Ages s c (c.afterSend ticket p) := by
  cases p with
  | goes job => exact ages_setDirect c ticket nofun
  | ends result =>
    have hrelease : Ages s c { c with writeLock := c.writeLock.release } := .of_gauges rfl
    refine hrelease.trans (ages_setDirect _ ticket fun h => ?_)
    cases result with
    | ok u => cases h
    | error e =>
      cases h
      cases hp _ rfl

theorem ages_beginSend (c : Connection) (frame : Octets) : Ages s c (c.beginSend s frame) := by
  unfold beginSend
  dsimp only
  have hrequest := (ages_enrol (s := s) c).andThen (gauges_requestWrite (s := s)
    { c with direct := c.direct ++ [DirectCall.locking] } (.direct c.direct.length) frame)
  exact hrequest.trans (ages_afterSend _ _ (requestWrite_eq _ _ _).2)

theorem ages_endReceive {result : Except EngineError Message} (c : Connection) (ticket : Nat)
    (idle : result = .error .idleTimeout → s.settings.idleTimeout ≤ c.idleFor) :
    Ages s c (c.endReceive ticket result) := by
  have hrelease : Ages s c { c with readLock := c.readLock.release } := .of_gauges rfl
  refine hrelease.trans (ages_setDirect _ ticket fun h => idle ?_)
  cases result with
  | ok m => cases h
  | error e => cases h; rfl

theorem ages_receivePending (c : Connection) : Ages s c (c.receivePending s).1 := by
  unfold receivePending
  split
  · exact .refl c
  · split
    · split
      · exact .refl c
      · rename_i pending _
        have hpending : Ages s c { c with pending } := .of_gauges rfl
        exact hpending.trans ((Calm.touch _).trans (.record _ _)).ages
    · split
      · dsimp only
        split
        · have hpending : Ages s c { c with pending := .empty } := .of_gauges rfl
          exact hpending.trans (Calm.record _ _).ages
        · exact .refl c
      · rename_i failure _ _
        have hpending : Ages s c
            { c with pending := (c.pending.discard failure.discard.orAll).2 } := .of_gauges rfl
        exact hpending.trans ((Calm.record _ .error).trans (.record _ _)).ages

/-- What has been read before is never found to be silence. -/
theorem receivePending_ne (c : Connection) :
    (c.receivePending s).2 ≠ some (.error .idleTimeout) := by
  intro h
  unfold receivePending at h
  split at h
  · cases h
  · split at h
    · split at h
      · rename_i e he
        cases h
        unfold Accumulator.consume at he
        split at he <;> cases he
      · cases h
    · rename_i hunpack
      split at h
      · dsimp only at h
        split at h <;> cases h
      · have hown := own_of_unpack hunpack
        rw [Except.error.inj (Option.some.inj h)] at hown
        cases hown

theorem ages_receiveMore (c : Connection) (ticket : Nat) (b : Backoff) :
    Ages s c (c.receiveMore s ticket b) := by
  obtain ⟨taken, limiter, h⟩ := tryAcquire_eq c
  have htaken : Ages s c { c with limiter } := ages_tryAcquire h
  rw [receiveMore, h]
  cases taken with
  | true => exact htaken.trans (ages_setDirect _ ticket fun hd => by cases hd)
  | false => exact htaken.trans (ages_setDirect _ ticket fun hd => by cases hd)

theorem ages_receiveRound (c : Connection) (ticket : Nat) (b : Backoff) :
    Ages s c (c.receiveRound s ticket b) := by
  have hpending := ages_receivePending (s := s) c
  have hne := receivePending_ne (s := s) c
  unfold receiveRound
  split <;> rename_i h <;> rw [h] at hpending hne
  · refine hpending.trans (ages_endReceive _ ticket fun hresult => ?_)
    rw [hresult] at hne
    exact absurd rfl hne
  · exact hpending.trans (ages_receiveMore _ _ _)

theorem ages_takeReceive (c : Connection) (ticket : Nat) : Ages s c (c.takeReceive s ticket) := by
  unfold takeReceive
  split
  · exact ages_receiveRound _ _ _
  · refine ages_endReceive c ticket fun h => ?_
    split at h <;> cases h

theorem ages_beginReceive (c : Connection) : Ages s c (c.beginReceive s) := by
  have hbegin : Ages s c { c with
      direct := c.direct ++ [DirectCall.locking]
      readLock := c.readLock.request (.direct c.direct.length) } := (ages_enrol c).andThen rfl
  unfold beginReceive
  dsimp only
  split
  · exact hbegin.trans (ages_takeReceive _ _)
  · exact hbegin

theorem ages_failReceive {e : EngineError} (c : Connection) (ticket : Nat)
    (idle : e = .idleTimeout → s.settings.idleTimeout ≤ c.idleFor) :
    Ages s c (c.failReceive s ticket e) := by
  have hgone : Ages s c { c with readHalf := .gone } := .of_gauges rfl
  have hend : Ages s c ({ c with readHalf := .gone }.endReceive ticket (.error e)) :=
    hgone.trans (ages_endReceive _ ticket fun h => idle (Except.error.inj h))
  unfold failReceive
  dsimp only
  split
  · exact hend.trans (calm_close _).ages
  · exact hend.trans ((Calm.record _ .error).trans (calm_close _)).ages

theorem ages_stepDirect {ticket : Nat} {w : Wake} (h : c.stepDirect s ticket w = some c') :
    Ages s c c' := by
  cases directStep_of h with
  | sends sending write =>
    exact (calm_stepWrite write).ages.trans
      (ages_afterSend _ _ fun e he => stream_of_stepWrite write he)
  | enters locking held => exact ages_takeReceive _ _
  | stops paused closed => exact ages_endReceive c ticket nofun
  | resumes paused due => exact ages_receiveMore _ _ _
  | goes reading read => exact (calm_stepRead read).ages.trans (ages_setDirect _ ticket nofun)
  | fails reading read =>
    exact (calm_stepRead read).ages.trans (ages_failReceive _ _ (idle_of_stepRead read))
  | @hears _ _ c₁ d b reading read =>
    have hpending : Ages s c₁ { c₁ with pending := c₁.pending.append d } := .of_gauges rfl
    exact ((calm_stepRead read).ages.trans hpending).trans (ages_receiveRound _ _ _)

/-! ## Steps -/

/-- A tick moves the clocks, and nothing else does. -/
theorem ages_step {l : Label} (h : c.step s l = some c') :
    Ages s { c with now := c.now + l.timerTime, wall := c.wall + l.wallTime } c' := by
  cases step_of h with
  | ticks timers wall => exact .of_gauges rfl
  | starts loops => exact ages_start c loops
  | @obeys loops requested asked =>
    have hrequested : Ages s c { c with requested } := .of_gauges rfl
    exact hrequested.trans (ages_start _ loops)
  | closes => exact (calm_close c).ages
  | @sends m frame queue | @queues frame queue =>
    have hqueue : Ages s c { c with queue } := .of_gauges rfl
    exact hqueue.trans (Calm.note _ rfl).ages
  | refuses | rejects => exact .refl c
  | sendsDirect frame => exact ages_beginSend c frame
  | receives => exact ages_beginReceive c
  | reader went => exact ages_stepReader went
  | writer went => exact ages_stepWriter went
  | idler went => exact ages_stepIdler went
  | runner went => exact ages_stepRunner went
  | direct went => exact ages_stepDirect went

end Connection
end FrameEngine
