import FrameEngine.Proofs.Connection.Loops

/-!
# FrameEngine.Proofs.Connection.Calm

What happens without any task moving on: closing, callbacks, reports, and the part of a read or a
write that comes before the task takes its next place. All of it is `Calm`: no task moves, no lock
is passed on, no token is taken and the clocks stand still. The last activity is never set back. The
parts of the stream are left alone, unless the connection closes, which drops what nobody is at
(`Sheds`). Silence is reported once, and when it has lasted long enough (`Hushes`).
-/

namespace FrameEngine
namespace Connection

/-- How often the handler has been told of silence. -/
def silences (c : Connection) : Nat := tellings .idleTimeout c.callbacks

/-- Where the tasks are, and the locks, clocks and tokens that they wait for. -/
structure Stations where
  reader : ReadLoop
  writer : WriteLoop
  idler : IdleLoop
  direct : List DirectCall
  readLock : Lock
  writeLock : Lock
  limiter : TokenBucket
  now : Span
  wall : Span

def stations (c : Connection) : Stations :=
  ⟨c.reader, c.writer, c.idler, c.direct, c.readLock, c.writeLock, c.limiter, c.now, c.wall⟩

/-- What a connection drops when it closes. -/
inductive Part where
  | readHalf
  | writeHalf
  | consumer

def part (c : Connection) : Part → Keeping
  | .readHalf => c.readHalf
  | .writeHalf => c.writeHalf
  | .consumer => c.consumer

/-- Nobody is at a part. -/
def isFree (c : Connection) : Part → Bool
  | .readHalf => c.readLock.isFree
  | .writeHalf => c.writeLock.isFree
  | .consumer => true

/-- What becomes of a part: it stays where it is, or the connection closes and drops it, unless
somebody is at it. -/
inductive Sheds (p : Part) (c c' : Connection) : Prop where
  | keeps (stage : c'.isClosed = c.isClosed) (same : c'.part p = c.part p) : Sheds p c c'
  | drops (live : c.isClosed = false) (closed : c'.isClosed = true)
      (dropped : c'.part p = if c.isFree p then (c.part p).dropKept else c.part p) : Sheds p c c'

/-- What the handler is told of silence: nothing, or it hears of it for the first time, after the
time that is set for it. -/
inductive Hushes (s : Setup) (c c' : Connection) : Prop where
  | same (flag : c'.silenced = c.silenced) (count : c'.silences = c.silences) : Hushes s c c'
  | once (fresh : c.silenced = false) (flag : c'.silenced = true)
      (count : c'.silences = c.silences + 1) (idle : s.settings.idleTimeout ≤ c.idleFor) :
      Hushes s c c'

/-- No task has moved. -/
structure Calm (s : Setup) (c c' : Connection) : Prop where
  stations : c'.stations = c.stations
  later : c.lastActive ≤ c'.lastActive
  parts : ∀ p, Sheds p c c'
  silence : Hushes s c c'

variable {s : Setup} {c c' c'' : Connection}

theorem idleFor_anti (hw : c'.wall = c.wall) (h : c.lastActive ≤ c'.lastActive) :
    c'.idleFor ≤ c.idleFor := by
  rw [idleFor, idleFor, hw]
  exact Nat.sub_le_sub_left (Nat.mul_le_mul_right _ h) _

namespace Sheds

variable {p : Part}

theorem trans (h : Sheds p c c') (h' : Sheds p c' c'') (free : c'.isFree p = c.isFree p) :
    Sheds p c c'' := by
  cases h with
  | keeps stage same =>
    cases h' with
    | keeps stage' same' => exact .keeps (stage'.trans stage) (same'.trans same)
    | drops live' closed' dropped' =>
      rw [same, free] at dropped'
      exact .drops (stage ▸ live') closed' dropped'
  | drops live closed dropped =>
    cases h' with
    | keeps stage' same' => exact .drops live (stage'.trans closed) (same'.trans dropped)
    | drops live' _ _ => cases closed.symm.trans live'

theorem closed (h : Sheds p c c') (hc : c.isClosed = true) :
    c'.isClosed = true ∧ c'.part p = c.part p := by
  cases h with
  | keeps stage same => exact ⟨stage.trans hc, same⟩
  | drops live _ _ => cases live.symm.trans hc

end Sheds

namespace Hushes

theorem trans (h : Hushes s c c') (h' : Hushes s c' c'') (anti : c'.idleFor ≤ c.idleFor) :
    Hushes s c c'' := by
  cases h with
  | same flag count =>
    cases h' with
    | same flag' count' => exact .same (flag'.trans flag) (count'.trans count)
    | once fresh' flag' count' idle' =>
      exact .once (flag ▸ fresh') flag' (count ▸ count') (Nat.le_trans idle' anti)
  | once fresh flag count idle =>
    cases h' with
    | same flag' count' => exact .once fresh (flag'.trans flag) (count'.trans count) idle
    | once fresh' _ _ _ => cases flag.symm.trans fresh'

theorem silenced (h : Hushes s c c') (hs : c.silenced = true) :
    c'.silenced = true ∧ c'.silences = c.silences := by
  cases h with
  | same flag count => exact ⟨flag.trans hs, count⟩
  | once fresh _ _ _ => cases fresh.symm.trans hs

end Hushes

theorem silences_congr (h : c'.history = c.history) : c'.silences = c.silences := by
  rw [silences, silences, callbacks_congr h]

theorem silences_note (c : Connection) (o : Occurrence) :
    (c.note o).silences = c.silences + tellings .idleTimeout (Moment.call? ⟨c.now, o⟩).toList := by
  rw [silences, callbacks_note, tellings, List.countP_append]
  rfl

theorem counts_error_eq_false {e : EngineError} (h : e ≠ .idleTimeout) :
    Tally.counts .idleTimeout (.error e) = false := by
  cases e <;> first | rfl | exact absurd rfl h

namespace Calm

theorem refl (c : Connection) : Calm s c c :=
  ⟨rfl, Nat.le_refl _, fun _ => .keeps rfl rfl, .same rfl rfl⟩

theorem readLock (h : Calm s c c') : c'.readLock = c.readLock :=
  congrArg Stations.readLock h.stations

theorem writeLock (h : Calm s c c') : c'.writeLock = c.writeLock :=
  congrArg Stations.writeLock h.stations

theorem writer (h : Calm s c c') : c'.writer = c.writer := congrArg Stations.writer h.stations

theorem direct (h : Calm s c c') : c'.direct = c.direct := congrArg Stations.direct h.stations

theorem limiter (h : Calm s c c') : c'.limiter = c.limiter := congrArg Stations.limiter h.stations

theorem now (h : Calm s c c') : c'.now = c.now := congrArg Stations.now h.stations

theorem wall (h : Calm s c c') : c'.wall = c.wall := congrArg Stations.wall h.stations

theorem isFree (h : Calm s c c') (p : Part) : c'.isFree p = c.isFree p := by
  cases p with
  | readHalf => exact congrArg Lock.isFree h.readLock
  | writeHalf => exact congrArg Lock.isFree h.writeLock
  | consumer => rfl

theorem trans (h : Calm s c c') (h' : Calm s c' c'') : Calm s c c'' :=
  ⟨h'.stations.trans h.stations, Nat.le_trans h.later h'.later,
    fun p => (h.parts p).trans (h'.parts p) (h.isFree p),
    h.silence.trans h'.silence (idleFor_anti h.wall h.later)⟩

/-- A change of what no task looks at. -/
theorem of_stations (stations : c'.stations = c.stations) (later : c.lastActive ≤ c'.lastActive)
    (stage : c'.isClosed = c.isClosed) (parts : c'.part = c.part)
    (flag : c'.silenced = c.silenced) (history : c'.history = c.history) : Calm s c c' :=
  ⟨stations, later, fun p => .keeps stage (congrFun parts p), .same flag (silences_congr history)⟩

theorem note (c : Connection) {o : Occurrence}
    (ho : tellings .idleTimeout (Moment.call? ⟨c.now, o⟩).toList = 0) : Calm s c (c.note o) := by
  refine ⟨rfl, Nat.le_refl _, fun _ => .keeps rfl rfl, .same rfl ?_⟩
  rw [silences_note, ho, Nat.add_zero]

theorem log (c : Connection) (level : LogLevel) (text : String) (fields : List (String × String)) :
    Calm s c (c.log level text fields) :=
  note c rfl

theorem record (c : Connection) (t : Tally) : Calm s c (c.record t) :=
  .of_stations rfl (Nat.le_refl _) rfl rfl rfl rfl

theorem touch (c : Connection) : Calm s c c.touch :=
  .of_stations rfl (Nat.le_max_left _ _) rfl rfl rfl rfl

theorem told (c : Connection) {cb : Callback} (h : Tally.counts .idleTimeout cb = false) :
    Calm s c (c.told cb) := by
  have hcalls : Calm s c { c with calls := c.calls + 1 } :=
    .of_stations rfl (Nat.le_refl _) rfl rfl rfl rfl
  refine hcalls.trans (note _ ?_)
  show tellings .idleTimeout [⟨cb, c.stage⟩] = 0
  rw [tellings_cons, h]
  rfl

theorem of_effect (h : Effect s c c') : Calm s c c' := by
  cases h with
  | @note o remark =>
    cases o with
    | sent m result => exact note c rfl
    | logged line => exact note c rfl
    | returned => exact note c rfl
    | called callback stage => cases remark
    | queued frame => cases remark
    | wrote data => cases remark
  | record fault => exact record c _
  | @queue m frame queue packed pushed =>
    have hqueue : Calm s c { c with queue } := .of_stations rfl (Nat.le_refl _) rfl rfl rfl rfl
    exact hqueue.trans (note _ rfl)
  | request loops => exact .of_stations rfl (Nat.le_refl _) rfl rfl rfl rfl
  | beginClose live =>
    refine ⟨rfl, Nat.le_refl _, fun p => .drops live rfl ?_, .same rfl (silences_congr rfl)⟩
    cases p <;> rfl
  | tellClose => exact told c rfl
  | endClose closing => exact .of_stations rfl (Nat.le_refl _) closing.symm rfl rfl rfl

theorem of_effects (h : Effects s c c') : Calm s c c' := by
  induction h with
  | refl => exact refl c
  | tail _ last ih => exact ih.trans (of_effect last)

end Calm

/-! ## Closing and callbacks -/

theorem calm_close (c : Connection) : Calm s c (c.close s) := .of_effects (close_effects c)

theorem calm_call (c : Connection) {cb : Callback} (h : Tally.counts .idleTimeout cb = false) :
    Calm s c (c.call s cb).1 :=
  (Calm.told c h).trans (.of_effects (call_effects c cb))

theorem calm_report {e : EngineError} (c : Connection) (he : e ≠ .idleTimeout) :
    Calm s c (c.report s e) := by
  obtain ⟨c₀, hbefore, hafter⟩ := report_effects (s := s) c e
  have htold : Calm s c₀ (c₀.told (.error e)) := .told c₀ (counts_error_eq_false he)
  exact (Calm.of_effects hbefore).trans (htold.trans (.of_effects hafter))

theorem calm_deliver (c : Connection) (m : Message) : Calm s c (c.deliver s m) := by
  obtain ⟨c₀, hbefore, h | ⟨text, h⟩⟩ := deliver_effects (s := s) c m
  · rw [h]; exact (Calm.told c rfl).trans (.of_effects hbefore)
  · rw [h]; exact ((Calm.told c rfl).trans (.of_effects hbefore)).trans (calm_report c₀ nofun)

/-- The one report of silence: what the handler does then finds the mark set. -/
theorem calm_silence (c : Connection) (fresh : c.silenced = false)
    (idle : s.settings.idleTimeout ≤ c.idleFor) (level : LogLevel) (text : String)
    (fields : List (String × String)) :
    Calm s c ((({ c with silenced := true }.record .idleTimeout).log level text fields).report s
      .idleTimeout) := by
  obtain ⟨c₀, hbefore, hafter⟩ := report_effects (s := s)
    (({ c with silenced := true }.record .idleTimeout).log level text fields) .idleTimeout
  have hmarked : Calm s { c with silenced := true } c₀ :=
    ((Calm.record _ .idleTimeout).trans (.log _ level text fields)).trans (.of_effects hbefore)
  have hafter := Calm.of_effects hafter
  obtain ⟨hflag, hcount⟩ := hmarked.silence.silenced rfl
  obtain ⟨hflag', hcount'⟩ := hafter.silence.silenced hflag
  have htold : (c₀.told (.error .idleTimeout)).silences = c₀.silences + 1 :=
    silences_note { c₀ with calls := c₀.calls + 1 } _
  have hparts : ∀ p, Sheds p c (c₀.told (.error .idleTimeout)) := by
    intro p
    have hmark : Sheds p c { c with silenced := true } := .keeps rfl rfl
    have htell : Sheds p c₀ (c₀.told (.error .idleTimeout)) := .keeps rfl rfl
    exact (hmark.trans (hmarked.parts p) rfl).trans htell (hmarked.isFree p)
  refine ⟨hafter.stations.trans hmarked.stations, Nat.le_trans hmarked.later hafter.later,
    fun p => (hparts p).trans (hafter.parts p) (hmarked.isFree p), .once fresh hflag' ?_ idle⟩
  rw [hcount', htold, hcount]
  rfl

theorem calm_reportExit {e : EngineError} (c : Connection)
    (idle : e = .idleTimeout → s.settings.idleTimeout ≤ c.idleFor) :
    Calm s c (c.reportExit s e) := by
  unfold reportExit
  split
  · exact .refl c
  · split
    · rename_i he
      split
      · exact .refl c
      · rename_i hfresh
        subst he
        exact calm_silence c (Bool.eq_false_iff.2 hfresh) (idle rfl) _ _ _
    · exact calm_report c ‹_›

/-- The failure of a read or a write is not silence. -/
theorem calm_reportStream {e : EngineError} (c : Connection) (he : e.isStream = true) :
    Calm s c (c.reportExit s e) := by
  refine calm_reportExit c ?_
  rintro rfl
  cases he

theorem calm_retryAfter (c : Connection) (f : IoFailure) (b : Backoff) :
    Calm s c (c.retryAfter s f b).1 := by
  unfold retryAfter
  split
  · exact .refl c
  · have hdraws : Calm s c { c with draws := c.draws + 1 } :=
      .of_stations rfl (Nat.le_refl _) rfl rfl rfl rfl
    exact ((hdraws.trans (.record _ .retry)).trans (.log _ _ _ _)).trans (calm_report _ nofun)

/-! ## Reading -/

theorem calm_drain (c : Connection) (b : Accumulator) : Calm s c (c.drain s b).1 := by
  fun_induction drain s c b with
  | case1 c b _ => exact .refl c
  | case2 c b _ m n _ e he =>
    refine calm_report c ?_
    rintro rfl
    unfold Accumulator.consume at he
    split at he <;> cases he
  | case3 c b _ m n _ rest _ _ c' ih =>
    have hrecord := ((Calm.touch (s := s) c).trans (.record _ .messageReceived)).trans
      (.record _ (.messageLatency 0))
    exact (hrecord.trans (calm_deliver _ m)).trans ih
  | case4 c b _ failure _ _ => exact .refl c
  | case5 c b _ failure h _ _ dropped c' ih =>
    refine ((Calm.log _ _ _ _).trans (calm_report _ fun he => ?_)).trans ih
    have hown := own_of_unpack h
    rw [he] at hown
    cases hown

theorem calm_boundBuffer (c : Connection) (b : Accumulator) : Calm s c (c.boundBuffer s b).1 := by
  unfold boundBuffer
  split
  · exact (Calm.record c .bufferOverflow).trans (calm_report _ nofun)
  · exact .refl c

theorem calm_stepRead {job : ReadJob} {w : Wake} {p : ReadProgress}
    (h : c.stepRead s job w = some (c', p)) : Calm s c c' := by
  cases readStep_of h with
  | gets point fits fed => exact (Calm.touch c).trans (.record _ _)
  | retries point passes granted => exact calm_retryAfter c _ _
  | _ => exact .refl c

/-- A read that ends with silence has found it to have lasted as long as is set. -/
theorem idle_of_stepRead {job : ReadJob} {w : Wake} {e : EngineError}
    (h : c.stepRead s job w = some (c', .fails e)) (he : e = .idleTimeout) :
    s.settings.idleTimeout ≤ c'.idleFor := by
  subst he
  cases readStep_of h with
  | expires point due silent => exact silent

/-! ## Writing -/

theorem calm_stepWrite {o : Owner} {job : WriteJob} {w : Wake} {p : WriteProgress}
    (h : c.stepWrite s o job w = some (c', p)) : Calm s c c' := by
  cases writeStep_of h with
  | retries fails granted => exact calm_retryAfter c _ _
  | writes point fits takes => exact .note c rfl
  | completes point => exact ((Calm.touch c).trans (.record _ _)).trans (.record _ _)
  | _ => exact .refl c

/-! ## Watching and running -/

theorem calm_stepIdler {w : Wake} (h : c.stepIdler s w = some c') :
    ∃ c₁ idler, Calm s c c₁ ∧ c' = { c₁ with idler } := by
  cases idlerStep_of h with
  | begins fresh => exact ⟨c, _, .refl c, rfl⟩
  | stops ticking closed => exact ⟨_, _, calm_close c, rfl⟩
  | expires ticking now silent =>
    have hreport : Calm s c (c.reportExit s .idleTimeout) :=
      calm_reportExit c fun _ => Nat.le_of_lt silent
    exact ⟨_, _, hreport.trans (calm_close _), rfl⟩
  | looks ticking now active => exact ⟨c, _, .refl c, rfl⟩

theorem calm_stepRunner {w : Wake} (h : c.stepRunner s w = some c') :
    ∃ c₁, Calm s c c₁ ∧ c' = { c₁ with runner := .finished }.note .returned := by
  obtain ⟨-, -, -, c₁, hlogged, rfl⟩ := runnerStep_of h
  have hlog : Calm s c c₁ := by
    rcases hlogged with rfl | rfl
    · exact .refl c₁
    · exact .log c _ _ _
  exact ⟨_, hlog.trans (calm_close _), rfl⟩

/-- A run that begins is calm, but for the loops that it sets up. -/
theorem calm_start (c : Connection) (loops : LoopSet) :
    Calm s c (c.start s loops) ∨
      ∃ c₁ reader writer idler runner, Calm s { c with started := true } c₁ ∧
        c.start s loops = { c₁ with reader, writer, idler, runner } := by
  unfold start
  split
  · exact .inl ((Calm.log c _ _ _).trans (.note _ rfl))
  · have htouch : Calm s { c with started := true } { c with started := true }.touch := .touch _
    have hcall : Calm s { c with started := true }
        (call s { c with started := true }.touch .connect).1 := htouch.trans (calm_call _ rfl)
    have hpanic : ∀ e, (call s { c with started := true }.touch .connect).2 = some e →
        e ≠ .idleTimeout := by
      rintro e he rfl
      cases (panics_of_call he).2
    dsimp only
    generalize call s { c with started := true }.touch .connect = r at hcall hpanic ⊢
    obtain ⟨c₁, panic⟩ := r
    cases panic with
    | none => exact .inr ⟨c₁, _, _, _, _, hcall, rfl⟩
    | some e => exact .inr ⟨_, _, _, _, _, hcall.trans (calm_report c₁ (hpanic e rfl)), rfl⟩

end Connection
end FrameEngine
