import FrameEngine.Proofs.Connection.Course
import FrameEngine.Proofs.Connection.Quiet
import FrameEngine.Proofs.Framing.Failure

/-!
# FrameEngine.Proofs.Connection.Passage

What each function of a connection does to the calls of its handler. `Hears` is about closing and
single callbacks: what they add to the calls, and what they leave as it is. `Passage` is about
everything: the calls that are added are a `Course`, and the counters go along with them.

There is one lemma for each function, which says that it is a passage and under which condition it
may report an error of a connection that is closed already. The conditions meet in `Lifecycle`,
where a step of a connection is taken apart.
-/

namespace FrameEngine

/-! ## Counters that go with calls -/

/-- A count of something that the handler is told, too. -/
def Tally.isHeard : Tally → Bool
  | .error | .protocolError | .messageReceived | .bufferOverflow | .idleTimeout => true
  | _ => false

/-- Whether what a callback tells belongs to a count. -/
def Tally.counts : Tally → Callback → Bool
  | .error, .error _ => true
  | .protocolError, .error e => e.errorClass = .protocol
  | .messageReceived, .message _ => true
  | .bufferOverflow, .error (.bufferOverflow _ _) => true
  | .idleTimeout, .error .idleTimeout => true
  | _, _ => false

/-- The count of a tally that is heard. -/
def Metrics.count (m : Metrics) : Tally → UInt64
  | .error => m.errors
  | .protocolError => m.protocolErrors
  | .messageReceived => m.messagesReceived
  | .bufferOverflow => m.bufferOverflows
  | .idleTimeout => m.idleTimeouts
  | _ => 0

theorem Metrics.count_record (m : Metrics) {t : Tally} (ht : t.isHeard = true) (u : Tally) :
    (m.record u).count t = m.count t + if t = u then 1 else 0 := by
  cases t <;> cases ht <;> cases u <;> simp [Metrics.record, Metrics.count] <;> split <;> rfl

theorem Tally.counts_close (t : Tally) : t.counts .close = false := by cases t <;> rfl

theorem Tally.counts_connect (t : Tally) : t.counts .connect = false := by cases t <;> rfl

/-- The count of its own that an error has, beside those of errors and of errors of the protocol. -/
def EngineError.own : EngineError → Option Tally
  | .bufferOverflow _ _ => some .bufferOverflow
  | .idleTimeout => some .idleTimeout
  | _ => none

/-- A direct call that sends, or that has been answered. -/
def DirectCall.isSend : DirectCall → Bool
  | .sending _ | .answered _ => true
  | .locking | .paused _ _ | .reading _ => false

namespace Connection

variable {s : Setup} {c c' c'' : Connection} {calls more : List Call}

/-- How often the calls tell what belongs to a count. -/
def tellings (t : Tally) (calls : List Call) : Nat := calls.countP (t.counts ·.callback)

theorem tellings_cons (t : Tally) (call : Call) (calls : List Call) :
    tellings t (call :: calls) =
      tellings t calls + if t.counts call.callback = true then 1 else 0 :=
  List.countP_cons

/-- All direct calls are sends, or have been answered. -/
def OnlySends (c : Connection) : Prop := ∀ d ∈ c.direct, d.isSend = true

/-! ## Closing and callbacks -/

theorem isClosed_eq_true : c.isClosed = true ↔ c.stage ≠ .live := by simp [isClosed]

theorem isClosed_eq_false : c.isClosed = false ↔ c.stage = .live := by simp [isClosed]

/-- The way from a stage to a stage, with the call that is made on it. -/
inductive Turning : Stage → List Call → Stage → Prop where
  | stays (stage : Stage) : Turning stage [] stage
  | closes : Turning .live [⟨.close, .closing⟩] .closed

namespace Turning

variable {a b d : Stage}

theorem trans (h : Turning a calls b) (h' : Turning b more d) : Turning a (calls ++ more) d := by
  cases h with
  | stays => exact h'
  | closes => cases h'; exact .closes

theorem nil_of_ne (h : Turning a calls b) (ha : a ≠ .live) : calls = [] ∧ b = a := by
  cases h with
  | stays => exact ⟨rfl, rfl⟩
  | closes => exact absurd rfl ha

theorem eq_of_nil (h : Turning a [] b) : b = a := by cases h; rfl

theorem of_live (h : Turning .live calls b) :
    calls = [] ∧ b = .live ∨ calls = [⟨.close, .closing⟩] ∧ b = .closed := by
  cases h with
  | stays => exact .inl ⟨rfl, rfl⟩
  | closes => exact .inr ⟨rfl, rfl⟩

theorem tellings_eq (h : Turning a calls b) (t : Tally) : tellings t calls = 0 := by
  cases h with
  | stays => rfl
  | closes => rw [tellings_cons, Tally.counts_close]; rfl

theorem course (h : Turning a calls b) (ha : a ≠ .closing) {handler : Handler}
    {late : EngineError → Prop} {started : Bool} :
    Course handler late ⟨a, started⟩ calls ⟨b, started⟩ := by
  cases h with
  | stays => exact .done _
  | closes => exact .closes (.done _)

end Turning

theorem callbacks_congr (h : c'.history = c.history) : c'.callbacks = c.callbacks := by
  simp only [callbacks, since_zero, h]

theorem callbacks_note (c : Connection) (o : Occurrence) :
    (c.note o).callbacks = c.callbacks ++ (Moment.call? ⟨c.now, o⟩).toList := by
  simp only [callbacks, since_zero, note, List.reverse_cons, List.filterMap_append]
  cases h : Moment.call? ⟨c.now, o⟩ <;> simp [h]

theorem callbacks_told (c : Connection) (cb : Callback) :
    (c.told cb).callbacks = c.callbacks ++ [⟨cb, c.stage⟩] :=
  callbacks_note { c with calls := c.calls + 1 } (.called cb c.stage)

/-- What is added to the calls, and what stays as it is. -/
structure Hears (c c' : Connection) (calls : List Call) : Prop where
  callbacks : c'.callbacks = c.callbacks ++ calls
  turning : Turning c.stage calls c'.stage
  started : c'.started = c.started
  runner : c'.runner = c.runner
  reader : c'.reader = c.reader
  direct : c'.direct = c.direct
  totals : c'.totals.isSome = c.totals.isSome
  accepted : c.isClosed = true → c'.accepted = c.accepted

namespace Hears

theorem of_history (hh : c'.history = c.history) (hg : c'.stage = c.stage)
    (hs : c'.started = c.started) (hr : c'.runner = c.runner) (hl : c'.reader = c.reader)
    (hd : c'.direct = c.direct) (ht : c'.totals.isSome = c.totals.isSome) : Hears c c' [] := by
  refine ⟨?_, ?_, hs, hr, hl, hd, ht, fun _ => accepted_congr hh⟩
  · rw [callbacks_congr hh, List.append_nil]
  · rw [hg]; exact .stays _

theorem refl (c : Connection) : Hears c c [] := .of_history rfl rfl rfl rfl rfl rfl rfl

theorem isClosed (h : Hears c c' calls) (hc : c.isClosed = true) : c'.isClosed = true := by
  have hne := isClosed_eq_true.1 hc
  rw [isClosed_eq_true, (h.turning.nil_of_ne hne).2]
  exact hne

theorem trans (h : Hears c c' calls) (h' : Hears c' c'' more) : Hears c c'' (calls ++ more) := by
  refine ⟨?_, h.turning.trans h'.turning, h'.started.trans h.started, h'.runner.trans h.runner,
    h'.reader.trans h.reader, h'.direct.trans h.direct, h'.totals.trans h.totals, fun hc => ?_⟩
  · rw [h'.callbacks, h.callbacks, List.append_assoc]
  · exact (h'.accepted (h.isClosed hc)).trans (h.accepted hc)

theorem note (c : Connection) {o : Occurrence} (hc : Moment.call? ⟨c.now, o⟩ = none)
    (hf : Moment.frame? ⟨c.now, o⟩ = none) : Hears c (c.note o) [] := by
  refine ⟨?_, .stays _, rfl, rfl, rfl, rfl, rfl, fun _ => ?_⟩
  · rw [callbacks_note, hc]; rfl
  · rw [accepted_note, hf]; exact List.append_nil _

theorem log (c : Connection) (level : LogLevel) (text : String) (fields : List (String × String)) :
    Hears c (c.log level text fields) [] :=
  note c rfl rfl

theorem record (c : Connection) (t : Tally) : Hears c (c.record t) [] :=
  .of_history rfl rfl rfl rfl rfl rfl (Option.isSome_map ..)

/-- A frame joins the queue, which is open. -/
theorem push {frame : Octets} {queue : SendQueue} (live : c.isClosed = false) :
    Hears c ({ c with queue }.note (.queued frame)) [] := by
  refine ⟨?_, .stays _, rfl, rfl, rfl, rfl, rfl, fun hc => ?_⟩
  · exact callbacks_note { c with queue } (.queued frame)
  · cases live.symm.trans hc

end Hears

theorem hears_perform {close : Connection → Connection}
    (hclose : ∀ c, ∃ calls, Hears c (close c) calls) (c : Connection) (action : Action) :
    ∃ calls, Hears c (c.perform close s action).1 calls := by
  cases action with
  | send m =>
    rw [perform]
    split
    · rename_i c₁ hs
      have live := isClosed_of_send hs
      obtain ⟨frame, queue, _, _, rfl⟩ := send_eq_ok hs
      exact ⟨[], (Hears.push live).trans (.note _ rfl rfl)⟩
    · exact ⟨[], .note c rfl rfl⟩
  | close => exact hclose c
  | start loops => exact ⟨[], .of_history rfl rfl rfl rfl rfl rfl rfl⟩
  | log line => exact ⟨[], .note c rfl rfl⟩

/-- By the actions of the reaction, one after the other. -/
theorem hears_react (close : Connection → Connection)
    (hclose : ∀ c, ∃ calls, Hears c (close c) calls) (reaction : Reaction) :
    ∀ c, ∃ calls, Hears c (react close s c reaction).1 calls := by
  induction reaction with
  | done => exact fun c => ⟨[], .refl c⟩
  | panic text => exact fun c => ⟨[], .refl c⟩
  | act action next ih =>
    intro c
    obtain ⟨calls, h⟩ := hears_perform (s := s) hclose c action
    obtain ⟨more, h'⟩ := ih (c.perform close s action).2 (c.perform close s action).1
    exact ⟨calls ++ more, h.trans h'⟩

/-- The connection after the first half of closing, in which the handler is called. -/
def closing (c : Connection) : Connection :=
  { c with stage := .closing, queue := c.queue.close }.dropParts

theorem Hears.ends (h : Hears (c.closing.told .close) c' []) (live : c.stage = .live)
    (level : LogLevel) (text : String) (fields : List (String × String)) :
    Hears c ({ c' with stage := .closed }.log level text fields) [⟨.close, .closing⟩] := by
  refine ⟨?_, ?_, h.started, h.runner, h.reader, h.direct, h.totals, fun hc => ?_⟩
  · have hbefore := h.callbacks
    rw [callbacks_told, List.append_nil] at hbefore
    exact (callbacks_note _ _).trans ((List.append_nil _).trans hbefore)
  · rw [live]; exact .closes
  · exact absurd live (isClosed_eq_true.1 hc)

/-- Closing tells the handler, once. -/
theorem hears_close (c : Connection) : ∃ calls, Hears c (c.close s) calls := by
  unfold close
  split
  · exact ⟨[], .refl c⟩
  · rename_i hlive
    have hstage : c.stage = .live := isClosed_eq_false.1 (Bool.eq_false_iff.2 hlive)
    obtain ⟨more, hreact⟩ := hears_react (s := s) id (fun c => ⟨[], .refl c⟩)
      (s.handler.react (c.closing.caller s) .close) (c.closing.told .close)
    obtain ⟨rfl, _⟩ := hreact.turning.nil_of_ne nofun
    have hcall : Hears (c.closing.told .close) (c.closing.callWith id s .close).1 [] := hreact
    refine ⟨[⟨.close, .closing⟩], ?_⟩
    dsimp only
    rw [← closing]
    generalize c.closing.callWith id s .close = r at hcall ⊢
    obtain ⟨c₁, panic⟩ := r
    cases panic with
    | none => exact hcall.ends hstage _ _ _
    | some e => exact (hcall.trans (.log _ _ _ _)).ends hstage _ _ _

theorem hears_call (c : Connection) (cb : Callback) :
    ∃ calls, Hears (c.told cb) (c.call s cb).1 calls :=
  hears_react (close s) hears_close _ _

theorem metrics_react (close : Connection → Connection)
    (hclose : ∀ c, (close c).metrics = c.metrics) (reaction : Reaction) :
    ∀ c, (react close s c reaction).1.metrics = c.metrics := by
  induction reaction with
  | done => exact fun c => rfl
  | panic text => exact fun c => rfl
  | act action next ih =>
    intro c
    refine (ih (c.perform close s action).2 (c.perform close s action).1).trans ?_
    cases action with
    | send m =>
      rw [perform]
      split
      · rename_i c₁ hs
        obtain ⟨frame, queue, _, _, rfl⟩ := send_eq_ok hs
        rfl
      · rfl
    | close => exact hclose c
    | start loops => rfl
    | log line => rfl

theorem metrics_close (c : Connection) : (c.close s).metrics = c.metrics := by
  unfold close
  split
  · rfl
  · have hcall : (c.closing.callWith id s .close).1.metrics = c.metrics :=
      metrics_react (s := s) id (fun c => rfl)
        (s.handler.react (c.closing.caller s) .close) (c.closing.told .close)
    dsimp only
    rw [← closing]
    generalize c.closing.callWith id s .close = r at hcall ⊢
    obtain ⟨c₁, panic⟩ := r
    cases panic <;> exact hcall

theorem metrics_call (c : Connection) (cb : Callback) : (c.call s cb).1.metrics = c.metrics :=
  metrics_react (close s) metrics_close _ (c.told cb)

/-- By the actions of the reaction, one after the other. -/
theorem canPanic_of_react {close : Connection → Connection} {text : Option String}
    {reaction : Reaction} : ∀ {c}, (react close s c reaction).2 = some text →
      reaction.CanPanic text := by
  induction reaction with
  | done => nofun
  | panic own => intro c h; cases h; exact .panic
  | act action next ih => exact fun h => .act (ih _ h)

theorem panics_of_call {cb : Callback} {e : EngineError} (h : (c.call s cb).2 = some e) :
    s.handler.Panics e ∧ e.own = none := by
  obtain ⟨text, htext, rfl⟩ := Option.map_eq_some_iff.1 h
  exact ⟨⟨_, cb, text, canPanic_of_react htext, rfl⟩, rfl⟩

/-! ## Passages -/

variable {c₁ : Connection} {late : EngineError → Prop} {counted : Bool}

/-- What a part of a run does to a connection, as far as its handler and its counters are concerned.
It is `counted` if no direct receive takes part: these count, too, and tell their callers, but not
the handler. -/
structure Stretch (s : Setup) (late : EngineError → Prop) (counted : Bool) (c c' : Connection)
    (calls : List Call) : Prop where
  callbacks : c'.callbacks = c.callbacks ++ calls
  course : Course s.handler late c.phase calls c'.phase
  totals : c'.totals.isSome = c.totals.isSome
  accepted : c.isClosed = true → c'.accepted = c.accepted
  counters : counted = true → ∀ t, t.isHeard = true →
    c'.metrics.count t = c.metrics.count t + .ofNat (tellings t calls)

/-- A part of a step in which no run begins and none ends. The read loop moves only in a connection
that has been started, and of the direct calls only sends, if it is counted. -/
structure Passage (s : Setup) (late : EngineError → Prop) (counted : Bool) (c c' : Connection)
    (calls : List Call) : Prop extends Stretch s late counted c c' calls where
  started : c'.started = c.started
  runner : c'.runner = c.runner
  reader : c'.reader = c.reader ∨ c.started = true
  sends : counted = true → c.OnlySends → c'.OnlySends

/-- A passage with some calls. -/
def Passes (s : Setup) (late : EngineError → Prop) (counted : Bool) (c c' : Connection) : Prop :=
  ∃ calls, Passage s late counted c c' calls

theorem stage_eq_closed (hs : c.stage ≠ .closing) (h : c.isClosed = true) : c.stage = .closed := by
  have hlive := isClosed_eq_true.1 h
  cases hg : c.stage with
  | live => exact absurd hg hlive
  | closing => exact absurd hg hs
  | closed => rfl

namespace Stretch

theorem refl (c : Connection) : Stretch s late counted c c [] :=
  ⟨(List.append_nil _).symm, .done _, rfl, fun _ => rfl, fun _ _ _ => (UInt64.add_zero _).symm⟩

theorem closed (h : Stretch s late counted c c' calls) (hc : c.stage = .closed) :
    c'.stage = .closed :=
  (congrArg Phase.stage (h.course.eq_of_closed hc)).trans hc

theorem isClosed (h : Stretch s late counted c c' calls) (hs : c.stage ≠ .closing)
    (hc : c.isClosed = true) : c'.isClosed = true := by
  rw [isClosed_eq_true, h.closed (stage_eq_closed hs hc)]
  nofun

theorem trans (h : Stretch s late counted c c' calls) (h' : Stretch s late counted c' c'' more)
    (hs : c.stage ≠ .closing) : Stretch s late counted c c'' (calls ++ more) := by
  refine ⟨?_, h.course.trans h'.course, h'.totals.trans h.totals,
    fun hc => (h'.accepted (h.isClosed hs hc)).trans (h.accepted hc), fun hx t ht => ?_⟩
  · rw [h'.callbacks, h.callbacks, List.append_assoc]
  · rw [h'.counters hx t ht, h.counters hx t ht, tellings, tellings, tellings, List.countP_append,
      UInt64.ofNat_add, UInt64.add_assoc]

theorem with_course {late' : EngineError → Prop} (h : Stretch s late counted c c' calls)
    (course : Course s.handler late' c.phase calls c'.phase) :
    Stretch s late' counted c c' calls :=
  ⟨h.callbacks, course, h.totals, h.accepted, h.counters⟩

theorem mono {late' : EngineError → Prop} (h : Stretch s late counted c c' calls)
    (hlate : ∀ e, late e → late' e) : Stretch s late' counted c c' calls :=
  h.with_course (h.course.mono hlate)

/-- A call to the handler, with what comes before it and what comes after it. -/
theorem of_told {cb : Callback} (h : Stretch s late counted (c₁.told cb) c' calls)
    (first : ∀ {calls : List Call} {q : Phase}, Course s.handler late c₁.phase calls q →
      Course s.handler late c.phase (⟨cb, c₁.stage⟩ :: calls) q)
    (history : c₁.callbacks = c.callbacks) (accepted : c.isClosed = true → c₁.accepted = c.accepted)
    (stage : c₁.stage = c.stage) (totals : c₁.totals.isSome = c.totals.isSome)
    (counters : ∀ t, t.isHeard = true →
      c₁.metrics.count t = c.metrics.count t + if t.counts cb = true then 1 else 0) :
    Stretch s late counted c c' (⟨cb, c₁.stage⟩ :: calls) := by
  refine ⟨?_, first h.course, h.totals.trans totals, fun hc => ?_, fun hx t ht => ?_⟩
  · rw [h.callbacks, callbacks_told, history, List.append_assoc]; rfl
  · have htold : (c₁.told cb).accepted = c₁.accepted :=
      (accepted_note { c₁ with calls := c₁.calls + 1 } (.called cb c₁.stage)).trans
        (List.append_nil _)
    have hclosed : (c₁.told cb).isClosed = true := by
      rw [isClosed_eq_true] at hc ⊢
      rw [show (c₁.told cb).stage = c.stage from stage]
      exact hc
    exact ((h.accepted hclosed).trans htold).trans (accepted hc)
  · have hcount : (c₁.told cb).metrics.count t = c₁.metrics.count t := rfl
    rw [h.counters hx t ht, hcount, counters t ht, tellings_cons, Nat.add_comm, UInt64.ofNat_add,
      ← UInt64.add_assoc]
    dsimp only
    split <;> rfl

end Stretch

theorem onlySends_congr (h : c'.direct = c.direct) (ho : c.OnlySends) : c'.OnlySends := by
  rw [OnlySends, h]; exact ho

namespace Passage

/-- Closing and callbacks leave the counters as they are. -/
theorem of_hears (h : Hears c c' calls) (hc : c.stage ≠ .closing) (hm : c'.metrics = c.metrics) :
    Passage s late counted c c' calls := by
  refine ⟨⟨h.callbacks, ?_, h.totals, h.accepted, fun _ t _ => ?_⟩, h.started, h.runner,
    .inl h.reader, fun _ => onlySends_congr h.direct⟩
  · rw [phase, phase, h.started]; exact h.turning.course hc
  · rw [hm, h.turning.tellings_eq]; exact (UInt64.add_zero _).symm

theorem trans (h : Passage s late counted c c' calls) (h' : Passage s late counted c' c'' more)
    (hs : c.stage ≠ .closing) : Passage s late counted c c'' (calls ++ more) := by
  refine ⟨h.toStretch.trans h'.toStretch hs, h'.started.trans h.started,
    h'.runner.trans h.runner, ?_, fun hx ho => h'.sends hx (h.sends hx ho)⟩
  rcases h'.reader with hr | hs'
  · rw [hr]; exact h.reader
  · exact .inr (h.started.symm.trans hs')

theorem with_course {late' : EngineError → Prop} (h : Passage s late counted c c' calls)
    (course : Course s.handler late' c.phase calls c'.phase) :
    Passage s late' counted c c' calls :=
  ⟨h.toStretch.with_course course, h.started, h.runner, h.reader, h.sends⟩

/-- A call to the handler, with what is counted before it and what comes after it. -/
theorem of_heard {cb : Callback} (before : Hears c c₁ [])
    (h : Passage s late counted (c₁.told cb) c' calls)
    (first : ∀ {calls : List Call} {q : Phase}, Course s.handler late c₁.phase calls q →
      Course s.handler late c.phase (⟨cb, c₁.stage⟩ :: calls) q)
    (counters : ∀ t, t.isHeard = true →
      c₁.metrics.count t = c.metrics.count t + if t.counts cb = true then 1 else 0) :
    Passage s late counted c c' (⟨cb, c₁.stage⟩ :: calls) := by
  refine ⟨h.toStretch.of_told first ?_ before.accepted before.turning.eq_of_nil before.totals
    counters, h.started.trans before.started, h.runner.trans before.runner, ?_,
    fun hx ho => h.sends hx (onlySends_congr before.direct ho)⟩
  · rw [before.callbacks, List.append_nil]
  · rw [← before.reader, ← before.started]; exact h.reader

/-- Nothing that is counted, and no call. -/
theorem of_history (hh : c'.history = c.history) (hp : c'.phase = c.phase)
    (ht : c'.totals.isSome = c.totals.isSome)
    (hm : counted = true → ∀ t, t.isHeard = true → c'.metrics.count t = c.metrics.count t)
    (hr : c'.runner = c.runner) (hl : c'.reader = c.reader ∨ c.started = true)
    (hd : counted = true → c.OnlySends → c'.OnlySends) : Passage s late counted c c' [] := by
  refine ⟨⟨?_, ?_, ht, fun _ => accepted_congr hh, fun hx t ht => ?_⟩,
    congrArg Phase.started hp, hr, hl, hd⟩
  · rw [callbacks_congr hh, List.append_nil]
  · rw [hp]; exact .done _
  · rw [hm hx t ht]; exact (UInt64.add_zero _).symm

end Passage

/-! ## Reports -/

theorem hears_counted (c : Connection) (e : EngineError) :
    ∃ c₀, Hears c c₀ [] ∧ (∃ more, Hears (c₀.told (.error e)) (c.report s e) more) ∧
      (c.report s e).metrics = c₀.metrics ∧
      c₀.metrics = if e.errorClass = .protocol then
        (c.metrics.record .error).record .protocolError else c.metrics.record .error := by
  have hbefore : Hears c (c.countError e) [] := by
    unfold countError
    split
    · exact (Hears.record c .error).trans (.record _ .protocolError)
    · exact .record c .error
  have hmetrics : (c.countError e).metrics = if e.errorClass = .protocol then
      (c.metrics.record .error).record .protocolError else c.metrics.record .error := by
    unfold countError; split <;> rfl
  obtain ⟨more, hcall⟩ := hears_call (s := s) (c.countError e) (.error e)
  have hsame := metrics_call (s := s) (c.countError e) (.error e)
  refine ⟨c.countError e, hbefore, ?_, ?_, hmetrics⟩ <;>
    rcases report_cases (s := s) c e with h | ⟨text, fields, h⟩ <;> rw [h]
  · exact ⟨more, hcall⟩
  · exact ⟨_, hcall.trans (.log _ _ _ _)⟩
  · exact hsame
  · exact hsame

/-- How much a report adds to a count. -/
def reported (e : EngineError) (t : Tally) : UInt64 :=
  (if t = .error then 1 else 0) + if t = .protocolError ∧ e.errorClass = .protocol then 1 else 0

/-- What is counted on account of an error is what it is told for. -/
theorem own_add_reported (e : EngineError) {t : Tally} (ht : t.isHeard = true) :
    (if e.own = some t then 1 else 0) + reported e t =
      if t.counts (.error e) = true then 1 else 0 := by
  cases t with
  | error => cases e <;> rfl
  | protocolError => cases e <;> rfl
  | messageReceived => cases e <;> rfl
  | bufferOverflow => cases e <;> rfl
  | idleTimeout => cases e <;> rfl
  | _ => cases ht

/-- An error is reported. What has been counted on its account before makes the counters right. -/
theorem passage_report {e : EngineError} (before : Hears c c₁ []) (hs : c.stage ≠ .closing)
    (hlate : c.isClosed = true → late e)
    (hcount : ∀ t, t.isHeard = true →
      c₁.metrics.count t = c.metrics.count t + if e.own = some t then 1 else 0) :
    ∃ more, Turning c.stage more (c₁.report s e).stage ∧
      Passage s late counted c (c₁.report s e) (⟨.error e, c.stage⟩ :: more) := by
  obtain ⟨c₀, hcounted, ⟨more, hcall⟩, hsame, hmetrics⟩ := hears_counted (s := s) c₁ e
  have hheard := before.trans hcounted
  have hstage : c₀.stage = c.stage := hheard.turning.eq_of_nil
  have hs₀ : (c₀.told (.error e)).stage ≠ .closing := by
    show c₀.stage ≠ _; rw [hstage]; exact hs
  have htell : Passage s late counted (c₀.told (.error e)) (c₁.report s e) more :=
    .of_hears hcall hs₀ hsame
  have hturn := hcall.turning
  rw [show (c₀.told (.error e)).stage = c.stage from hstage] at hturn
  refine ⟨more, hturn, ?_⟩
  rw [← hstage]
  refine .of_heard hheard htell (fun {calls q} hq => ?_) (fun t ht => ?_)
  · have hphase : c₀.phase = c.phase := by rw [phase, phase, hstage, hheard.started]
    rw [hphase] at hq
    rw [hstage]
    rw [phase] at hq ⊢
    cases hg : c.stage with
    | live => rw [hg] at hq; exact .reports hq
    | closing => exact absurd hg hs
    | closed =>
      rw [hg] at hq
      exact .trails (hlate (isClosed_eq_true.2 (by rw [hg]; nofun))) hq
  · rw [← own_add_reported e ht, ← UInt64.add_assoc, ← hcount t ht, hmetrics, reported]
    split
    · rename_i hp
      rw [Metrics.count_record _ ht, Metrics.count_record _ ht, UInt64.add_assoc]
      simp only [hp, and_true]
    · rename_i hp
      rw [Metrics.count_record _ ht]
      simp only [hp, and_false, if_false, UInt64.add_zero]

/-- The same, with the calls left out. -/
theorem passes_report_of {e : EngineError} (before : Hears c c₁ []) (hs : c.stage ≠ .closing)
    (hlate : c.isClosed = true → late e) (hcount : ∀ t, t.isHeard = true →
      c₁.metrics.count t = c.metrics.count t + if e.own = some t then 1 else 0) :
    Passes s late counted c (c₁.report s e) := by
  obtain ⟨more, _, h⟩ : ∃ more, Turning c.stage more (c₁.report s e).stage ∧
      Passage s late counted c (c₁.report s e) (⟨.error e, c.stage⟩ :: more) :=
    passage_report before hs hlate hcount
  exact ⟨_, h⟩

/-- What a call to the handler leads to: the panic that it ends in, if it does, is reported. -/
inductive Called (s : Setup) (c : Connection) (cb : Callback) : Connection → Prop where
  | returns {c' : Connection} (call : c.call s cb = (c', none)) : Called s c cb c'
  | panics {c₁ c₂ : Connection} {e : EngineError} (call : c.call s cb = (c₁, some e))
      (rest : Hears c₁ c₂ []) (same : c₂.metrics = c₁.metrics) : Called s c cb (c₂.report s e)

theorem passage_of_called {cb : Callback} (live : c.stage = .live) (h : Called s c cb c') :
    ∃ calls, Passage s late counted (c.told cb) c' calls := by
  obtain ⟨more, hcall⟩ := hears_call (s := s) c cb
  have hsame := metrics_call (s := s) c cb
  have hpanic : ∀ e, (c.call s cb).2 = some e → s.handler.Panics e ∧ e.own = none :=
    fun _ => panics_of_call
  have hs : (c.told cb).stage ≠ .closing := by show c.stage ≠ _; rw [live]; nofun
  cases h with
  | returns call =>
    rw [call] at hcall hsame
    exact ⟨more, .of_hears hcall hs hsame⟩
  | @panics c₁ c₂ e call rest same =>
    rw [call] at hcall hsame hpanic
    obtain ⟨hpanics, hplain⟩ := hpanic e rfl
    have hcount : ∀ t, t.isHeard = true →
        c₂.metrics.count t = c₁.metrics.count t + if e.own = some t then 1 else 0 := by
      intro t _; rw [same, hplain]; exact (UInt64.add_zero _).symm
    have hturn := hcall.turning
    rw [show (c.told cb).stage = .live from live] at hturn
    rcases hturn.of_live with ⟨rfl, hstage⟩ | ⟨rfl, hstage⟩
    · obtain ⟨more, hreport⟩ : Passes s late counted c₁ (c₂.report s e) :=
        passes_report_of rest (by rw [hstage]; nofun)
          (fun hc => absurd hstage (isClosed_eq_true.1 hc)) hcount
      exact ⟨_, (Passage.of_hears hcall hs hsame).trans hreport hs⟩
    · obtain ⟨more, hturn', hreport⟩ : ∃ more, Turning c₁.stage more (c₂.report s e).stage ∧
          Passage s s.handler.Panics counted c₁ (c₂.report s e) (⟨.error e, c₁.stage⟩ :: more) :=
        passage_report rest (by rw [hstage]; nofun) (fun _ => hpanics) hcount
      obtain ⟨rfl, _⟩ := hturn'.nil_of_ne (by rw [hstage]; nofun)
      have hphase : (c₂.report s e).phase = ⟨.closed, c.started⟩ := by
        rw [hreport.course.eq_of_closed hstage, phase, hstage, hcall.started]; rfl
      refine ⟨_, ((Passage.of_hears hcall hs hsame).trans hreport hs).with_course ?_⟩
      rw [hphase, hstage, phase, show (c.told cb).stage = .live from live]
      exact .panics hpanics (.done _)

theorem called_deliver (c : Connection) (m : Message) :
    Called s c (.message m) (c.deliver s m) := by
  unfold deliver
  split
  · exact .returns ‹_›
  · exact .panics ‹_› (.log _ _ _ _) rfl

/-! ## Passages in a row -/

/-- Everything that a passage is about. -/
structure Aspect where
  history : List Moment
  phase : Phase
  runner : Runner
  reader : ReadLoop
  direct : List DirectCall
  metrics : Metrics
  totals : Option Metrics

def aspect (c : Connection) : Aspect :=
  ⟨c.history, c.phase, c.runner, c.reader, c.direct, c.metrics, c.totals⟩

namespace Passes

theorem of_aspect (h : c'.aspect = c.aspect) : Passes s late counted c c' := by
  obtain ⟨hh, hp, hr, hl, hd, hm, ht⟩ := Aspect.mk.inj h
  exact ⟨[], .of_history hh hp (congrArg _ ht) (fun _ t _ => congrArg (·.count t) hm) hr (.inl hl)
    fun _ => onlySends_congr hd⟩

theorem refl (c : Connection) : Passes s late counted c c := of_aspect rfl

theorem settled (h : Passes s late counted c c') (hs : c.stage ≠ .closing) :
    c'.stage ≠ .closing := by
  obtain ⟨_, h⟩ := h
  exact h.course.settled hs

theorem started (h : Passes s late counted c c') (hc : c.started = true) : c'.started = true := by
  obtain ⟨_, h⟩ := h
  exact h.started.trans hc

theorem trans (h : Passes s late counted c c') (h' : Passes s late counted c' c'')
    (hs : c.stage ≠ .closing) : Passes s late counted c c'' := by
  obtain ⟨_, h⟩ := h
  obtain ⟨_, h'⟩ := h'
  exact ⟨_, h.trans h' hs⟩

theorem of_hears (h : Hears c c' calls) (hs : c.stage ≠ .closing) (hm : c'.metrics = c.metrics) :
    Passes s late counted c c' :=
  ⟨calls, .of_hears h hs hm⟩

theorem log (c : Connection) (level : LogLevel) (text : String) (fields : List (String × String))
    (hs : c.stage ≠ .closing) : Passes s late counted c (c.log level text fields) :=
  of_hears (.log c _ _ _) hs rfl

theorem record (c : Connection) {t : Tally} (ht : t.isHeard = false) :
    Passes s late counted c (c.record t) := by
  refine ⟨[], .of_history rfl rfl (Option.isSome_map ..) (fun _ t' ht' => ?_) rfl (.inl rfl)
    fun _ => id⟩
  have hne : t' ≠ t := by rintro rfl; cases ht.symm.trans ht'
  show (c.metrics.record t).count t' = _
  rw [Metrics.count_record _ ht', if_neg hne]
  exact UInt64.add_zero _

/-- The read loop goes on, in a connection that has been started. -/
theorem of_reader {reader : ReadLoop} (hc : c.started = true)
    (h : c'.aspect = { c.aspect with reader }) : Passes s late counted c c' := by
  obtain ⟨hh, hp, hr, _, hd, hm, ht⟩ := Aspect.mk.inj h
  exact ⟨[], .of_history hh hp (congrArg _ ht) (fun _ t _ => congrArg (·.count t) hm) hr (.inr hc)
    fun _ => onlySends_congr hd⟩

/-- A direct call goes on, which sends if the passage is counted. -/
theorem of_direct {direct : List DirectCall} (h : c'.aspect = { c.aspect with direct })
    (hd : counted = true → c.OnlySends → ∀ d ∈ direct, d.isSend = true) :
    Passes s late counted c c' := by
  obtain ⟨hh, hp, hr, hl, hd', hm, ht⟩ := Aspect.mk.inj h
  refine ⟨[], .of_history hh hp (congrArg _ ht) (fun _ t _ => congrArg (·.count t) hm) hr (.inl hl)
    fun hx ho => ?_⟩
  rw [OnlySends, hd']; exact hd hx ho

/-- A direct receive goes on, and may count what its caller is told. -/
theorem of_receive {direct : List DirectCall} {metrics : Metrics} {totals : Option Metrics}
    (h : c'.aspect = { c.aspect with direct, metrics, totals })
    (ht : totals.isSome = c.totals.isSome) : Passes s late false c c' := by
  obtain ⟨hh, hp, hr, hl, _, _, ht'⟩ := Aspect.mk.inj h
  exact ⟨[], .of_history hh hp ((congrArg _ ht').trans ht) nofun hr (.inl hl) nofun⟩

end Passes

theorem passes_close (hs : c.stage ≠ .closing) : Passes s late counted c (c.close s) := by
  obtain ⟨calls, h⟩ := hears_close (s := s) c
  exact .of_hears h hs (metrics_close c)

theorem passes_report {e : EngineError} (hs : c.stage ≠ .closing) (plain : e.own = none)
    (hlate : c.isClosed = true → late e) : Passes s late counted c (c.report s e) := by
  refine passes_report_of (.refl c) hs hlate fun t _ => ?_
  rw [plain]; exact (UInt64.add_zero _).symm

end Connection
end FrameEngine
