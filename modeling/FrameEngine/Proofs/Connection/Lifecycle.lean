import FrameEngine.Proofs.Connection.DirectCalls
import FrameEngine.Proofs.Connection.Outgoing

/-!
# FrameEngine.Proofs.Connection.Lifecycle

A connection from its first step to its last. `stretch_step` takes a step apart: the calls that it
adds are a course, the errors among them that come too late are brought by its label, and what was
true of the runs and the loops stays true (`Kept`). `stretch_steps` says the same of a run.

`lifecycle` is what a user of a connection can rely on, whoever closes it and starts it, when and
how often.
-/

namespace FrameEngine

/-- A run begins, or is refused. -/
def Label.Starts : Label → Prop
  | .start _ | .startRequested => True
  | _ => False

namespace Connection

variable {s : Setup} {c c' c'' c₁ : Connection} {calls more : List Call}
  {late : EngineError → Prop} {counted : Bool}

/-- The label drives a task on with something that is reported even if the connection is closed:
octets of which the read loop is left with more than one frame can be, or a failure of the stream
that may pass. -/
inductive Brings (s : Setup) (c : Connection) : Label → EngineError → Prop where
  | octets {d : Octets} (long : s.framing.maxFrameLength < (c.leftover s d).length) :
      Brings s c (.wake .reader (.read (.ok d)))
        (.bufferOverflow (c.leftover s d).length s.framing.maxFrameLength)
  | read {task : Task} {f : IoFailure} (passing : f.isTransient = true) :
      Brings s c (.wake task (.read (.error f))) (.io f)
  | write {task : Task} {f : IoFailure} (passing : f.isTransient = true) :
      Brings s c (.wake task (.write (.error f))) (.io f)
  | timer {task : Task} (writes : task = .writer ∨ ∃ ticket, task = .direct ticket) :
      Brings s c (.wake task .timer) (.io (.ofKind .timedOut))

/-- Some step of a run closes the connection or comes after its end, and brings an error. -/
def Brought (s : Setup) (c : Connection) (ls : List Label) (e : EngineError) : Prop :=
  ∃ before l after a b, ls = before ++ l :: after ∧ Steps s c before a ∧ a.step s l = some b ∧
    b.isClosed = true ∧ Brings s a l e

/-! ## Steps -/

/-- Between two steps a connection is not half closed, its read loop belongs to a run, and a run
that has begun goes on until it is closed. -/
structure Kept (c : Connection) : Prop where
  settled : c.stage ≠ .closing
  reads : c.reader ≠ .absent → c.started = true
  runs : c.started = true ↔ c.runner ≠ .idle
  ended : c.runner = .finished → c.stage = .closed

theorem kept_new (s : Setup) : Kept (new s) := ⟨nofun, nofun, ⟨nofun, nofun⟩, nofun⟩

theorem onlySends_new (s : Setup) : OnlySends (new s) := nofun

theorem Passage.kept (h : Passage s late counted c c' calls) (hk : Kept c) : Kept c' := by
  refine ⟨h.course.settled hk.settled, fun hr => ?_, ?_, fun ho => ?_⟩
  · rw [h.started]
    rcases h.reader with he | hs
    · exact hk.reads (he ▸ hr)
    · exact hs
  · rw [h.runner, h.started]; exact hk.runs
  · exact h.closed (hk.ended (h.runner.symm.trans ho))

/-- A step, or a run, from a connection to another. -/
structure Advances (s : Setup) (late : EngineError → Prop) (counted : Bool)
    (c c' : Connection) : Prop where
  kept : Kept c'
  sends : counted = true → c'.OnlySends
  stretch : ∃ calls, Stretch s late counted c c' calls

theorem Passes.advances (h : Passes s late counted c c') (hk : Kept c)
    (hx : counted = true → c.OnlySends) : Advances s late counted c c' := by
  obtain ⟨calls, h⟩ := h
  exact ⟨h.kept hk, fun hc => h.sends hc (hx hc), calls, h.toStretch⟩

/-- A run begins: the handler is told, and the loops are there to be driven. -/
theorem advances_begin {reader : ReadLoop} (hk : Kept c) (hx : counted = true → c.OnlySends)
    (live : c.stage = .live) (fresh : c.started = false)
    (h : Called s { c with started := true }.touch .connect c₁)
    (looped : c'.aspect = { c₁.aspect with reader, runner := .joining }) :
    Advances s late counted c c' := by
  have hlive : stage { c with started := true }.touch = .live := live
  have hphase : phase { c with started := true }.touch = ⟨.live, true⟩ :=
    congrArg (Phase.mk · true) live
  obtain ⟨calls, htold⟩ : ∃ calls, Passage s late counted
      ({ c with started := true }.touch.told .connect) c₁ calls := passage_of_called hlive h
  have hconnect : Stretch s late counted c c₁ (⟨.connect, .live⟩ :: calls) := by
    rw [← hlive]
    refine htold.toStretch.of_told (fun {calls q} hq => ?_) rfl (fun _ => rfl) rfl rfl fun t _ => ?_
    · rw [hphase] at hq
      rw [hlive, phase, fresh, live]
      exact .connects hq
    · rw [Tally.counts_connect]; exact (UInt64.add_zero _).symm
  obtain ⟨hh, hp, hr, _, hd, hm, ht⟩ := Aspect.mk.inj looped
  have hstarted : c'.started = true := (congrArg Phase.started hp).trans htold.started
  have hstretch : Stretch s late counted c c' (⟨.connect, .live⟩ :: calls) := by
    refine ⟨(callbacks_congr hh).trans hconnect.callbacks, ?_, ?_, fun hc => ?_, ?_⟩
    · rw [hp]; exact hconnect.course
    · rw [ht]; exact hconnect.totals
    · exact absurd live (isClosed_eq_true.1 hc)
    · rw [hm]; exact hconnect.counters
  refine ⟨⟨hstretch.course.settled hk.settled, fun _ => hstarted, ⟨fun _ => ?_, fun _ => hstarted⟩,
    ?_⟩, fun hc => ?_, _, hstretch⟩
  · intro hidle
    cases hr.symm.trans hidle
  · intro hfinished
    cases hr.symm.trans hfinished
  · rw [OnlySends, hd]; exact htold.sends hc (hx hc)

theorem start_of_refused (h : (c.isClosed || c.started) = true) (loops : LoopSet) :
    c.start s loops =
      (c.log .warn "Connection already started or closed" []).note .returned := by
  rw [start, if_pos h]

theorem advances_start (hk : Kept c) (hx : counted = true → c.OnlySends) (loops : LoopSet) :
    Advances s late counted c (c.start s loops) := by
  by_cases hrefused : (c.isClosed || c.started) = true
  · rw [start_of_refused hrefused]
    have hnote : Hears c ((c.log .warn "Connection already started or closed" []).note .returned)
        [] := (Hears.log c _ _ _).trans (.note _ rfl rfl)
    exact (Passes.of_hears hnote hk.settled rfl).advances hk hx
  · have hfresh : c.isClosed = false ∧ c.started = false := by simpa using hrefused
    have live : c.stage = .live := isClosed_eq_false.1 hfresh.1
    rw [start, if_neg hrefused]
    dsimp only
    generalize hcall : call s { c with started := true }.touch .connect = r
    obtain ⟨c₁, panic⟩ := r
    cases panic with
    | none => exact advances_begin hk hx live hfresh.2 (.returns hcall) rfl
    | some e => exact advances_begin hk hx live hfresh.2 (.panics hcall (.refl _) rfl) rfl

/-- Whoever closes an open connection comes back to one that is closed. -/
theorem stage_close_of_live (live : c.isClosed = false) : (c.close s).stage = .closed := by
  rw [close, if_neg (Bool.eq_false_iff.1 live)]
  rfl

theorem stage_close (hs : c.stage ≠ .closing) : (c.close s).stage = .closed := by
  cases hc : c.isClosed with
  | true => rw [close, if_pos hc]; exact stage_eq_closed hs hc
  | false => exact stage_close_of_live hc

theorem advances_stepRunner {w : Wake} (hk : Kept c) (hx : counted = true → c.OnlySends)
    (h : c.stepRunner s w = some c') : Advances s late counted c c' := by
  obtain ⟨-, joining, -, c₁, hlogged, rfl⟩ := runnerStep_of h
  have hlog : Passes s late counted c c₁ := by
    rcases hlogged with rfl | rfl
    · exact .refl c₁
    · exact .log c _ _ _ hk.settled
  have hclose := hlog.trans (passes_close (hlog.settled hk.settled)) hk.settled
  have hclosed : (c₁.close s).stage = .closed := stage_close (hlog.settled hk.settled)
  obtain ⟨hk', hx', calls, h⟩ := (hclose.trans (.of_hears (.note _ (o := .returned) rfl rfl)
    (hclose.settled hk.settled) rfl) hk.settled).advances hk hx
  have hstarted : (c₁.close s).started = true :=
    hclose.started (hk.runs.2 (by rw [joining]; nofun))
  exact ⟨⟨hk'.settled, hk'.reads, ⟨nofun, fun _ => hstarted⟩, fun _ => hclosed⟩, hx', calls,
    h.callbacks, h.course, h.totals, h.accepted, h.counters⟩

/-- One step: its calls are a course, and errors that come too late are brought by its label. -/
theorem advances_step (counted : Bool) {l : Label} (hk : Kept c) (hx : counted = true → c.OnlySends)
    (hl : counted = true → l ≠ .receiveDirect) (h : c.step s l = some c') :
    Advances s (Brings s c l) counted c c' := by
  have hs := hk.settled
  cases step_of h with
  | ticks timers wall =>
    have htick : Passes s (Brings s c (.tick timers wall)) counted c
        { c with now := c.now + timers, wall := c.wall + wall } := .of_aspect rfl
    exact htick.advances hk hx
  | starts loops => exact advances_start hk hx loops
  | @obeys loops requested asked =>
    have hk' : Kept { c with requested } := ⟨hk.settled, hk.reads, hk.runs, hk.ended⟩
    obtain ⟨hkept, hsends, calls, h⟩ : Advances s (Brings s c .startRequested) counted
        { c with requested } ({ c with requested }.start s loops) := advances_start hk' hx loops
    exact ⟨hkept, hsends, calls, h.callbacks, h.course, h.totals, h.accepted, h.counters⟩
  | closes => exact (passes_close hs).advances hk hx
  | sends live | queues live => exact (Passes.of_hears (.push live) hs rfl).advances hk hx
  | refuses | rejects => exact (Passes.refl c).advances hk hx
  | sendsDirect frame => exact (passes_beginSend c frame).advances hk hx
  | receives =>
    cases counted with
    | true => exact absurd rfl (hl rfl)
    | false => exact (passes_beginReceive hs).advances hk hx
  | reader went =>
    refine (passes_stepReader hs (hk.reads (reader_ne_absent went)) ?_ ?_ went).advances hk hx
    · rintro f rfl hf; exact .read hf
    · rintro d rfl hlong; exact .octets hlong
  | writer went =>
    refine (passes_stepWriter hs ?_ ?_ went).advances hk hx
    · rintro f rfl hf; exact .write hf
    · rintro rfl; exact .timer (.inl rfl)
  | idler went => exact (passes_stepIdler hs went).advances hk hx
  | runner went => exact advances_stepRunner hk hx went
  | @direct ticket _ _ went =>
    refine (passes_stepDirect hs ?_ ?_ ?_ hx went).advances hk hx
    · rintro f rfl hf; exact .read hf
    · rintro f rfl hf; exact .write hf
    · rintro rfl; exact .timer (.inr ⟨ticket, rfl⟩)

/-! ## Runs -/

/-- An error that comes too late is brought by a step after which the connection is closed. -/
theorem Stretch.brought {l : Label} (h : Stretch s (Brings s c l) counted c c' calls)
    (step : c.step s l = some c') (ls : List Label) :
    Stretch s (Brought s c (l :: ls)) counted c c' calls := by
  cases hc : c'.isClosed with
  | true => exact h.mono fun e he => ⟨[], l, ls, c, c', rfl, .nil c, step, hc, he⟩
  | false => exact h.with_course (h.course.of_live (isClosed_eq_false.1 hc))

theorem advances_steps (counted : Bool) {ls : List Label} (run : Steps s c ls c') (hk : Kept c)
    (hx : counted = true → c.OnlySends) (hls : counted = true → ∀ l ∈ ls, l ≠ .receiveDirect) :
    Advances s (Brought s c ls) counted c c' := by
  induction run with
  | nil c => exact ⟨hk, hx, [], .refl c⟩
  | @cons a b c l ls first _ ih =>
    have hfirst := advances_step counted hk hx (fun hc => hls hc l List.mem_cons_self) first
    obtain ⟨calls, hstep⟩ := hfirst.stretch
    have hrest := ih hfirst.kept hfirst.sends fun hc l' hl' =>
      hls hc l' (List.mem_cons_of_mem _ hl')
    obtain ⟨more, hsteps⟩ := hrest.stretch
    refine ⟨hrest.kept, hrest.sends, calls ++ more,
      (hstep.brought first ls).trans (hsteps.mono fun e he => ?_) hk.settled⟩
    obtain ⟨before, l', after, a', b', rfl, hbefore, hstep', hclosed, hbrings⟩ := he
    exact ⟨l :: before, l', after, a', b', rfl, .cons first hbefore, hstep', hclosed, hbrings⟩

/-- What is there of a connection after any run. -/
theorem stretch_of_run (counted : Bool) {ls : List Label} (run : Steps s (new s) ls c)
    (hls : counted = true → ∀ l ∈ ls, l ≠ .receiveDirect) :
    Kept c ∧ Stretch s (Brought s (new s) ls) counted (new s) c c.callbacks := by
  obtain ⟨hk, _, calls, h⟩ := advances_steps counted run (kept_new s)
    (fun _ => onlySends_new s) hls
  have hcalls : c.callbacks = calls := h.callbacks
  exact ⟨hk, hcalls ▸ h⟩

/-! ## Starts -/

/-- A run has begun, or it is too late for one. -/
def Begun (c : Connection) : Prop := (c.isClosed || c.started) = true

theorem begun_iff : Begun c ↔ c.isClosed = true ∨ c.started = true := by
  rw [Begun, Bool.or_eq_true]

theorem begun_start (hk : Kept c) (loops : LoopSet) : Begun (c.start s loops) := by
  by_cases hrefused : (c.isClosed || c.started) = true
  · rw [start_of_refused hrefused]; exact hrefused
  · have hjoining : (c.start s loops).runner = .joining := by
      rw [start, if_neg hrefused]
    have hsends : false = true → c.OnlySends := nofun
    have hadvances : Advances s (fun _ => False) false c (c.start s loops) :=
      advances_start hk hsends loops
    rw [Begun, hadvances.kept.runs.2 (by rw [hjoining]; nofun), Bool.or_true]

theorem begun_step {l : Label} (hk : Kept c) (hl : l.Starts) (h : c.step s l = some c') :
    Begun c' := by
  cases step_of h with
  | starts loops => exact begun_start hk loops
  | @obeys loops requested asked =>
    have hk' : Kept { c with requested } := ⟨hk.settled, hk.reads, hk.runs, hk.ended⟩
    exact begun_start hk' loops
  | _ => exact hl.elim

theorem Stretch.begun (h : Stretch s late counted c c' calls) (hk : Kept c) (hb : Begun c) :
    Begun c' := by
  rw [begun_iff] at hb ⊢
  exact hb.imp (h.isClosed hk.settled) h.course.started

theorem begun_steps {ls : List Label} (run : Steps s c ls c') (hk : Kept c)
    (hls : ∃ l ∈ ls, l.Starts) : Begun c' := by
  induction run with
  | nil c => obtain ⟨_, hl, _⟩ := hls; cases hl
  | @cons a b c l ls first rest ih =>
    have hkept : Kept b := (advances_step false hk nofun nofun first).kept
    obtain ⟨l', hl', hstarts⟩ := hls
    rcases List.mem_cons.1 hl' with rfl | hl'
    · obtain ⟨_, _, _, h⟩ := advances_steps false rest hkept nofun nofun
      exact h.begun hkept (begun_step hk hstarts first)
    · exact ih hkept ⟨l', hl', hstarts⟩

/-- A run that comes too late does nothing, and its caller is told so in the journal alone. -/
theorem step_of_begun {l : Label} (hb : Begun c) (hl : l.Starts) (h : c.step s l = some c') :
    c'.callbacks = c.callbacks ∧ c'.runner = c.runner ∧ c'.reader = c.reader ∧
      c'.writer = c.writer ∧ c'.idler = c.idler := by
  have hnote : ∀ c : Connection, ((c.log .warn "Connection already started or closed" []).note
      .returned).callbacks = c.callbacks := by
    intro c
    rw [callbacks_note, log, callbacks_note]
    exact (List.append_nil _).trans (List.append_nil _)
  cases step_of h with
  | starts loops =>
    rw [start_of_refused hb]
    exact ⟨hnote c, rfl, rfl, rfl, rfl⟩
  | @obeys loops requested asked =>
    have hb' : Begun { c with requested } := hb
    rw [start_of_refused hb']
    exact ⟨hnote { c with requested }, rfl, rfl, rfl, rfl⟩
  | _ => exact hl.elim

/-! ## The life of a connection -/

/-- Wherever a connection is, in whatever callback, once it is closed nothing can be sent. -/
theorem send_of_closed (hc : c.isClosed = true) (m : Message) :
    c.send s m = .error .connectionClosed := by
  rw [send, if_pos hc]

theorem sendFrame_of_closed (hc : c.isClosed = true) (frame : Octets) :
    c.sendFrame frame = .error .connectionClosed := by
  rw [sendFrame, if_pos hc]

/-- What a user of a connection can rely on, after the steps `ls` from its beginning. -/
structure Lifecycle (s : Setup) (ls : List Label) (c : Connection) : Prop where
  /-- The handler is told of the start once at most. -/
  connects : c.callbacks.countP (·.callback.isConnect) ≤ 1
  /-- No message is delivered before that. -/
  greets : ∀ m stage before after, c.callbacks = before ++ ⟨.message m, stage⟩ :: after →
    ⟨.connect, .live⟩ ∈ before
  /-- The handler is told of the end if the connection is closed, and then once. -/
  closes : c.callbacks.countP (·.callback.isClose) = if c.isClosed then 1 else 0
  /-- That is so when a run has been asked for and none goes on. -/
  returns : (∃ l ∈ ls, l.Starts) → c.runner ≠ .joining →
    c.callbacks.countP (·.callback.isClose) = 1
  /-- The connection goes from open to closed, and is between the two only when the handler is told
  of the end. -/
  stages : Stage.Ordered (.live :: (c.callbacks.map Call.stage ++ [c.stage]))
  settled : c.stage ≠ .closing
  moves : ∀ l c', c.step s l = some c' →
    c'.stage = c.stage ∨ c.stage = .live ∧ c'.stage = .closed
  /-- Whoever closes it comes back to a closed connection, a callback in the middle of a step
  included. -/
  closed : (c.close s).stage = .closed ∧
    ∀ c₀ : Connection, c₀.isClosed = false → (c₀.close s).stage = .closed
  /-- A run that is asked for after the first calls nothing and drives no loop. -/
  again : (∃ l ∈ ls, l.Starts) → ∀ l c', l.Starts → c.step s l = some c' →
    c'.callbacks = c.callbacks ∧ c'.runner = c.runner ∧ c'.reader = c.reader ∧
      c'.writer = c.writer ∧ c'.idler = c.idler
  /-- Nothing can be sent once the connection is being closed, neither by callers nor by callbacks,
  and the queue takes no frame any more. -/
  refuses : (∀ c₀ : Connection, c₀.isClosed = true → (∀ m, c₀.send s m = .error .connectionClosed) ∧
      ∀ frame, c₀.sendFrame frame = .error .connectionClosed) ∧
    (c.isClosed = true → (∀ m, c.step s (.send m) = some c) ∧
      (∀ frame, c.step s (.sendFrame frame) = some c) ∧
      ∀ ls' c', Steps s c ls' c' → c'.accepted = c.accepted)

theorem lifecycle {ls : List Label} (run : Steps s (new s) ls c) : Lifecycle s ls c := by
  obtain ⟨hk, h⟩ := stretch_of_run false run nofun
  have hcloses : c.callbacks.countP (·.callback.isClose) = if c.isClosed then 1 else 0 := by
    have hcount := h.course.countP_isClose nofun
    refine (Nat.add_zero _).symm.trans (hcount.trans ?_)
    cases hc : c.isClosed with
    | true => exact if_neg (isClosed_eq_true.1 hc)
    | false => exact if_pos (isClosed_eq_false.1 hc)
  have hbegun : (∃ l ∈ ls, l.Starts) → Begun c := begun_steps run (kept_new s)
  refine
    { connects := ?_
      greets := fun m stage before after hc => (h.course.greeted hc).resolve_left nofun
      closes := hcloses
      returns := fun hls hrunner => ?_
      stages := h.course.ordered
      settled := hk.settled
      moves := fun l c' hstep => ?_
      closed := ⟨stage_close hk.settled, fun c₀ => stage_close_of_live⟩
      again := fun hls l c' => step_of_begun (hbegun hls)
      refuses := ⟨fun c₀ hc => ⟨send_of_closed hc, sendFrame_of_closed hc⟩, fun hc =>
        ⟨fun m => ?_, fun frame => ?_, fun ls' c' run' => ?_⟩⟩ }
  · have hcount : c.callbacks.countP (·.callback.isConnect) = c.started.toNat :=
      (Nat.add_zero _).symm.trans h.course.countP_isConnect
    rw [hcount]
    exact Bool.toNat_le _
  · have hclosed : c.isClosed = true := by
      rcases begun_iff.1 (hbegun hls) with hc | hs
      · exact hc
      · have hidle := hk.runs.1 hs
        cases hr : c.runner with
        | idle => exact absurd hr hidle
        | joining => exact absurd hr hrunner
        | finished => rw [isClosed_eq_true, hk.ended hr]; nofun
    rw [hcloses, hclosed]; rfl
  · have hadvances := advances_step false hk nofun nofun hstep
    obtain ⟨calls, hstretch⟩ := hadvances.stretch
    cases hg : c.stage with
    | live =>
      cases hg' : c'.stage with
      | live => exact .inl rfl
      | closing => exact absurd hg' hadvances.kept.settled
      | closed => exact .inr ⟨rfl, rfl⟩
    | closing => exact absurd hg hk.settled
    | closed => exact .inl (hstretch.closed hg)
  · rw [step, send_of_closed hc]; rfl
  · rw [step, sendFrame_of_closed hc]; rfl
  · obtain ⟨calls, hstretch⟩ := (advances_steps false run' hk nofun nofun).stretch
    exact hstretch.accepted hc

/-- The handler closes the connection over its first message and panics, and over the end it asks
for another run, closes again and panics again. -/
theorem lifecycle_of_close_in_message :
    let s : Setup :=
      { id := 1, peer := none, localAddress := none, framing := .field 64,
        settings := { ConnectionSettings.standard with rateLimit := .zero false },
        handler :=
          { react := fun _ cb =>
              match cb with
              | .message _ => .act .close fun _ => .panic none
              | .close => .act (.start .full) fun _ => .act .close fun _ => .panic none
              | _ => .done
            notice := fun _ => ⟨[], none⟩ },
        chance := fun _ delay => delay }
    let ls : List Label :=
      [.start .readWrite, .wake .reader .go, .wake .writer .go,
        .wake .reader (.read (.ok [0, 0, 0, 17, 0, 0, 0, 1, 0, 0, 0, 1, 0, 0, 0, 1, 7])),
        .start .full, .startRequested, .close, .send (.field ⟨1, 1, []⟩), .wake .writer .cancelled,
        .wake .runner .go]
    ∃ c, Steps s (new s) ls c ∧
      c.callbacks.map (fun call => (call.callback.name, call.stage)) =
        [("on_connect", .live), ("on_message", .live), ("on_close", .closing),
          ("on_error", .closed)] ∧
      c.runner = .finished ∧ Lifecycle s ls c := by
  intro s ls
  have hseen : (follow s (new s) ls).map (fun c =>
      (c.callbacks.map (fun call => (call.callback.name, call.stage)), c.runner)) =
      some ([("on_connect", .live), ("on_message", .live), ("on_close", .closing),
        ("on_error", .closed)], .finished) := by
    decide +kernel
  obtain ⟨c, hrun, hc⟩ := Option.map_eq_some_iff.1 hseen
  obtain ⟨hcalls, hrunner⟩ := Prod.mk.inj hc
  have hsteps := steps_of_follow hrun
  exact ⟨c, hsteps, hcalls, hrunner, lifecycle hsteps⟩

end Connection
end FrameEngine
