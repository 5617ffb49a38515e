import FrameEngine.Proofs.Backoff
import FrameEngine.Proofs.Connection.Delivery
import FrameEngine.Proofs.Connection.Parts
import FrameEngine.Proofs.Connection.Retries

/-!
# FrameEngine.Proofs.Connection.Streaks

How long the read loop puts up with a stream that fails. Failures that may pass make a `streak`,
which ends when the stream gives octets; what happens in between, deadlines that pass included, is
no part of it. The loop has one backoff for all its reads, and `Tallied` says that it has given as
many delays as the streak is long: `ReadTrial` lists what a read can do, and each turn of the loop
does one of these things to the backoff.

`persists_of_steps` says what this means for the next failure. It is told to the handler, counted
and followed by the delay that is its turn, as long as the budget is not spent; the one after that
ends the loop and closes the connection. Nothing else does, unless the handler closes the
connection, the stream ends or breaks, or there is silence.
-/

namespace FrameEngine

/-- How many failures of the stream there have been in a row, one after the other, after a label. -/
def Label.onStreak (n : Nat) : Label → Nat
  | .wake .reader (.read (.ok d)) => if d.isEmpty then n else 0
  | .wake .reader (.read (.error f)) => if f.isTransient then n + 1 else n
  | _ => n

/-- The failures that may pass, of the stream that the read loop reads from, since it last gave
octets, or since the beginning. -/
def streak (ls : List Label) : Nat := ls.foldl Label.onStreak 0

namespace ReadLoop

/-- The backoff of a loop that has the read half. -/
def backoff? : ReadLoop → Option Backoff
  | .paused _ _ b => some b
  | .reading job _ => some job.backoff
  | _ => none

/-- Not at the stream yet. -/
def isNew : ReadLoop → Bool
  | .absent | .fresh | .locking => true
  | _ => false

theorem backoff?_of_isNew {reader : ReadLoop} (h : reader.isNew = true) :
    reader.backoff? = none := by
  cases reader with
  | absent | fresh | locking => rfl
  | paused | reading | finished => cases h

end ReadLoop

namespace Connection

/-- What a read can do. -/
inductive ReadTrial (s : Setup) (c : Connection) (job : ReadJob) : Wake → ReadProgress → Prop where
  | stopped {w : Wake} (closed : c.isClosed = true) :
      ReadTrial s c job w (.fails .connectionClosed)
  | idle (late : s.settings.idleTimeout ≤ c.idleFor) :
      ReadTrial s c job .timer (.fails .idleTimeout)
  /-- A deadline passes, or a pause. -/
  | resumes : ReadTrial s c job .timer (.goes (c.beginRead s job.backoff))
  | atEnd : ReadTrial s c job (.read (.ok [])) (.fails .connectionClosed)
  | hears {d : Octets} (fed : d ≠ []) :
      ReadTrial s c job (.read (.ok d)) (.data d job.backoff.reset)
  | backsOff {f : IoFailure} {delay resume : Span} {b : Backoff} (passes : f.isTransient = true)
      (granted : job.backoff.next? = some (delay, b)) :
      ReadTrial s c job (.read (.error f)) (.goes ⟨.retrying resume, b⟩)
  | givesUp {f : IoFailure} (passes : f.isTransient = true) (spent : job.backoff.next? = none) :
      ReadTrial s c job (.read (.error f))
        (.fails (.retriesExhausted job.backoff.attempts f))
  | breaks {f : IoFailure} (lasts : f.isTransient = false) :
      ReadTrial s c job (.read (.error f)) (.fails (.io f))

/-- What a turn does to the backoff of the read loop. -/
inductive LoopTrial (s : Setup) (c : Connection) : Wake → Connection → Prop where
  | enters {w : Wake} {c' : Connection} (new : c.reader.isNew = true)
      (quiet : (Label.wake .reader w).onStreak 0 = 0)
      (next : c'.reader.isNew = true ∨
        c'.reader.backoff? = some (.ofPolicy s.settings.retry)) : LoopTrial s c w c'
  | keeps {w : Wake} {b : Backoff} {c' : Connection} (before : c.reader.backoff? = some b)
      (quiet : ∀ n, (Label.wake .reader w).onStreak n = n) (after : c'.reader.backoff? = some b) :
      LoopTrial s c w c'
  | hears {d : Octets} {b : Backoff} {c' : Connection} (before : c.reader.backoff? = some b)
      (fed : d ≠ []) (after : c'.reader.backoff? = some b.reset) :
      LoopTrial s c (.read (.ok d)) c'
  | backsOff {f : IoFailure} {delay : Span} {b b' : Backoff} {c' : Connection}
      (before : c.reader.backoff? = some b) (passes : f.isTransient = true)
      (granted : b.next? = some (delay, b')) (after : c'.reader.backoff? = some b') :
      LoopTrial s c (.read (.error f)) c'
  | ends {w : Wake} {c' : Connection} (finished : c'.reader = .finished) : LoopTrial s c w c'

/-- The backoff of the read loop has given as many delays as the streak is long. -/
structure Tallied (s : Setup) (n : Nat) (c : Connection) : Prop where
  new : c.reader.isNew = true → n = 0
  spent : ∀ b, c.reader.backoff? = some b →
    b = (Backoff.ofPolicy s.settings.retry).spent n ∧ n ≤ s.settings.retry.maxRetries

variable {s : Setup} {c c' : Connection} {w : Wake} {n : Nat}

/-! ## Turns of the read loop -/

theorem trial_of_stepRead {job : ReadJob} {p : ReadProgress}
    (h : c.stepRead s job w = some (c', p)) : ReadTrial s c job w p := by
  cases readStep_of h with
  | stops closed => exact .stopped closed
  | expires point due silent => exact .idle silent
  | waits point due active => exact .resumes
  | ends point => exact .atEnd
  | gets point fits fed => exact .hears fed
  | breaks point lasts => exact .breaks lasts
  | retries point passes granted =>
    obtain ⟨delay, hnext⟩ := next?_of_granted granted
    exact .backsOff passes hnext
  | exhausts point passes spent => exact .givesUp passes spent
  | resumes point due => exact .resumes

theorem backoff?_readerRound (c : Connection) (buffer : Accumulator) (b : Backoff) :
    (c.readerRound s buffer b).reader = .finished ∨
      (c.readerRound s buffer b).reader.backoff? = some b := by
  unfold readerRound
  split
  · exact .inl rfl
  · obtain ⟨taken, limiter, h⟩ := tryAcquire_eq c
    rw [h]
    cases taken <;> exact .inr rfl

theorem backoff?_takeReadHalf (c : Connection) :
    (c.takeReadHalf s).reader = .finished ∨
      (c.takeReadHalf s).reader.backoff? = some (.ofPolicy s.settings.retry) := by
  unfold takeReadHalf
  dsimp only
  split
  · exact backoff?_readerRound _ _ _
  · exact .inl rfl

theorem loopTrial_of_stepReader (h : c.stepReader s w = some c') : LoopTrial s c w c' := by
  cases readerStep_of h with
  | begins fresh held =>
    have hnew : c.reader.isNew = true := by rw [fresh]; rfl
    rcases backoff?_takeReadHalf (s := s) { c with readLock := c.readLock.request .loop } with
      hover | hhas
    · exact .ends hover
    · exact .enters hnew rfl (.inr hhas)
  | queues fresh => exact .enters (by rw [fresh]; rfl) rfl (.inl rfl)
  | enters locking held =>
    have hnew : c.reader.isNew = true := by rw [locking]; rfl
    rcases backoff?_takeReadHalf (s := s) c with hover | hhas
    · exact .ends hover
    · exact .enters hnew rfl (.inr hhas)
  | stops paused closed => exact .ends rfl
  | @resumes _ buffer b paused due =>
    have hbefore : c.reader.backoff? = some b := by rw [paused]; rfl
    rcases backoff?_readerRound (s := s) c buffer b with hover | hhas
    · exact .ends hover
    · exact .keeps hbefore (fun _ => rfl) hhas
  | @goes _ job _ _ _ reading read =>
    have hbefore : c.reader.backoff? = some job.backoff := by rw [reading]; rfl
    cases trial_of_stepRead read with
    | resumes => exact .keeps hbefore (fun _ => rfl) rfl
    | backsOff passes granted => exact .backsOff hbefore passes granted rfl
  | fails reading read => exact .ends rfl
  | @hears _ job buffer c₁ d b reading read =>
    have hbefore : c.reader.backoff? = some job.backoff := by rw [reading]; rfl
    cases trial_of_stepRead read with
    | hears fed =>
      rcases backoff?_readerRound (s := s)
        ((c₁.drain s (buffer.append d)).1.boundBuffer s (c₁.drain s (buffer.append d)).2).1
        ((c₁.drain s (buffer.append d)).1.boundBuffer s (c₁.drain s (buffer.append d)).2).2
        job.backoff.reset with hover | hhas
      · exact .ends hover
      · exact .hears hbefore fed hhas

/-! ## The streak and the backoff -/

theorem tallied_new (s : Setup) : Tallied s 0 (new s) := ⟨fun _ => rfl, nofun⟩

theorem Tallied.of_reader (h : Tallied s n c) (hr : c'.reader = c.reader) : Tallied s n c' :=
  ⟨fun hnew => h.new (hr ▸ hnew), fun b hb => h.spent b (hr ▸ hb)⟩

/-- A loop that begins has failed at nothing yet. -/
theorem tallied_of_new (hnew : c.reader.isNew = true) : Tallied s 0 c := by
  refine ⟨fun _ => rfl, fun b hb => ?_⟩
  cases (ReadLoop.backoff?_of_isNew hnew).symm.trans hb

theorem tallied_of_backoff {b : Backoff} (hb : c.reader.backoff? = some b)
    (hspent : b = (Backoff.ofPolicy s.settings.retry).spent n)
    (hn : n ≤ s.settings.retry.maxRetries) : Tallied s n c := by
  refine ⟨fun hnew => ?_, fun b' hb' => ?_⟩
  · cases (ReadLoop.backoff?_of_isNew hnew).symm.trans hb
  · cases hb.symm.trans hb'
    exact ⟨hspent, hn⟩

variable (hmax : s.settings.retry.maxDelay ≤ Span.longest)
include hmax

theorem Tallied.turn (h : Tallied s n c) (ht : LoopTrial s c w c') :
    Tallied s ((Label.wake .reader w).onStreak n) c' := by
  cases ht with
  | enters new quiet next =>
    rw [h.new new, quiet]
    rcases next with hnew | hhas
    · exact tallied_of_new hnew
    · exact tallied_of_backoff hhas rfl (Nat.zero_le _)
  | keeps before quiet after =>
    obtain ⟨hspent, hn⟩ := h.spent _ before
    rw [quiet]
    exact tallied_of_backoff after hspent hn
  | @hears d b _ before fed after =>
    obtain ⟨hspent, -⟩ := h.spent _ before
    have hzero : (Label.wake .reader (.read (.ok d))).onStreak n = 0 :=
      if_neg fun hempty => fed (List.isEmpty_iff.1 hempty)
    rw [hzero]
    refine tallied_of_backoff after ?_ (Nat.zero_le _)
    rw [hspent, Backoff.reset_spent]
  | @backsOff f delay b b' _ before passes granted after =>
    obtain ⟨hspent, hn⟩ := h.spent _ before
    have hnext : (Label.wake .reader (.read (.error f))).onStreak n = n + 1 := if_pos passes
    rw [hnext]
    obtain hlt | heq := Nat.lt_or_eq_of_le hn
    · rw [hspent, Backoff.next?_spent hmax hlt] at granted
      cases granted
      exact tallied_of_backoff after rfl hlt
    · rw [hspent, Backoff.next?_spent_of_le heq.ge] at granted
      cases granted
  | ends finished =>
    refine ⟨fun hnew => ?_, fun b hb => ?_⟩
    · rw [finished] at hnew
      cases hnew
    · rw [finished] at hb
      cases hb

theorem tallied_step {l : Label} (hk : Kept c) (h : Tallied s n c) (hstep : c.step s l = some c') :
    Tallied s (l.onStreak n) c' := by
  obtain ⟨w, rfl⟩ | hother := l.eq_wake_or_ne .reader
  · exact h.turn hmax (loopTrial_of_stepReader hstep)
  · have hquiet : l.onStreak n = n := by
      unfold Label.onStreak
      split
      · exact absurd rfl (hother _)
      · exact absurd rfl (hother _)
      · rfl
    rw [hquiet]
    rcases reader_step hstep hother with hr | ⟨hfresh, hr⟩
    · exact h.of_reader hr
    · have habsent : c.reader = .absent := by
        by_contra hne
        exact Bool.false_ne_true (hfresh.symm.trans (hk.reads hne))
      have hzero : n = 0 := h.new (by rw [habsent]; rfl)
      rw [hzero]
      exact tallied_of_new (by rcases hr with hr | hr <;> rw [hr] <;> rfl)

theorem tallied_steps {ls : List Label} (run : Steps s c ls c') (hk : Kept c)
    (h : Tallied s n c) : Tallied s (ls.foldl Label.onStreak n) c' := by
  induction run generalizing n with
  | nil c => exact h
  | cons first _ ih =>
    have hkept := (advances_step false hk nofun nofun first).kept
    exact ih hkept (tallied_step hmax hk h first)

omit hmax

/-! ## Reports -/

/-- The call in which the handler hears of the end of the connection, if it has come. -/
def farewell (c : Connection) : List Call := if c.isClosed then [⟨.close, .closing⟩] else []

theorem Turning.eq_farewell {calls : List Call} (h : Turning .live calls c.stage) :
    calls = c.farewell := by
  rcases h.of_live with ⟨rfl, hstage⟩ | ⟨rfl, hstage⟩
  · rw [farewell, isClosed_eq_false.2 hstage]
    rfl
  · rw [farewell, if_pos (isClosed_eq_true.2 (by rw [hstage]; nofun))]

/-- The handler is told of an error once, and of the end if it closes the connection then. -/
theorem report_of_live (live : c.isClosed = false) (e : EngineError) :
    (c.report s e).callbacks = c.callbacks ++ ⟨.error e, .live⟩ :: (c.report s e).farewell ∧
      Turning .live (c.report s e).farewell (c.report s e).stage := by
  obtain ⟨c₀, hbefore, ⟨more, hcall⟩, -, -⟩ := hears_counted (s := s) c e
  have hstage : c₀.stage = .live := hbefore.turning.eq_of_nil.trans (isClosed_eq_false.1 live)
  have hturn : Turning .live more (c.report s e).stage := hstage ▸ hcall.turning
  have hmore : more = (c.report s e).farewell := hturn.eq_farewell
  refine ⟨?_, hmore ▸ hturn⟩
  rw [hcall.callbacks, callbacks_told, hbefore.callbacks, hstage, List.append_nil,
    List.append_assoc, hmore]
  rfl

/-- A delay is granted: the failure is told, and the time to try again is that delay away. -/
theorem retryAfter_of_next {f : IoFailure} {b b' : Backoff} {delay : Span}
    (live : c.isClosed = false) (hnext : b.next? = some (delay, b'))
    (hplain : b'.isJittered = false) : ∃ c', c.retryAfter s f b = (c', .ok (c.now + delay, b')) ∧
      c'.callbacks = c.callbacks ++ ⟨.error (.io f), .live⟩ :: c'.farewell := by
  unfold retryAfter
  simp only [hnext, hplain, Bool.false_eq_true, if_false]
  generalize hc₁ : Connection.log _ _ _ _ = c₁
  have hlive : c₁.isClosed = false := by rw [← hc₁]; exact live
  have hnow : (c₁.report s (.io f)).now = c.now := by
    have hcalm : Calm s c₁ (c₁.report s (.io f)) := calm_report c₁ nofun
    have hsame : (c₁.report s (.io f)).now = c₁.now := congrArg Stations.now hcalm.stations
    rw [hsame, ← hc₁]
    rfl
  have hbefore : c₁.callbacks = c.callbacks := by
    rw [← hc₁]
    exact (callbacks_note _ _).trans (List.append_nil _)
  refine ⟨_, by rw [hnow], ?_⟩
  rw [(report_of_live hlive _).1, hbefore]

theorem retryAfter_of_none {f : IoFailure} {b : Backoff} (hnext : b.next? = none) :
    c.retryAfter s f b = (c, .error (.retriesExhausted b.attempts f)) := by
  simp only [retryAfter, hnext]

theorem callbacks_close_of_live (live : c.isClosed = false) :
    (c.close s).callbacks = c.callbacks ++ [⟨.close, .closing⟩] := by
  obtain ⟨calls, hclose⟩ := hears_close (s := s) c
  have hturn := hclose.turning
  rw [isClosed_eq_false.1 live] at hturn
  rw [hclose.callbacks, hturn.eq_farewell, farewell, if_pos (isClosed_close c)]

theorem exitReader_of_live (live : c.isClosed = false) :
    (c.exitReader s).callbacks = c.callbacks ++ [⟨.close, .closing⟩] ∧
      (c.exitReader s).stage = .closed :=
  ⟨callbacks_close_of_live (c := { c with readHalf := .gone }) live,
    stage_close_of_live (c := { c with readHalf := .gone }) live⟩

theorem exitReader_of_closed (closed : c.isClosed = true) :
    c.exitReader s = { c with readHalf := .gone, reader := .finished } := by
  have hsame : close s { c with readHalf := .gone } = { c with readHalf := .gone } :=
    if_pos closed
  rw [exitReader, hsame]

/-- The error that ends the loop is told, and then the end of the connection. -/
theorem exit_of_live {e : EngineError} (live : c.isClosed = false) (he : e ≠ .idleTimeout) :
    ((c.reportExit s e).exitReader s).callbacks =
        c.callbacks ++ [⟨.error e, .live⟩, ⟨.close, .closing⟩] ∧
      ((c.reportExit s e).exitReader s).stage = .closed := by
  obtain ⟨hcalls, hturn⟩ := report_of_live (s := s) live e
  have hreport : c.reportExit s e = c.report s e := by
    rw [reportExit, if_neg (Bool.eq_false_iff.1 live), if_neg he]
  rw [hreport]
  generalize c.report s e = c₁ at hcalls hturn
  rcases hturn.of_live with ⟨hnone, hstage⟩ | ⟨hone, hstage⟩
  · obtain ⟨hclose, hclosed⟩ := exitReader_of_live (s := s) (isClosed_eq_false.2 hstage)
    refine ⟨?_, hclosed⟩
    rw [hclose, hcalls, hnone, List.append_assoc]
    rfl
  · have hclosed : c₁.isClosed = true := isClosed_eq_true.2 (hstage ▸ nofun)
    rw [exitReader_of_closed hclosed]
    exact ⟨hone ▸ hcalls, hstage⟩

/-! ## Ends -/

theorem isClosed_of_finished (h : c.stepReader s w = some c') (hover : c'.reader = .finished) :
    c'.isClosed = true := by
  have hends : ∀ {half half' : Keeping} {buffer : Octets} {reader : ReadLoop},
      Onward half buffer c' half' reader → c'.reader = reader → c'.isClosed = true := by
    intro half half' buffer reader next hr
    cases next with
    | goes left =>
      rw [← hr, hover] at left
      cases left
    | ends closed => exact closed
  have hturn := loopTurn_of_stepReader h
  cases hturn with
  | asks _ rest =>
    have hr : c'.reader = .locking := rest.reader
    cases hr.symm.trans hover
  | @takes _ _ reader _ _ _ _ next rest =>
    have hr : c'.reader = reader := rest.reader
    rcases next with left | ⟨-, closed⟩
    · rw [← hr, hover] at left
      cases left
    · exact closed
  | waits _ _ next rest => exact hends next rest.reader
  | hears _ _ _ _ _ _ next rest => exact hends next rest.reader

section

variable (hopen : ∀ caller cb, (s.handler.react caller cb).KeepsOpen)
include hopen

theorem stage_retryAfter (c : Connection) (f : IoFailure) (b : Backoff) :
    (c.retryAfter s f b).1.stage = c.stage := by
  unfold retryAfter
  split
  · rfl
  · exact stage_report hopen _ _

/-- A read that goes on has not closed the connection. -/
theorem stage_of_goes {job job' : ReadJob} (h : c.stepRead s job w = some (c', .goes job')) :
    c'.stage = c.stage := by
  cases readStep_of h with
  | waits point due active => rfl
  | retries point passes granted => exact stage_retryAfter hopen c _ _
  | resumes point due => rfl

end

/-! ## What the loop puts up with -/

/-- A failure that is told and counted, with a pause behind it. -/
structure PutsUp (c c' : Connection) (buffer : Accumulator) (f : IoFailure) (delay : Span) :
    Prop where
  tells : c'.callbacks = c.callbacks ++ ⟨.error (.io f), .live⟩ :: c'.farewell
  counts : c'.metrics.retries = c.metrics.retries + 1
  waits : ∃ b, c'.reader = .reading ⟨.retrying (c.now + delay), b⟩ buffer

/-- The failure that is one too many. -/
structure GivesUp (c c' : Connection) (budget : Nat) (f : IoFailure) : Prop where
  tells : c'.callbacks =
    c.callbacks ++ [⟨.error (.retriesExhausted budget f), .live⟩, ⟨.close, .closing⟩]
  counts : c'.metrics.retries = c.metrics.retries
  ends : c'.reader = .finished
  closes : c'.stage = .closed

/-- What can end the read loop of a connection that nobody else closes. -/
inductive Ends (s : Setup) (c : Connection) (n : Nat) : Wake → Prop where
  | exhausted {f : IoFailure} (passes : f.isTransient = true)
      (spent : n = s.settings.retry.maxRetries) : Ends s c n (.read (.error f))
  | broken {f : IoFailure} (lasts : f.isTransient = false) : Ends s c n (.read (.error f))
  | atEnd : Ends s c n (.read (.ok []))
  | silent (late : s.settings.idleTimeout ≤ c.idleFor) : Ends s c n .timer

/-- How an open connection stands whose read loop has met so many failures in a row. -/
structure Persists (s : Setup) (n : Nat) (c : Connection) : Prop where
  within : n ≤ s.settings.retry.maxRetries
  /-- Another failure is told once and counted once. The pause behind it is the next of the
  backoff. -/
  pauses : n < s.settings.retry.maxRetries → ∀ f deadline b buffer,
    c.reader = .reading ⟨.reading deadline, b⟩ buffer → f.isTransient = true →
      ∃ c', c.step s (.wake .reader (.read (.error f))) = some c' ∧
        PutsUp c c' buffer f
          (Backoff.delayAfter s.settings.retry.baseDelay s.settings.retry.maxDelay n)
  /-- When the budget is spent, another failure is the end. -/
  exhausts : n = s.settings.retry.maxRetries → ∀ f deadline b buffer,
    c.reader = .reading ⟨.reading deadline, b⟩ buffer → f.isTransient = true →
      ∃ c', c.step s (.wake .reader (.read (.error f))) = some c' ∧
        GivesUp c c' s.settings.retry.maxRetries f
  /-- A pause lasts until it is over; then the loop reads on. -/
  rests : ∀ resume b buffer, c.reader = .reading ⟨.retrying resume, b⟩ buffer → ∀ w c',
    c.step s (.wake .reader w) = some c' ↔ w = .timer ∧ resume ≤ c.now ∧
      c' = { c with reader := .reading (c.beginRead s b) buffer }
  /-- Nobody but the loop ends a pause or a read. -/
  apart : ∀ l c', (∀ w, l ≠ .wake .reader w) → c.step s l = some c' → c'.reader = c.reader
  /-- A deadline that passes changes nothing but the deadline. -/
  expires : ∀ deadline b buffer, c.reader = .reading ⟨.reading deadline, b⟩ buffer →
    c.idleFor < s.settings.idleTimeout → ∀ c', c.step s (.wake .reader .timer) = some c' ↔
      deadline ≤ c.now ∧ c' = { c with reader := .reading (c.beginRead s b) buffer }
  /-- The loop does not end earlier, if its handler does not close the connection. -/
  lasts : (∀ caller cb, (s.handler.react caller cb).KeepsOpen) → ∀ w c',
    c.step s (.wake .reader w) = some c' → c'.isClosed = true ∨ c'.reader = .finished →
      Ends s c n w

section

variable {deadline resume : Span} {b : Backoff} {buffer : Accumulator} {f : IoFailure}

theorem putsUp_of_next {b' : Backoff} {delay : Span} (live : c.isClosed = false)
    (hreader : c.reader = .reading ⟨.reading deadline, b⟩ buffer) (passes : f.isTransient = true)
    (hnext : b.next? = some (delay, b')) (hplain : b'.isJittered = false) :
    ∃ c', c.step s (.wake .reader (.read (.error f))) = some c' ∧ PutsUp c c' buffer f delay := by
  obtain ⟨c₁, hretry, hcalls⟩ := retryAfter_of_next (s := s) (f := f) live hnext hplain
  have hstep : c.stepReader s (.read (.error f)) =
      some { c₁ with reader := .reading ⟨.retrying (c.now + delay), b'⟩ buffer } := by
    simp only [stepReader, hreader, stepRead, retryRead, passes, if_true, hretry]
  have hcount := retried_step (l := .wake .reader (.read (.error f))) hstep
  simp only [Retried, asks, hreader, ReadJob.asks, passes, if_true, Backoff.grants, hnext,
    Option.isSome_some, Bool.toNat_true] at hcount
  exact ⟨_, hstep, hcalls, hcount, b', rfl⟩

theorem givesUp_of_none (live : c.isClosed = false)
    (hreader : c.reader = .reading ⟨.reading deadline, b⟩ buffer) (passes : f.isTransient = true)
    (hnext : b.next? = none) :
    ∃ c', c.step s (.wake .reader (.read (.error f))) = some c' ∧ GivesUp c c' b.attempts f := by
  have hretry := retryAfter_of_none (s := s) (c := c) (f := f) hnext
  have hstep : c.stepReader s (.read (.error f)) =
      some ((c.reportExit s (.retriesExhausted b.attempts f)).exitReader s) := by
    simp only [stepReader, hreader, stepRead, retryRead, passes, if_true, hretry]
  have hcount := retried_step (l := .wake .reader (.read (.error f))) hstep
  simp only [Retried, asks, hreader, ReadJob.asks, passes, if_true, Backoff.grants, hnext,
    Option.isSome_none, Bool.toNat_false] at hcount
  have hother : EngineError.retriesExhausted b.attempts f ≠ .idleTimeout := fun he => by cases he
  obtain ⟨hcalls, hclosed⟩ := exit_of_live (s := s) live hother
  exact ⟨_, hstep, hcalls, hcount.trans (UInt64.add_zero _), rfl, hclosed⟩

theorem step_of_retrying (live : c.isClosed = false)
    (hreader : c.reader = .reading ⟨.retrying resume, b⟩ buffer) :
    c.step s (.wake .reader w) = some c' ↔ w = .timer ∧ resume ≤ c.now ∧
      c' = { c with reader := .reading (c.beginRead s b) buffer } := by
  simp only [step, stepTask, stepReader, hreader, stepRead]
  cases w with
  | timer =>
    by_cases hdue : resume ≤ c.now
    · simp [hdue, eq_comm]
    · simp [hdue]
  | cancelled => simp [live]
  | go | read | write | flush => simp

theorem step_of_expiry (hreader : c.reader = .reading ⟨.reading deadline, b⟩ buffer)
    (fresh : c.idleFor < s.settings.idleTimeout) :
    c.step s (.wake .reader .timer) = some c' ↔
      deadline ≤ c.now ∧ c' = { c with reader := .reading (c.beginRead s b) buffer } := by
  simp only [step, stepTask, stepReader, hreader, stepRead]
  by_cases hdue : deadline ≤ c.now
  · simp [hdue, Nat.not_le.2 fresh, eq_comm]
  · simp [hdue]

end

/-- Only a failure that is one too many, a broken stream, its end or silence ends the loop. -/
theorem ends_of_closed (hopen : ∀ caller cb, (s.handler.react caller cb).KeepsOpen)
    (live : c.isClosed = false) (hreads : c.reader.backoff?.isSome = true)
    (hspent : ∀ b, c.reader.backoff? = some b → b.next? = none →
      n = s.settings.retry.maxRetries)
    (h : c.step s (.wake .reader w) = some c') (hclosed : c'.isClosed = true) : Ends s c n w := by
  have hnever : ∀ {p : Prop}, c'.isClosed = false → p := fun hc =>
    absurd (hclosed.symm.trans hc) nofun
  have hread : ∀ {job buffer}, c.reader = .reading job buffer →
      c.reader.backoff? = some job.backoff := fun reading => by rw [reading]; rfl
  cases readerStep_of h with
  | begins fresh | queues fresh => rw [fresh] at hreads; cases hreads
  | enters locking => rw [locking] at hreads; cases hreads
  | stops paused closed => cases live.symm.trans closed
  | resumes paused due => exact hnever (isOpen_readerRound live _ _)
  | @goes _ _ _ _ c₁ reading read =>
    have hopen₁ : c₁.isClosed = false :=
      isClosed_eq_false.2 ((stage_of_goes hopen read).trans (isClosed_eq_false.1 live))
    exact hnever hopen₁
  | fails reading read =>
    cases trial_of_stepRead read with
    | stopped closed => cases live.symm.trans closed
    | idle late => exact .silent late
    | atEnd => exact .atEnd
    | givesUp passes spent => exact .exhausted passes (hspent _ (hread reading) spent)
    | breaks lasts => exact .broken lasts
  | hears reading read =>
    cases trial_of_stepRead read with
    | hears fed => exact hnever (isOpen_of_read hopen live fed h)

/-- The failures of the stream in a row, in any run, are answered as the budget and the backoff
say, as long as the connection is open and its read loop has the read half. -/
theorem persists_of_steps {ls : List Label} (run : Steps s (new s) ls c) {negative : Bool}
    (hjitter : s.settings.retry.jitter = .zero negative)
    (hmax : s.settings.retry.maxDelay ≤ Span.longest) (live : c.isClosed = false)
    (hreads : c.reader.backoff?.isSome = true) : Persists s (streak ls) c := by
  have hkept := (stretch_of_run false run nofun).1
  have htallied : Tallied s (streak ls) c :=
    tallied_steps hmax run (kept_new s) (tallied_new s)
  generalize streak ls = n at htallied
  obtain ⟨b₀, hb₀⟩ := Option.isSome_iff_exists.1 hreads
  have hwithin := (htallied.spent b₀ hb₀).2
  refine ⟨hwithin, fun hlt f deadline b buffer hreader passes => ?_,
    fun heq f deadline b buffer hreader passes => ?_,
    fun resume b buffer hreader w c' => step_of_retrying live hreader,
    fun l c' hother hstep => ?_,
    fun deadline b buffer hreader fresh c' => step_of_expiry hreader fresh,
    fun hopen w c' hstep hends => ?_⟩
  · obtain ⟨rfl, -⟩ := htallied.spent b (by rw [hreader]; rfl)
    exact putsUp_of_next live hreader passes (Backoff.next?_spent hmax hlt)
      (Backoff.isJittered_ofPolicy hjitter)
  · obtain ⟨rfl, -⟩ := htallied.spent b (by rw [hreader]; rfl)
    have hnone := Backoff.next?_spent_of_le (b := .ofPolicy s.settings.retry) heq.ge
    have hgives := givesUp_of_none (s := s) (f := f) live hreader passes hnone
    rw [← heq]
    exact hgives
  · rcases reader_step hstep hother with hr | ⟨hfresh, -⟩
    · exact hr
    · have hstarted : c.started = true := hkept.reads (by rintro hr; rw [hr] at hb₀; cases hb₀)
      cases hfresh.symm.trans hstarted
  · refine ends_of_closed hopen live hreads (fun b hb hnone => ?_) hstep ?_
    · obtain ⟨rfl, hn⟩ := htallied.spent b hb
      obtain hlt | heq := Nat.lt_or_eq_of_le hn
      · cases (Backoff.next?_spent hmax hlt).symm.trans hnone
      · exact heq
    · rcases hends with hc | hover
      · exact hc
      · exact isClosed_of_finished hstep hover

/-- Two retries. Two failures are forgotten over a message; between the next two a frame is written,
and a deadline passes. The third in a row is one too many. -/
theorem persists_of_steps_of_deadline :
    let s : Setup :=
      { id := 1, peer := none, localAddress := none, framing := .field 64,
        settings :=
          { ConnectionSettings.standard with
            rateLimit := .zero false
            idleTimeout := .ofMillis 5000
            retry := ⟨2, .ofMillis 100, .ofMillis 150, .zero false⟩ },
        handler := .quiet,
        chance := fun _ delay => delay }
    let d : Octets := [0, 0, 0, 16, 0, 0, 0, 1, 0, 0, 0, 1, 0, 0, 0, 0]
    let fails : Label := .wake .reader (.read (.error (.ofKind .interrupted)))
    let ls : List Label :=
      [.start .full, .wake .reader .go, .wake .writer .go, fails,
        .tick (.ofMillis 100) (.ofMillis 100), .wake .reader .timer, fails,
        .tick (.ofMillis 150) (.ofMillis 150), .wake .reader .timer, .wake .reader (.read (.ok d)),
        fails, .tick (.ofMillis 100) (.ofMillis 100), .wake .reader .timer,
        .tick (.ofMillis 3000) (.ofMillis 3000), .send (.field ⟨1, 1, []⟩), .wake .writer .go,
        .wake .writer (.write (.ok 16)), .wake .writer (.flush (.ok ())),
        .tick (.ofMillis 2000) (.ofMillis 2000), .wake .reader .timer, fails,
        .tick (.ofMillis 150) (.ofMillis 150), .wake .reader .timer]
    ∃ c, Steps s (new s) ls c ∧ s.settings.retry.jitter = .zero false ∧
      s.settings.retry.maxDelay ≤ Span.longest ∧ c.isClosed = false ∧
      c.reader.backoff?.isSome = true ∧ Persists s (streak ls) c ∧ streak ls = 2 ∧
      c.metrics.retries = 4 ∧
      (c.step s fails).map (fun c' => (c'.stage, c'.callbacks.map (·.callback.name))) =
        some (.closed, ["on_connect", "on_error", "on_error", "on_message", "on_error", "on_error",
          "on_error", "on_close"]) := by
  intro s d fails ls
  have hseen : (follow s (new s) ls).map (fun c =>
      ((c.isClosed, c.reader.backoff?.isSome), c.metrics.retries,
        (c.step s fails).map fun c' => (c'.stage, c'.callbacks.map (·.callback.name)))) =
      some ((false, true), 4, some (.closed, ["on_connect", "on_error", "on_error", "on_message",
        "on_error", "on_error", "on_error", "on_close"])) := by
    decide +kernel
  obtain ⟨c, hrun, hc⟩ := Option.map_eq_some_iff.1 hseen
  obtain ⟨hplace, hc⟩ := Prod.mk.inj hc
  obtain ⟨live, hreads⟩ := Prod.mk.inj hplace
  obtain ⟨hretries, hlast⟩ := Prod.mk.inj hc
  have hsteps := steps_of_follow hrun
  have hmax : s.settings.retry.maxDelay ≤ Span.longest := by decide +kernel
  have htwo : streak ls = 2 := by decide +kernel
  exact ⟨c, hsteps, rfl, hmax, live, hreads, persists_of_steps hsteps rfl hmax live hreads, htwo,
    hretries, hlast⟩

end Connection
end FrameEngine
