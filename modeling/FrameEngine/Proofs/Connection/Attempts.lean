import FrameEngine.Proofs.Connection.Parts

/-!
# FrameEngine.Proofs.Connection.Attempts

How often a frame is tried, and how its writing ends. A frame is written piece by piece. Each write
comes out in one of a few ways (`WriteOutcome`), and one budget of retries pays for the failures
that may pass and for the writes that are late, until the stream takes octets again.

`Writing` is what a frame goes through once its writer has the write half: turns of its own, with
the connection in any state when each of them comes. `Trial` lists what a turn can do. The invariant
is `Spending`: the backoff has counted the setbacks since the stream last took octets, and each
octet that it took has paid for one whole budget (`spending_of_writing`). `settled_of_writing` reads
off it how many writes there can be, and the error that each failure ends in.
-/

namespace FrameEngine

/-- How a single write comes out. -/
inductive WriteOutcome where
  /-- The stream takes so many octets. -/
  | takes (n : Nat)
  | fails (f : IoFailure)
  /-- The deadline passes before the stream answers. -/
  | late

namespace WriteOutcome

/-- A failure that may pass. -/
def isSetback : WriteOutcome → Bool
  | takes _ => false
  | fails f => f.isTransient
  | late => true

/-- The error of a writer that has made so many retries, and cannot afford another. -/
def exhausted (retries : Nat) : WriteOutcome → EngineError
  | takes _ | late => .writeTimeout
  | fails f => .retriesExhausted retries f

end WriteOutcome

/-- How many setbacks there have been since the stream last took octets, or since the beginning. The
latest outcome comes first. -/
def setbacks : List WriteOutcome → Nat
  | [] | .takes (_ + 1) :: _ => 0
  | x :: before => setbacks before + x.isSetback.toNat

/-- The error that the outcomes end the writing of a frame with, under a budget of retries; none
while it goes on. -/
def verdict (budget : Nat) : List WriteOutcome → Option EngineError
  | [] | .takes (_ + 1) :: _ => none
  | .takes 0 :: _ => some (.io (.ofKind .writeZero))
  | .fails f :: before =>
    if f.isTransient = false then some (.io f)
    else if setbacks (.fails f :: before) = budget + 1 then some (.retriesExhausted budget f)
    else none
  | .late :: before =>
    if setbacks (.late :: before) = budget + 1 then some .writeTimeout else none

theorem setbacks_of_setback {x : WriteOutcome} (h : x.isSetback = true)
    (before : List WriteOutcome) : setbacks (x :: before) = setbacks before + 1 := by
  cases x with
  | takes n => cases h
  | fails f =>
    rw [setbacks, h]
    · rfl
    · exact nofun
  | late => rfl

theorem verdict_of_setback {x : WriteOutcome} (h : x.isSetback = true) (budget : Nat)
    (before : List WriteOutcome) : verdict budget (x :: before) =
      if setbacks (x :: before) = budget + 1 then some (x.exhausted budget) else none := by
  cases x with
  | takes n => cases h
  | fails f =>
    have hpasses : f.isTransient = true := h
    rw [verdict, if_neg (by rw [hpasses]; decide)]
    rfl
  | late => rfl

def WriteProgress.job? : WriteProgress → Option WriteJob
  | .goes job => some job
  | .ends _ => none

namespace WriteJob

/-- How the write comes out that the job waits for, if it waits for one. -/
def outcome? (job : WriteJob) (w : Wake) : Option WriteOutcome :=
  match job.point, w with
  | .writing _ _, .write (.ok n) => some (.takes n)
  | .writing _ _, .write (.error f) => some (.fails f)
  | .writing _ _, .timer => some .late
  | _, _ => none

def isRetrying (job : WriteJob) : Bool :=
  match job.point with
  | .retrying _ _ => true
  | _ => false

/-- When the stream is to pass on what it took, it does. -/
def Flushes (job : WriteJob) (w : Wake) : Prop :=
  ∀ deadline, job.point = .flushing deadline → w = .flush (.ok ())

end WriteJob

namespace Connection

/-! ## Turns of a frame -/

/-- The writing of a frame by its owner, from the moment at which it has the write half, as long as
it goes on: after so many turns with the outcomes `tried`, the latest first, when the stream has
taken `put`. Between two turns anything may happen to the connection. -/
inductive Writing (s : Setup) (o : Owner) (frame : Octets) :
    Nat → List WriteOutcome → Octets → WriteJob → Prop where
  | begins {b c : Connection} {job : WriteJob}
      (turn : c.takeTurn s (b.writeJob s frame) = .goes job) : Writing s o frame 0 [] [] job
  | goes {n : Nat} {tried : List WriteOutcome} {put more : Octets} {job job' : WriteJob}
      {c c' : Connection} {w : Wake} (before : Writing s o frame n tried put job)
      (turn : c.stepWrite s o job w = some (c', .goes job'))
      (takes : c'.written = c.written ++ more) :
      Writing s o frame (n + 1) ((job.outcome? w).toList ++ tried) (put ++ more) job'

variable {s : Setup} {c c' : Connection} {o : Owner} {job job' : WriteJob} {w : Wake}
  {p : WriteProgress} {frame put more : Octets} {n : Nat} {tried : List WriteOutcome}

/-- What a turn does to the place and the backoff of a frame that is being written. -/
inductive Trial (s : Setup) (c : Connection) (job : WriteJob) (w : Wake) :
    WriteProgress → Prop where
  /-- The pause after a setback is over. -/
  | resumes {n : Nat} {resume : Span} (idle : job.outcome? w = none)
      (place : job.point = .retrying n resume) : Trial s c job w (.goes (c.nextWrite s job n))
  | advances {n k : Nat} {deadline : Span} {c' : Connection}
      (tried : job.outcome? w = some (.takes (k + 1))) (place : job.point = .writing n deadline)
      (room : n + (k + 1) ≤ job.frame.length) :
      Trial s c job w
        (.goes (c'.nextWrite s { job with backoff := job.backoff.reset } (n + (k + 1))))
  | stalls (tried : job.outcome? w = some (.takes 0)) :
      Trial s c job w (.ends (.error (.io (.ofKind .writeZero))))
  | breaks {f : IoFailure} (tried : job.outcome? w = some (.fails f))
      (lasts : f.isTransient = false) : Trial s c job w (.ends (.error (.io f)))
  | backsOff {x : WriteOutcome} {n : Nat} {deadline delay resume : Span} {b : Backoff}
      (tried : job.outcome? w = some x) (setback : x.isSetback = true)
      (place : job.point = .writing n deadline) (granted : job.backoff.next? = some (delay, b)) :
      Trial s c job w (.goes { job with point := .retrying n resume, backoff := b })
  | givesUp {x : WriteOutcome} (tried : job.outcome? w = some x) (setback : x.isSetback = true)
      (spent : job.backoff.next? = none) :
      Trial s c job w (.ends (.error (x.exhausted job.backoff.attempts)))
  | passes (idle : job.outcome? w = none) (whole : job.written = job.frame.length) :
      Trial s c job w (.ends (.ok ()))
  /-- The connection has been closed, or the stream does not pass on what it took. -/
  | quits {e : EngineError} (amiss : c.isClosed = true ∨ ¬ job.Flushes w) :
      Trial s c job w (.ends (.error e))

/-- A write that comes to nothing is a setback. -/
theorem WriteFails.setback {f : IoFailure} {e : EngineError} (h : WriteFails c job w n f e) :
    ∃ x deadline, job.outcome? w = some x ∧ x.isSetback = true ∧
      job.point = .writing n deadline ∧ e = x.exhausted job.backoff.attempts := by
  unfold WriteJob.outcome?
  cases h with
  | @late _ deadline point due =>
    rw [point]
    exact ⟨.late, deadline, rfl, rfl, rfl, rfl⟩
  | @breaks _ deadline f point passes =>
    rw [point]
    exact ⟨.fails f, deadline, rfl, passes, rfl, rfl⟩

theorem trial_of_stepWrite (way : job.UnderWay) (h : c.stepWrite s o job w = some (c', p)) :
    Trial s c job w p := by
  obtain ⟨frame, place, backoff, since⟩ := job
  cases writeStep_of h with
  | enters point held =>
    cases point
    exact absurd way id
  | stops point closed => exact .quits (.inl closed)
  | retries fails granted =>
    obtain ⟨x, deadline, tried, setback, place, -⟩ := fails.setback
    obtain ⟨delay, hnext⟩ := next?_of_granted granted
    exact .backsOff tried setback place hnext
  | exhausts fails spent =>
    obtain ⟨x, deadline, tried, setback, place, rfl⟩ := fails.setback
    exact .givesUp tried setback spent
  | breaks point lasts =>
    cases point
    exact .breaks rfl lasts
  | stalls point =>
    cases point
    exact .stalls rfl
  | writes point fits takes =>
    cases point
    obtain ⟨k, rfl⟩ := Nat.exists_eq_succ_of_ne_zero takes
    exact .advances rfl rfl (Nat.add_le_of_le_sub' (Nat.le_of_lt way) fits)
  | resumes point due =>
    cases point
    exact .resumes rfl rfl
  | completes point =>
    cases point
    exact .passes rfl rfl
  | refuses point => exact .quits (.inr fun hf => by cases hf _ point)
  | expires point due => exact .quits (.inr fun hf => by cases hf _ point)

/-! ## What is spent -/

/-- What a frame has spent that is being written: the backoff has counted the setbacks since the
stream last took octets, and each octet that it has taken has paid for a whole budget. -/
structure Spending (s : Setup) (frame : Octets) (n : Nat) (tried : List WriteOutcome)
    (put : Octets) (job : WriteJob) : Prop where
  same : job.frame = frame
  way : job.UnderWay
  put : put = job.frame.take job.written
  budget : job.backoff.maxRetries = s.settings.retry.maxRetries
  counted : job.backoff.attempts = setbacks tried
  within : setbacks tried ≤ s.settings.retry.maxRetries
  paid : tried.length ≤ job.written * (s.settings.retry.maxRetries + 1) + setbacks tried
  whole : job.written = job.frame.length → setbacks tried = 0
  turns : n + job.isRetrying.toNat ≤ 2 * tried.length

theorem backoff_nextWrite (c : Connection) (job : WriteJob) (n : Nat) :
    (c.nextWrite s job n).backoff = job.backoff ∧ (c.nextWrite s job n).isRetrying = false := by
  unfold nextWrite
  split <;> exact ⟨rfl, rfl⟩

/-- What the stream has taken is what the frame counts as written. -/
theorem put_of_turn (h : WriteTurn s c job c' (.goes job')) (takes : c'.written = c.written ++ more)
    (hput : put = job.frame.take job.written) : put ++ more = job.frame.take job'.written := by
  cases h with
  | waits rest way same place =>
    have hmore : more = [] := List.self_eq_append_right.1 (rest.written.symm.trans takes)
    rw [hmore, List.append_nil, place, hput]
  | @writes k _ way same place =>
    rw [written_note] at takes
    have hmore : (job.frame.drop job.written).take k = more := List.append_cancel_left takes
    rw [← hmore, place, List.take_add, hput]

theorem WriteTurn.takes (h : WriteTurn s c job c' p) :
    ∃ more, c'.written = c.written ++ more := by
  cases h with
  | waits rest _ _ _ => exact ⟨[], rest.written.trans (List.append_nil _).symm⟩
  | writes _ _ _ => exact ⟨_, written_note _ _⟩
  | fails rest => exact ⟨[], rest.written.trans (List.append_nil _).symm⟩
  | completes _ => exact ⟨[], (List.append_nil _).symm⟩

theorem spending_of_begins {b : Connection} (turn : c.takeTurn s (b.writeJob s frame) = .goes job) :
    Spending s frame 0 [] [] job := by
  unfold takeTurn at turn
  split at turn
  · cases turn
    obtain ⟨hway, hplace, hframe⟩ := underWay_nextWrite (s := s) c
      { b.writeJob s frame with since := c.wall } (Nat.zero_le _)
    obtain ⟨hbackoff, hpaused⟩ := backoff_nextWrite (s := s) c
      { b.writeJob s frame with since := c.wall } 0
    refine ⟨hframe, hway, ?_, ?_, ?_, Nat.zero_le _, Nat.zero_le _, fun _ => rfl, ?_⟩
    · rw [hplace]; rfl
    · rw [hbackoff]; rfl
    · rw [hbackoff]; rfl
    · rw [hpaused]; rfl
  · cases turn

theorem next?_cases (b : Backoff) :
    b.next? = none ∧ b.maxRetries ≤ b.attempts ∨
      b.attempts < b.maxRetries ∧ ∃ delay b', b.next? = some (delay, b') ∧
        b'.attempts = b.attempts + 1 ∧ b'.maxRetries = b.maxRetries := by
  unfold Backoff.next?
  split
  · exact .inr ⟨‹_›, _, _, rfl, rfl, rfl⟩
  · exact .inl ⟨rfl, Nat.le_of_not_lt ‹_›⟩

theorem lt_of_place {k : Nat} {time : Span} (way : job.UnderWay)
    (place : job.point = .writing k time ∨ job.point = .retrying k time) :
    job.written = k ∧ k < job.frame.length := by
  obtain ⟨hwritten, hway⟩ := WriteJob.underWay_of_place place
  exact ⟨hwritten, hway.1 way⟩

theorem Spending.resumes (h : Spending s frame n tried put job) {put' : Octets} {k : Nat}
    {resume : Span} (place : job.point = .retrying k resume)
    (hput : put' = job.frame.take (c.nextWrite s job k).written) :
    Spending s frame (n + 1) tried put' (c.nextWrite s job k) := by
  obtain ⟨hwritten, hlt⟩ := lt_of_place h.way (.inr place)
  have hpaused : job.isRetrying = true := by rw [WriteJob.isRetrying, place]
  obtain ⟨hway, hplace, hframe⟩ := underWay_nextWrite (s := s) c job (Nat.le_of_lt hlt)
  obtain ⟨hbackoff, hnext⟩ := backoff_nextWrite (s := s) c job k
  have hsame : (c.nextWrite s job k).written = job.written := hplace.trans hwritten.symm
  have hturns := h.turns
  rw [hpaused] at hturns
  refine ⟨hframe.trans h.same, hway, ?_, ?_, ?_, h.within, ?_, ?_, ?_⟩
  · rw [hframe]; exact hput
  · rw [hbackoff]; exact h.budget
  · rw [hbackoff]; exact h.counted
  · rw [hsame]; exact h.paid
  · rw [hsame, hframe]; exact h.whole
  · rw [hnext]; exact hturns

theorem Spending.advances (h : Spending s frame n tried put job) {put' : Octets} {k m : Nat}
    {deadline : Span} (place : job.point = .writing k deadline)
    (room : k + (m + 1) ≤ job.frame.length)
    (hput : put' = job.frame.take
      (c.nextWrite s { job with backoff := job.backoff.reset } (k + (m + 1))).written) :
    Spending s frame (n + 1) (.takes (m + 1) :: tried) put'
      (c.nextWrite s { job with backoff := job.backoff.reset } (k + (m + 1))) := by
  obtain ⟨hwritten, -⟩ := lt_of_place h.way (.inl place)
  obtain ⟨hway, hplace, hframe⟩ :=
    underWay_nextWrite (s := s) c { job with backoff := job.backoff.reset } room
  obtain ⟨hbackoff, hnext⟩ :=
    backoff_nextWrite (s := s) c { job with backoff := job.backoff.reset } (k + (m + 1))
  have hpaid := h.paid
  have hturns := h.turns
  rw [hwritten] at hpaid
  refine ⟨hframe.trans h.same, hway, ?_, ?_, ?_, Nat.zero_le _, ?_, fun _ => rfl, ?_⟩
  · rw [hframe]; exact hput
  · rw [hbackoff]; exact h.budget
  · rw [hbackoff]; rfl
  · have hwithin := h.within
    rw [hplace]
    generalize s.settings.retry.maxRetries = budget at hpaid hwithin ⊢
    -- The setbacks are forgotten: one octet at least pays for them and for this write.
    calc tried.length + 1 ≤ k * (budget + 1) + (budget + 1) := by omega
      _ = (k + 1) * (budget + 1) := (Nat.succ_mul k (budget + 1)).symm
      _ ≤ (k + (m + 1)) * (budget + 1) := Nat.mul_le_mul_right _ (by omega)
  · rw [hnext, List.length_cons, Bool.toNat_false]
    omega

theorem Spending.backsOff (h : Spending s frame n tried put job) {put' : Octets} {k : Nat}
    {deadline delay resume : Span} {b : Backoff} {x : WriteOutcome} (setback : x.isSetback = true)
    (place : job.point = .writing k deadline) (granted : job.backoff.next? = some (delay, b))
    (hput : put' = job.frame.take k) :
    Spending s frame (n + 1) (x :: tried) put'
      { job with point := .retrying k resume, backoff := b } := by
  obtain ⟨hwritten, hlt⟩ := lt_of_place h.way (.inl place)
  have hone := setbacks_of_setback setback tried
  rcases next?_cases job.backoff with ⟨hnone, _⟩ | ⟨hleft, _, _, hsome, hattempts, hbudget⟩
  · cases granted.symm.trans hnone
  · cases granted.symm.trans hsome
    have hpaid := h.paid
    have hturns := h.turns
    rw [hwritten] at hpaid
    rw [h.counted, h.budget] at hleft
    refine ⟨h.same, hlt, hput, hbudget.trans h.budget, ?_, ?_, ?_, fun hwhole => ?_, ?_⟩
    · rw [hone, ← h.counted]; exact hattempts
    · rw [hone]; exact hleft
    · rw [hone]; exact Nat.succ_le_succ hpaid
    · exact absurd hwhole (Nat.ne_of_lt hlt)
    · show n + 1 + 1 ≤ 2 * (tried.length + 1)
      omega

theorem spending_of_writing (h : Writing s o frame n tried put job) :
    Spending s frame n tried put job := by
  induction h with
  | begins turn => exact spending_of_begins turn
  | @goes n tried put more job job' c c' w _ turn takes ih =>
    have hput := put_of_turn (stepWrite_cases ih.way turn) takes ih.put
    cases trial_of_stepWrite ih.way turn with
    | resumes idle place =>
      rw [idle]
      exact ih.resumes place hput
    | advances tried place room =>
      rw [tried]
      exact ih.advances place room hput
    | backsOff tried setback place granted =>
      rw [tried]
      exact ih.backsOff setback place granted hput

/-! ## How it ends -/

/-- Nothing has been counted as sent. -/
def Uncounted (c c' : Connection) : Prop :=
  c'.metrics.messagesSent = c.metrics.messagesSent ∧ c'.metrics.bytesSent = c.metrics.bytesSent

/-- What a turn comes to, by the outcomes before it and its own, and by what has been written. -/
inductive Reported (s : Setup) (frame : Octets) (tried : List WriteOutcome) (put : Octets)
    (c c' : Connection) : Option WriteOutcome → WriteProgress → Prop where
  | goes {x : Option WriteOutcome} {job : WriteJob}
      (unsettled : ∀ y, x = some y → verdict s.settings.retry.maxRetries (y :: tried) = none)
      (counts : Uncounted c c') : Reported s frame tried put c c' x (.goes job)
  | fails {x : WriteOutcome} {e : EngineError}
      (reason : verdict s.settings.retry.maxRetries (x :: tried) = some e)
      (counts : Uncounted c c') : Reported s frame tried put c c' (some x) (.ends (.error e))
  | succeeds (whole : put = frame)
      (messages : c'.metrics.messagesSent = c.metrics.messagesSent + 1)
      (bytes : c'.metrics.bytesSent = c.metrics.bytesSent + .ofNat frame.length) :
      Reported s frame tried put c c' none (.ends (.ok ()))

/-- What is settled about a frame that is being written. -/
structure Settled (s : Setup) (o : Owner) (frame : Octets) (n : Nat) (tried : List WriteOutcome)
    (put : Octets) (job : WriteJob) : Prop where
  /-- The stream has taken the first octets of the frame, in order. -/
  order : put <+: frame
  within : setbacks tried ≤ s.settings.retry.maxRetries
  /-- With the write that it waits for, it has made so many writes at most. -/
  attempts : ∀ w, ((job.outcome? w).toList ++ tried).length ≤
    frame.length * (s.settings.retry.maxRetries + 1)
  /-- There are no more pauses than writes. -/
  turns : n ≤ 2 * (frame.length * (s.settings.retry.maxRetries + 1))
  /-- From some time on it can go on. -/
  onward : ∃ due, ∀ c : Connection, due ≤ c.now →
    ∃ w r, job.Flushes w ∧ c.stepWrite s o job w = some r
  reported : ∀ c c' w p, c.isClosed = false → job.Flushes w →
    c.stepWrite s o job w = some (c', p) → Reported s frame tried put c c' (job.outcome? w) p

theorem written_le (way : job.UnderWay) : job.written ≤ job.frame.length := by
  cases hp : job.point with
  | locking => rw [WriteJob.UnderWay, hp] at way; exact way.elim
  | writing k deadline =>
    obtain ⟨hwritten, hlt⟩ := lt_of_place way (.inl hp)
    exact Nat.le_of_lt (hwritten ▸ hlt)
  | retrying k resume =>
    obtain ⟨hwritten, hlt⟩ := lt_of_place way (.inr hp)
    exact Nat.le_of_lt (hwritten ▸ hlt)
  | flushing deadline => rw [WriteJob.written, hp]

/-- While octets are left, there is room for one more write. -/
theorem Spending.length_lt (h : Spending s frame n tried put job)
    (hlt : job.written < frame.length) :
    tried.length < frame.length * (s.settings.retry.maxRetries + 1) := by
  have hpaid := h.paid
  have hwithin := h.within
  generalize s.settings.retry.maxRetries = budget at hpaid hwithin ⊢
  calc tried.length < job.written * (budget + 1) + (budget + 1) := by omega
    _ = (job.written + 1) * (budget + 1) := (Nat.succ_mul job.written (budget + 1)).symm
    _ ≤ frame.length * (budget + 1) := Nat.mul_le_mul_right _ hlt

theorem Spending.length_le (h : Spending s frame n tried put job) :
    tried.length ≤ frame.length * (s.settings.retry.maxRetries + 1) := by
  rcases Nat.lt_or_eq_of_le (written_le h.way) with hlt | hwhole
  · exact Nat.le_of_lt (h.length_lt (h.same ▸ hlt))
  · have hpaid := h.paid
    rw [h.whole hwhole, hwhole, h.same] at hpaid
    exact hpaid

theorem lt_of_outcome {x : WriteOutcome} (way : job.UnderWay) (h : job.outcome? w = some x) :
    job.written < job.frame.length := by
  unfold WriteJob.outcome? at h
  cases hp : job.point with
  | writing k deadline =>
    obtain ⟨hwritten, hlt⟩ := lt_of_place way (.inl hp)
    exact hwritten ▸ hlt
  | _ => rw [hp] at h; cases h

theorem onward_of_underWay (way : job.UnderWay) : ∃ due, ∀ c : Connection, due ≤ c.now →
    ∃ w r, job.Flushes w ∧ c.stepWrite s o job w = some r := by
  obtain ⟨frame, point, backoff, since⟩ := job
  cases point with
  | locking => exact way.elim
  | writing k deadline =>
    exact ⟨deadline, fun c hdue => ⟨.timer, _, nofun, if_pos hdue⟩⟩
  | retrying k resume =>
    exact ⟨resume, fun c hdue => ⟨.timer, _, nofun, if_pos hdue⟩⟩
  | flushing deadline => exact ⟨0, fun c _ => ⟨.flush (.ok ()), _, fun _ _ => rfl, rfl⟩⟩

/-- Only a frame that is written wholly is counted. -/
theorem uncounted_of_turn (h : WriteTurn s c job c' p) (hp : p ≠ .ends (.ok ())) :
    Uncounted c c' := by
  cases h with
  | waits rest _ _ _ => exact ⟨rest.messages, rest.bytes⟩
  | writes _ _ _ => exact ⟨rfl, rfl⟩
  | fails rest => exact ⟨rest.messages, rest.bytes⟩
  | completes _ => exact absurd rfl hp

/-- The backoff grants a delay as long as the setbacks are within the budget. -/
theorem Spending.next? (h : Spending s frame n tried put job) {x : WriteOutcome}
    (setback : x.isSetback = true) : job.backoff.next? = none ↔
      setbacks (x :: tried) = s.settings.retry.maxRetries + 1 := by
  have hwithin := h.within
  rw [setbacks_of_setback setback]
  rcases next?_cases job.backoff with ⟨hnone, hspent⟩ | ⟨hleft, _, _, hsome, _⟩
  · rw [h.counted, h.budget] at hspent
    exact iff_of_true hnone (by omega)
  · rw [h.counted, h.budget] at hleft
    refine iff_of_false (fun hnone => ?_) (by omega)
    cases hsome.symm.trans hnone

theorem Spending.reported (h : Spending s frame n tried put job) (live : c.isClosed = false)
    (flushes : job.Flushes w) (turn : c.stepWrite s o job w = some (c', p)) :
    Reported s frame tried put c c' (job.outcome? w) p := by
  have hturn := stepWrite_cases h.way turn
  have hcounts := uncounted_of_turn hturn
  cases trial_of_stepWrite h.way turn with
  | resumes idle place =>
    rw [idle]
    exact .goes nofun (hcounts nofun)
  | advances tried place room =>
    rw [tried]
    exact .goes (fun y hy => by cases hy; rfl) (hcounts nofun)
  | stalls tried =>
    rw [tried]
    exact .fails rfl (hcounts nofun)
  | breaks tried lasts =>
    rw [tried]
    exact .fails (if_pos lasts) (hcounts nofun)
  | backsOff tried setback place granted =>
    have hleft := mt (h.next? setback).2 (by rw [granted]; nofun)
    rw [tried]
    refine .goes (fun y hy => ?_) (hcounts nofun)
    cases hy
    rw [verdict_of_setback setback, if_neg hleft]
  | givesUp tried setback spent =>
    have hover := (h.next? setback).1 spent
    have hall : job.backoff.attempts = s.settings.retry.maxRetries := by
      rw [setbacks_of_setback setback] at hover
      rw [h.counted, Nat.add_right_cancel hover]
    rw [tried, hall]
    refine .fails ?_ (hcounts nofun)
    rw [verdict_of_setback setback, if_pos hover]
  | passes idle whole =>
    rw [idle]
    cases hturn with
    | completes _ =>
      refine .succeeds ?_ rfl ?_
      · rw [h.put, whole, List.take_length, h.same]
      · rw [← h.same]; rfl
  | quits amiss =>
    rcases amiss with hclosed | hflushes
    · cases live.symm.trans hclosed
    · exact absurd flushes hflushes

theorem Spending.settled (h : Spending s frame n tried put job) :
    Settled s o frame n tried put job := by
  have hlen := h.length_le
  have hturns := h.turns
  refine ⟨?_, h.within, fun w => ?_, ?_, onward_of_underWay h.way,
    fun c c' w p live flushes turn => h.reported live flushes turn⟩
  · rw [h.put, h.same]
    exact List.take_prefix _ _
  · cases hx : job.outcome? w with
    | none => exact hlen
    | some x => exact h.length_lt (h.same ▸ lt_of_outcome h.way hx)
  · omega

theorem settled_of_writing (h : Writing s o frame n tried put job) :
    Settled s o frame n tried put job := by
  have hs := spending_of_writing h
  exact hs.settled

theorem Writing.seen (h : Writing s o frame n tried put job)
    (turn : (c.stepWrite s o job w).map (fun r => (r.1.written, r.2.job?)) =
      some (c.written ++ more, some job')) :
    Writing s o frame (n + 1) ((job.outcome? w).toList ++ tried) (put ++ more) job' := by
  obtain ⟨⟨c', p⟩, hturn, hseen⟩ := Option.map_eq_some_iff.1 turn
  obtain ⟨htakes, hjob⟩ := Prod.mk.inj hseen
  cases p with
  | goes job =>
    cases hjob
    exact h.goes hturn htakes
  | ends result => cases hjob

/-- Under a budget of one retry the stream takes two octets, a write is interrupted and tried again,
and the next failure is the last. -/
theorem settled_of_writing_of_interrupted :
    let s : Setup :=
      { id := 1, peer := none, localAddress := none, framing := .field 64,
        settings :=
          { ConnectionSettings.standard with writeTimeout := 2, retry := ⟨1, 1, 4, .zero false⟩ },
        handler := .quiet, chance := fun _ delay => delay }
    let tried : List WriteOutcome := [.fails (.ofKind .interrupted), .takes 2]
    ∃ (job : WriteJob) (c c' : Connection), Writing s .loop [7, 8, 9] 3 tried [7, 8] job ∧
      Settled s .loop [7, 8, 9] 3 tried [7, 8] job ∧ c.isClosed = false ∧
      c.stepWrite s .loop job (.write (.error (.ofKind .wouldBlock))) =
        some (c', .ends (.error (.retriesExhausted 1 (.ofKind .wouldBlock)))) := by
  intro s tried
  let fresh : Backoff := ⟨1, 1, 4, 1, 0, .zero false⟩
  let spent : Backoff := ⟨1, 2, 4, 1, 1, .zero false⟩
  let late : Connection := { new s with now := 1 }
  have h₀ : Writing s .loop [7, 8, 9] 0 [] [] _ := .begins (c := new s) (b := new s) rfl
  have h₁ : Writing s .loop [7, 8, 9] 1 [.takes 2] [7, 8] ⟨[7, 8, 9], .writing 2 2, fresh, 0⟩ :=
    h₀.seen (c := new s) (w := .write (.ok 2)) (by decide +kernel)
  have h₂ : Writing s .loop [7, 8, 9] 2 tried [7, 8] ⟨[7, 8, 9], .retrying 2 1, spent, 0⟩ :=
    h₁.seen (c := new s) (w := .write (.error (.ofKind .interrupted))) (by decide +kernel)
  have h₃ : Writing s .loop [7, 8, 9] 3 tried [7, 8] ⟨[7, 8, 9], .writing 2 3, spent, 0⟩ :=
    h₂.seen (c := late) (w := .timer) (by decide +kernel)
  exact ⟨_, late, late, h₃, settled_of_writing h₃, rfl, rfl⟩

end Connection
end FrameEngine
