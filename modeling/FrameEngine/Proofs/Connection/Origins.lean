import FrameEngine.Proofs.Connection.Attempts

/-!
# FrameEngine.Proofs.Connection.Origins

Where the frames of a connection's writers come from. After a step, each writer has the frame that
it had, or has asked for the write half with a new one, or has made a turn (`Origin`). So in every
run a writer that has a frame waits for the write half with it, or is writing it in the way of
`Writing` (`traced_of_steps`), and then all bounds on its attempts apply to it (`settled_of_steps`).
-/

namespace FrameEngine
namespace Connection

variable {s : Setup} {c c' : Connection} {o : Owner} {job job' : WriteJob} {w : Wake}
  {p : WriteProgress} {frame put : Octets} {n : Nat} {tried : List WriteOutcome}

/-! ## Steps -/

/-- How a writer has come to a frame in the place where it is after a step. -/
inductive Origin (s : Setup) (c : Connection) (o : Owner) (job' : WriteJob) : Prop where
  | keeps (has : c.job? o = some job')
  /-- It waits for the write half. -/
  | asks {b : Connection} {frame : Octets} (waits : job' = b.writeJob s frame)
  | begins {b c₁ : Connection} {frame : Octets}
      (turn : c₁.takeTurn s (b.writeJob s frame) = .goes job')
  | drives {job : WriteJob} {w : Wake} {c₁ : Connection} (has : c.job? o = some job)
      (turn : c.stepWrite s o job w = some (c₁, .goes job'))

theorem origin_requestWrite {o' : Owner} {b c₁ : Connection}
    (h : b.requestWrite s o' frame = (c₁, .goes job')) : Origin s c o job' := by
  unfold requestWrite at h
  dsimp only at h
  split at h
  · exact .begins (Prod.mk.inj h).2
  · exact .asks (WriteProgress.goes.inj (Prod.mk.inj h).2).symm

theorem job?_exitWriter (c : Connection) : (c.exitWriter s).job? .loop = none := by
  unfold exitWriter
  dsimp only
  split <;> rfl

theorem job?_writerRound (c : Connection) : c.writerRound.job? .loop = none := by
  obtain ⟨taken, limiter, h⟩ := tryAcquire_eq c
  unfold writerRound
  rw [h]
  cases taken <;> rfl

theorem goes_of_afterWrite (h : (c.afterWrite s p).job? .loop = some job) : p = .goes job := by
  unfold afterWrite at h
  split at h
  · exact congrArg _ (Option.some.inj h)
  · dsimp only at h
    split at h
    · cases (job?_writerRound _).symm.trans h
    · cases (job?_exitWriter _).symm.trans h

theorem origin_stepWriter (h : c.stepWriter s w = some c') (hj : c'.job? .loop = some job') :
    Origin s c .loop job' := by
  cases writerStep_of h with
  | begins fresh kept => cases (job?_writerRound _).symm.trans hj
  | lacks fresh apart => cases hj
  | stops waits closed => cases (job?_exitWriter _).symm.trans hj
  | resumes paused due => cases (job?_writerRound _).symm.trans hj
  | takes receiving live popped => exact origin_requestWrite (Prod.ext rfl (goes_of_afterWrite hj))
  | ends receiving live none => cases (job?_exitWriter _).symm.trans hj
  | goes writing write =>
    cases goes_of_afterWrite hj
    exact .drives (job?_loop.2 writing) write
  | releases releasing held => cases hj

theorem job?_of_direct (h : c'.direct = c.direct) (t : Nat) :
    c'.job? (.direct t) = c.job? (.direct t) := by
  rw [job?, job?, h]

theorem job?_setDirect {t t' : Nat} (hne : t ≠ t') (c : Connection) (d : DirectCall) :
    (c.setDirect t d).job? (.direct t') = c.job? (.direct t') := by
  simp only [job?, setDirect, List.getElem?_set_ne hne]

theorem goes_of_afterSend {t : Nat} (h : (c.afterSend t p).job? (.direct t) = some job) :
    p = .goes job := by
  have hd := job?_direct.1 h
  cases p with
  | goes job' =>
    simp only [afterSend, setDirect, List.getElem?_set_self'] at hd
    obtain ⟨_, _, hsame⟩ := Option.map_eq_some_iff.1 hd
    cases hsame
    rfl
  | ends result =>
    simp only [afterSend, setDirect, List.getElem?_set_self'] at hd
    obtain ⟨_, _, hsame⟩ := Option.map_eq_some_iff.1 hd
    cases hsame

theorem job?_afterSend {t t' : Nat} (hne : t ≠ t') (c : Connection) (p : WriteProgress) :
    (c.afterSend t p).job? (.direct t') = c.job? (.direct t') := by
  cases p with
  | goes job => exact job?_setDirect hne _ _
  | ends result => exact job?_setDirect hne _ _

theorem origin_beginSend (hj : (c.beginSend s frame).job? o = some job') : Origin s c o job' := by
  have hsame : c.enrolled.job? = c.job? := congrArg Writers.job (writers_enrolled c)
  have hwriter : (c.beginSend s frame).writer = c.writer := writer_beginSend c frame
  have hbegin : c.beginSend s frame =
      afterSend (c.enrolled.requestWrite s (.direct c.direct.length) frame).1 c.direct.length
        (c.enrolled.requestWrite s (.direct c.direct.length) frame).2 := rfl
  cases o with
  | loop => exact .keeps (job?_loop.2 (hwriter.symm.trans (job?_loop.1 hj)))
  | direct t =>
    by_cases ht : c.direct.length = t
    · subst ht
      exact origin_requestWrite (Prod.ext rfl (goes_of_afterSend hj))
    · have hdirect := congrArg Aspect.direct
        (requestWrite_eq (s := s) c.enrolled (.direct c.direct.length) frame).1
      rw [hbegin, job?_afterSend ht, job?_of_direct hdirect, hsame] at hj
      exact .keeps hj

/-- Only its own turns, and its own requests, move a writer on. -/
theorem origin_of_turn {l : Label} (turn : Turn s c l c') (hj : c'.job? o = some job') :
    Origin s c o job' := by
  cases turn with
  | quiet rest => exact .keeps ((congrFun rest.job? o).symm.trans hj)
  | begins fresh told looped =>
    cases o with
    | loop =>
      have hwriter : c'.writer = .fresh := congrArg Outlet.writer looped
      cases hwriter.symm.trans (job?_loop.1 hj)
    | direct t =>
      rw [job?_of_direct (congrArg Outlet.direct looped), told.job?] at hj
      exact .keeps hj
  | loops went =>
    cases o with
    | loop => exact origin_stepWriter went hj
    | direct t =>
      rw [job?_of_direct (still_stepWriter went).direct] at hj
      exact .keeps hj
  | sends frame => exact origin_beginSend hj
  | @drives ticket job w c₁ p sending went =>
    have hcalm := calm_stepWrite went
    cases o with
    | loop =>
      have hwriter := (writer_afterSend c₁ ticket p).trans hcalm.writer
      exact .keeps (job?_loop.2 (hwriter.symm.trans (job?_loop.1 hj)))
    | direct t =>
      by_cases ht : ticket = t
      · subst ht
        cases goes_of_afterSend hj
        exact .drives (job?_direct.2 sending) went
      · rw [job?_afterSend ht, job?_of_direct hcalm.direct] at hj
        exact .keeps hj

theorem origin_of_step {l : Label} (h : c.step s l = some c') (hj : c'.job? o = some job') :
    Origin s c o job' := by
  cases l with
  | sendFrame frame =>
    -- Any octets may be queued as a frame, and `step_cases` speaks of packed ones only.
    cases step_of h with
    | queues | rejects => exact .keeps hj
  | sendDirect frame => cases h; exact origin_beginSend hj
  | _ => exact origin_of_turn (step_cases h trivial) hj

/-! ## Runs -/

/-- A frame waits for the write half, or is being written. -/
def Traced (s : Setup) (o : Owner) (job : WriteJob) : Prop :=
  (∃ b : Connection, job = b.writeJob s job.frame) ∨
    ∃ n tried put, Writing s o job.frame n tried put job

theorem Writing.traced (h : Writing s o frame n tried put job) : Traced s o job := by
  have hs := spending_of_writing h
  rw [← hs.same] at h
  exact .inr ⟨n, tried, put, h⟩

/-- Who waits for the write half begins when it has it. -/
theorem takeTurn_of_waiting {b : Connection}
    (turn : c.stepWrite s o (b.writeJob s frame) w = some (c', .goes job)) :
    c.takeTurn s (b.writeJob s frame) = .goes job := by
  obtain ⟨-, -, -, htaken⟩ := stepWrite_of_locking rfl turn
  exact htaken.symm

theorem traced_of_origin (h : Origin s c o job')
    (hc : ∀ job, c.job? o = some job → Traced s o job) : Traced s o job' := by
  cases h with
  | keeps has => exact hc job' has
  | @asks b frame waits => subst waits; exact .inl ⟨b, rfl⟩
  | begins turn => exact (Writing.begins turn).traced
  | @drives job w c₁ has turn =>
    rcases hc job has with ⟨b, hwaits⟩ | ⟨n, tried, put, hw⟩
    · rw [hwaits] at turn
      exact (Writing.begins (takeTurn_of_waiting turn)).traced
    · obtain ⟨more, htakes⟩ := (stepWrite_cases (spending_of_writing hw).way turn).takes
      exact (hw.goes turn htakes).traced

theorem traced_steps {ls : List Label} (run : Steps s c ls c')
    (hc : ∀ job, c.job? o = some job → Traced s o job) :
    ∀ job, c'.job? o = some job → Traced s o job := by
  induction run with
  | nil => exact hc
  | cons first _ ih => exact ih fun job hj => traced_of_origin (origin_of_step first hj) hc

/-- Whoever has a frame in a connection waits for the write half, or is writing it. -/
theorem traced_of_steps {ls : List Label} (run : Steps s (new s) ls c)
    (hj : c.job? o = some job) : Traced s o job := by
  refine traced_steps run (fun job hnew => ?_) job hj
  cases o with
  | loop => cases hnew
  | direct t => cases hnew

/-- Of a frame that is being written, anywhere in a run, so many attempts have been made at most,
and it ends as its outcomes say. -/
theorem settled_of_steps {ls : List Label} (run : Steps s (new s) ls c)
    (hj : c.job? o = some job) (entered : job.point ≠ .locking) :
    ∃ n tried put, Writing s o job.frame n tried put job ∧
      Settled s o job.frame n tried put job := by
  rcases traced_of_steps run hj with ⟨b, hwaits⟩ | ⟨n, tried, put, hw⟩
  · rw [hwaits] at entered
    exact absurd rfl entered
  · exact ⟨n, tried, put, hw, (spending_of_writing hw).settled⟩

end Connection
end FrameEngine
