import FrameEngine.Proofs.Connection.Quiet

/-!
# FrameEngine.Proofs.Connection.WriteJob

One frame on its way to the stream. `stepWrite_cases` lists what a step can do to a job that has
the write half (`WriteTurn`): it waits, or the stream takes the next octets of its frame, or it
fails, or its frame is whole. Nothing else about the writing side changes with it.
-/

namespace FrameEngine

namespace WriteJob

/-- How many octets of the frame the stream has taken. -/
def written (job : WriteJob) : Nat :=
  match job.point with
  | .locking => 0
  | .writing n _ | .retrying n _ => n
  | .flushing _ => job.frame.length

/-- The job has the write half, and writes as long as octets are left. -/
def UnderWay (job : WriteJob) : Prop :=
  match job.point with
  | .locking => False
  | .writing n _ | .retrying n _ => n < job.frame.length
  | .flushing _ => True

variable {job : WriteJob} {n : Nat} {time : Span}

theorem underWay_of_place (place : job.point = .writing n time ∨ job.point = .retrying n time) :
    job.written = n ∧ (job.UnderWay ↔ n < job.frame.length) := by
  rw [written, UnderWay]
  rcases place with point | point <;> rw [point] <;> exact ⟨rfl, .rfl⟩

end WriteJob

namespace Connection

variable {s : Setup} {c c' : Connection}

theorem underWay_nextWrite (c : Connection) (job : WriteJob) {n : Nat} (h : n ≤ job.frame.length) :
    (c.nextWrite s job n).UnderWay ∧ (c.nextWrite s job n).written = n ∧
      (c.nextWrite s job n).frame = job.frame := by
  unfold nextWrite
  split
  · rename_i hlt
    exact ⟨hlt, rfl, rfl⟩
  · exact ⟨trivial, Nat.le_antisymm (Nat.le_of_not_lt ‹_›) h, rfl⟩

/-- What a step does to a frame that is being written. -/
inductive WriteTurn (s : Setup) (c : Connection) (job : WriteJob) :
    Connection → WriteProgress → Prop where
  /-- It waits for a time, or begins to wait for the stream again. -/
  | waits {c' : Connection} {job' : WriteJob} (rest : Quiet s c c') (way : job'.UnderWay)
      (frame : job'.frame = job.frame) (place : job'.written = job.written) :
      WriteTurn s c job c' (.goes job')
  /-- The stream takes octets of it. -/
  | writes {n : Nat} {job' : WriteJob} (way : job'.UnderWay) (frame : job'.frame = job.frame)
      (place : job'.written = job.written + n) :
      WriteTurn s c job (c.note (.wrote ((job.frame.drop job.written).take n))) (.goes job')
  /-- It is given up. -/
  | fails {c' : Connection} {e : EngineError} (rest : Quiet s c c') :
      WriteTurn s c job c' (.ends (.error e))
  /-- All of it is written. -/
  | completes (whole : job.written = job.frame.length) :
      WriteTurn s c job (c.completeWrite job) (.ends (.ok ()))

theorem WriteFails.underWay {job : WriteJob} {w : Wake} {n : Nat} {f : IoFailure} {e : EngineError}
    (h : WriteFails c job w n f e) : job.written = n ∧ (job.UnderWay ↔ n < job.frame.length) := by
  cases h with
  | late point due => exact WriteJob.underWay_of_place (.inl point)
  | breaks point passes => exact WriteJob.underWay_of_place (.inl point)

theorem stepWrite_cases {o : Owner} {job : WriteJob} {w : Wake} {p : WriteProgress}
    (hj : job.UnderWay) (h : c.stepWrite s o job w = some (c', p)) : WriteTurn s c job c' p := by
  cases writeStep_of h with
  | enters point held =>
    rw [WriteJob.UnderWay, point] at hj
    exact hj.elim
  | retries fails granted =>
    obtain ⟨hwritten, hway⟩ := fails.underWay
    exact .waits (quiet_retryAfter c _ _) (hway.1 hj) rfl hwritten.symm
  | @writes n k deadline point fits takes =>
    obtain ⟨rfl, hway⟩ := WriteJob.underWay_of_place (.inl point)
    have hlt := hway.1 hj
    obtain ⟨hnext, hplace, hframe⟩ := underWay_nextWrite (s := s)
      (c.note (.wrote ((job.frame.drop job.written).take k)))
      { job with backoff := job.backoff.reset } (n := job.written + k) (by dsimp only; omega)
    exact .writes hnext hframe hplace
  | resumes point due =>
    obtain ⟨rfl, hway⟩ := WriteJob.underWay_of_place (.inr point)
    obtain ⟨hnext, hplace, hframe⟩ := underWay_nextWrite (s := s) c job (Nat.le_of_lt (hway.1 hj))
    exact .waits (.refl c) hnext hframe hplace
  | completes point => exact .completes (by rw [WriteJob.written, point])
  | _ => exact .fails (.refl c)

end Connection
end FrameEngine
