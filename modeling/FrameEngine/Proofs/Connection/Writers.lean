import FrameEngine.Proofs.Connection.WriteJob
import Mathlib.Logic.Function.Basic

/-!
# FrameEngine.Proofs.Connection.Writers

The write loop and the direct sends share one stream: they wait in a line for the lock of the write
half, and whoever is at its head writes. `Writers` is that line, with the frames that it brings.

A step of a connection is to it an `Act`: octets are put on the stream, a frame is completed or
given up, or there are only `Moves`, in which writers come and go and the stream is left alone.
`Orderly` is the invariant: nobody is in the line twice, and nobody but its head is at a frame.
Since the line is passed on without a look at what its head has left behind, a frame that is given
up half way is followed by others, unless the write half goes with it (`Spent`).
-/

namespace FrameEngine

/-- A message was packed in the frame. -/
def Setup.Packs (s : Setup) (frame : Octets) : Prop := ∃ m, s.framing.pack m = .ok frame

/-- Those who write to the stream, and what they have written. -/
@[ext]
structure Writers where
  /-- The holder of the write half and, behind it, those who wait. -/
  line : List Owner
  half : Keeping
  job : Owner → Option WriteJob
  /-- The write loop has ended and waits for the write half, to drop it. -/
  releasing : Bool
  /-- The frames that the write loop will bring. -/
  waiting : List Octets
  written : Octets

namespace Writers

variable {s : Setup} {w w' w'' : Writers} {o : Owner} {job job' : WriteJob}

def setJob (w : Writers) (o : Owner) (job : Option WriteJob) : Writers :=
  { w with job := Function.update w.job o job }

/-- Someone joins the line at its end. -/
def enter (w : Writers) (o : Owner) : Writers := { w with line := w.line ++ [o] }

/-- The head of the line goes, and its frame with it. -/
def leave (w : Writers) (o : Owner) : Writers := { w.setJob o none with line := w.line.tail }

/-- What is written of the frame that the head of the line is at. -/
def part (w : Writers) : Octets :=
  match w.line.head?.bind w.job with
  | some job => job.frame.take job.written
  | none => []

/-- The writer is at the head of the line, with a frame and the write half. -/
structure AtStream (w : Writers) (o : Owner) (job : WriteJob) : Prop where
  has : w.job o = some job
  way : job.UnderWay
  head : w.line.head? = some o
  kept : w.half = .kept

/-- Nobody is in the line twice, and nobody writes who is not at its head. -/
structure Orderly (s : Setup) (w : Writers) : Prop where
  nodup : w.line.Nodup
  present : ∀ o ∈ w.line, (∃ job, w.job o = some job) ∨ o = .loop ∧ w.releasing = true
  jobs : ∀ o job, w.job o = some job →
    o ∈ w.line ∧ s.Packs job.frame ∧ (job.point = .locking ∨ w.AtStream o job)
  ended : w.releasing = true → .loop ∈ w.line ∧ w.job .loop = none
  packs : ∀ frame ∈ w.waiting, s.Packs frame

/-- Nothing can be written any more: the write half is gone, or goes next. -/
def Spent (w : Writers) : Prop :=
  w.half ≠ .kept ∨ w.line.head? = some .loop ∧ w.releasing = true

/-- If the holder of the write half gives up, the half goes with it: it is the write loop and nobody
waits, or the write loop has ended and is the next. -/
def IsLast (w : Writers) (o : Owner) : Prop :=
  o = .loop ∧ w.line = [.loop] ∨ w.line.tail.head? = some .loop ∧ w.releasing = true

/-! ## Moves -/

/-- What happens in the line without the stream. -/
inductive Move (s : Setup) : Writers → Writers → Prop where
  /-- The queue takes frames, and may lose some. -/
  | stock {w : Writers} {waiting : List Octets}
      (packs : ∀ frame ∈ waiting, frame ∈ w.waiting ∨ s.Packs frame) : Move s w { w with waiting }
  /-- The connection is closed while nobody writes. -/
  | close {w : Writers} (free : w.line = []) : Move s w { w with half := .gone }
  | join {w : Writers} {o : Owner} {job : WriteJob} (new : o ∉ w.line) (packs : s.Packs job.frame)
      (place : job.point = .locking) :
      Move s w ((w.enter o).setJob o (some job))
  /-- The head of the line begins to write, or waits for the stream in another way. -/
  | wait {w : Writers} {o : Owner} {job job' : WriteJob} (has : w.job o = some job)
      (head : w.line.head? = some o) (kept : w.half = .kept) (way : job'.UnderWay)
      (frame : job'.frame = job.frame) (place : job'.written = job.written) :
      Move s w (w.setJob o (some job'))
  /-- The head of the line finds the write half gone. -/
  | refuse {w : Writers} {o : Owner} {job : WriteJob} (has : w.job o = some job)
      (head : w.line.head? = some o) (place : job.point = .locking) : Move s w (w.leave o)
  /-- The write loop ends, and joins the line to drop the write half. -/
  | retire {w : Writers} (new : .loop ∉ w.line) : Move s w { w.enter .loop with releasing := true }
  | drop {w : Writers} (head : w.line.head? = some .loop) (ended : w.releasing = true) :
      Move s w { w with line := w.line.tail, releasing := false, half := .gone }

abbrev Moves (s : Setup) : Writers → Writers → Prop := Relation.ReflTransGen (Move s)

@[simp]
theorem setJob_self (w : Writers) (o : Owner) (x : Option WriteJob) : (w.setJob o x).job o = x :=
  Function.update_self ..

theorem setJob_setJob (w : Writers) (o : Owner) (x y : Option WriteJob) :
    (w.setJob o x).setJob o y = w.setJob o y :=
  Writers.ext rfl rfl (Function.update_idem ..) rfl rfl rfl

theorem setJob_of_ne {o' : Owner} (h : o' ≠ o) (x : Option WriteJob) :
    (w.setJob o x).job o' = w.job o' :=
  Function.update_of_ne h ..

theorem part_of_head (head : w.line.head? = some o) :
    w.part = match w.job o with
      | some job => job.frame.take job.written
      | none => [] := by
  rw [part, head]; rfl

theorem AtStream.part_eq (h : w.AtStream o job) : w.part = job.frame.take job.written := by
  rw [part_of_head h.head, h.has]

theorem written_of_locking (place : job.point = .locking) : job.written = 0 := by
  rw [WriteJob.written, place]

theorem not_underWay_of_locking (place : job.point = .locking) : ¬ job.UnderWay := by
  rw [WriteJob.UnderWay, place]; exact id

theorem head_tail_ne (h : w.line.Nodup) (head : w.line.head? = some o) : o ∉ w.line.tail := by
  cases hl : w.line with
  | nil => exact List.not_mem_nil
  | cons first rest =>
    rw [hl] at h head
    cases head
    exact (List.nodup_cons.1 h).1

theorem mem_of_head (head : w.line.head? = some o) : o ∈ w.line :=
  List.mem_of_mem_head? (Option.mem_def.2 head)

/-- Who leaves without having brought a frame has left no trace. -/
theorem leave_of_joined (free : w.line = []) (hj : w.job o = none) :
    (w.enter o).leave o = w := by
  refine Writers.ext ?_ rfl (Function.update_eq_self_iff.2 hj.symm) rfl rfl rfl
  show (w.line ++ [o]).tail = w.line
  rw [free]; rfl

theorem isLast_loop (h : w.line.Nodup) (head : w.line.head? = some .loop) :
    w.IsLast .loop ↔ w.line.tail = [] := by
  have hl := head_tail_ne h head
  constructor
  · rintro (⟨_, hline⟩ | ⟨hnext, _⟩)
    · rw [hline]; rfl
    · exact absurd (List.mem_of_mem_head? (Option.mem_def.2 hnext)) hl
  · intro htail
    obtain ⟨rest, hline⟩ := List.head?_eq_some_iff.1 head
    rw [hline] at htail
    exact .inl ⟨rfl, hline.trans (congrArg (Owner.loop :: ·) htail)⟩

theorem isLast_direct {ticket : Nat} (kept : w.half = .kept) :
    (w.leave (.direct ticket)).Spent ↔ w.IsLast (.direct ticket) := by
  constructor
  · rintro (hgone | hnext)
    · exact absurd kept hgone
    · exact .inr hnext
  · rintro (⟨hl, _⟩ | hnext)
    · cases hl
    · exact .inr hnext

theorem mem_tail_of_mem {o' : Owner} (head : w.line.head? = some o) (h : o' ∈ w.line)
    (hne : o' ≠ o) : o' ∈ w.line.tail := by
  cases hl : w.line with
  | nil => rw [hl] at h; cases h
  | cons first rest =>
    rw [hl] at h head
    cases head
    exact (List.mem_cons.1 h).resolve_left hne

theorem AtStream.append {more : List Owner} (h : w.AtStream o job) (has : w'.job o = some job)
    (line : w'.line = w.line ++ more) (half : w'.half = w.half) : w'.AtStream o job := by
  refine ⟨has, h.way, ?_, half.trans h.kept⟩
  rw [line, List.head?_append, h.head]; rfl

/-- As long as nobody has begun to write. -/
theorem part_eq_nil (h : ∀ o job, w.job o = some job → job.point = .locking) : w.part = [] := by
  rw [part]
  cases hb : w.line.head?.bind w.job with
  | none => rfl
  | some job =>
    obtain ⟨o, _, hj⟩ := Option.bind_eq_some_iff.1 hb
    dsimp only
    rw [written_of_locking (h o job hj), List.take_zero]

theorem nodup_append (h : w.line.Nodup) (new : o ∉ w.line) : (w.line ++ [o]).Nodup := by
  refine List.nodup_append.2 ⟨h, List.pairwise_singleton _ o, fun a ha b hb hab => new ?_⟩
  rw [← List.mem_singleton.1 hb, ← hab]
  exact ha

namespace Orderly

/-- The order is one of the line, of those in it and of the frames to come. -/
theorem congr (h : Orderly s w) (line : w'.line = w.line) (half : w'.half = w.half)
    (job : w'.job = w.job) (releasing : w'.releasing = w.releasing)
    (packs : ∀ frame ∈ w'.waiting, s.Packs frame) : Orderly s w' := by
  obtain ⟨_, _, _, _, _, _⟩ := w'
  cases line; cases half; cases job; cases releasing
  refine ⟨h.nodup, h.present, fun o job hj => ?_, h.ended, packs⟩
  obtain ⟨hm, hpacks, hplace⟩ := h.jobs o job hj
  exact ⟨hm, hpacks, hplace.imp_right fun hs => ⟨hs.has, hs.way, hs.head, hs.kept⟩⟩

theorem job_eq_none (h : Orderly s w) (hm : o ∉ w.line) : w.job o = none := by
  cases hj : w.job o with
  | none => rfl
  | some job => exact absurd (h.jobs o job hj).1 hm

/-- A write loop that waits to drop the half is at no frame. -/
theorem ne_loop (h : Orderly s w) (ended : w.releasing = true) (has : w.job o = some job) :
    o ≠ .loop := by
  rintro rfl
  cases (h.ended ended).2.symm.trans has

theorem locking_of_ne_head (h : Orderly s w) {o' : Owner} (head : w.line.head? = some o')
    (has : w.job o = some job) (hne : o ≠ o') : job.point = .locking := by
  rcases (h.jobs o job has).2.2 with hp | hs
  · exact hp
  · exact absurd (Option.some.inj (hs.head.symm.trans head)) hne

theorem locking_leave (h : Orderly s w) (head : w.line.head? = some o) :
    ∀ o' job, (w.leave o).job o' = some job → job.point = .locking := by
  intro o' job hj
  by_cases hne : o' = o
  · subst hne
    rw [Writers.leave, setJob_self] at hj
    cases hj
  · rw [Writers.leave, setJob_of_ne hne] at hj
    exact h.locking_of_ne_head head hj hne

theorem leave (h : Orderly s w) (has : w.job o = some job) (head : w.line.head? = some o) :
    Orderly s (w.leave o) := by
  refine ⟨h.nodup.tail, fun o' ho' => ?_, fun o' job' hj => ?_, fun hr => ?_, h.packs⟩
  · have hne : o' ≠ o := fun he => head_tail_ne h.nodup head (he ▸ ho')
    rw [Writers.leave, setJob_of_ne hne]
    exact h.present o' (List.mem_of_mem_tail ho')
  · have hp := h.locking_leave head o' job' hj
    by_cases hne : o' = o
    · subst hne
      rw [Writers.leave, setJob_self] at hj
      cases hj
    · rw [Writers.leave, setJob_of_ne hne] at hj
      obtain ⟨hm, hpacks, _⟩ := h.jobs o' job' hj
      exact ⟨mem_tail_of_mem head hm hne, hpacks, .inl hp⟩
  · obtain ⟨hm, hnone⟩ := h.ended hr
    have hne := (h.ne_loop hr has).symm
    rw [Writers.leave, setJob_of_ne hne]
    exact ⟨mem_tail_of_mem head hm hne, hnone⟩

/-- The head of the line goes on with its frame. -/
theorem setJob (h : Orderly s w) (has : w.job o = some job) (head : w.line.head? = some o)
    (kept : w.half = .kept) (way : job'.UnderWay) (frame : job'.frame = job.frame) :
    Orderly s (w.setJob o (some job')) := by
  refine ⟨h.nodup, fun o' ho' => ?_, fun o' job'' hj => ?_, fun hr => ?_, h.packs⟩
  · by_cases hne : o' = o
    · subst hne; exact .inl ⟨job', setJob_self ..⟩
    · rw [setJob_of_ne hne]; exact h.present o' ho'
  · by_cases hne : o' = o
    · subst hne
      rw [setJob_self] at hj
      cases hj
      rw [frame]
      exact ⟨mem_of_head head, (h.jobs _ _ has).2.1, .inr ⟨setJob_self .., way, head, kept⟩⟩
    · rw [setJob_of_ne hne] at hj
      obtain ⟨hm, hpacks, _⟩ := h.jobs o' job'' hj
      exact ⟨hm, hpacks, .inl (h.locking_of_ne_head head hj hne)⟩
  · rw [setJob_of_ne (h.ne_loop hr has).symm]
    exact h.ended hr

theorem join (h : Orderly s w) (new : o ∉ w.line) (packs : s.Packs job.frame)
    (place : job.point = .locking) :
    Orderly s ((w.enter o).setJob o (some job)) := by
  refine ⟨nodup_append h.nodup new, fun o' ho' => ?_, fun o' job' hj => ?_, fun hr => ?_, h.packs⟩
  · by_cases hne : o' = o
    · subst hne; exact .inl ⟨job, setJob_self ..⟩
    · have hm := (List.mem_append.1 ho').resolve_right fun hm => hne (List.mem_singleton.1 hm)
      rw [setJob_of_ne hne]
      exact h.present o' hm
  · by_cases hne : o' = o
    · subst hne
      rw [setJob_self] at hj
      cases hj
      exact ⟨List.mem_append_right _ (List.mem_singleton_self _), packs, .inl place⟩
    · rw [setJob_of_ne hne] at hj
      obtain ⟨hm, hpacks, hplace⟩ := h.jobs o' job' hj
      exact ⟨List.mem_append_left _ hm, hpacks, hplace.imp_right fun hs =>
        hs.append ((setJob_of_ne hne _).trans hj) rfl rfl⟩
  · obtain ⟨hm, hnone⟩ := h.ended hr
    have hne : Owner.loop ≠ o := fun he => new (he ▸ hm)
    rw [setJob_of_ne hne]
    exact ⟨List.mem_append_left _ hm, hnone⟩

theorem retire (h : Orderly s w) (new : .loop ∉ w.line) :
    Orderly s { w.enter .loop with releasing := true } := by
  refine ⟨nodup_append h.nodup new, fun o ho => ?_, fun o job hj => ?_, fun _ => ?_, h.packs⟩
  · rcases List.mem_append.1 ho with ho | ho
    · exact (h.present o ho).imp_right fun hr => ⟨hr.1, rfl⟩
    · exact .inr ⟨List.mem_singleton.1 ho, rfl⟩
  · obtain ⟨hm, hpacks, hplace⟩ := h.jobs o job hj
    exact ⟨List.mem_append_left _ hm, hpacks, hplace.imp_right fun hs => hs.append hj rfl rfl⟩
  · exact ⟨List.mem_append_right _ (List.mem_singleton_self _), h.job_eq_none new⟩

theorem drop (h : Orderly s w) (head : w.line.head? = some .loop) (ended : w.releasing = true) :
    Orderly s { w with line := w.line.tail, releasing := false, half := .gone } := by
  refine ⟨h.nodup.tail, fun o ho => ?_, fun o job hj => ?_, nofun, h.packs⟩
  · have hne : o ≠ .loop := fun he => head_tail_ne h.nodup head (he ▸ ho)
    exact .inl ((h.present o (List.mem_of_mem_tail ho)).resolve_right fun hr => hne hr.1)
  · have hne := h.ne_loop ended hj
    obtain ⟨hm, hpacks, _⟩ := h.jobs o job hj
    exact ⟨mem_tail_of_mem head hm hne, hpacks, .inl (h.locking_of_ne_head head hj hne)⟩

end Orderly

theorem Move.orderly (m : Move s w w') (h : Orderly s w) : Orderly s w' := by
  cases m with
  | stock packs =>
    exact h.congr rfl rfl rfl rfl fun frame hf => (packs frame hf).elim (h.packs frame) id
  | close free =>
    refine ⟨h.nodup, h.present, fun o job hj => ?_, h.ended, h.packs⟩
    have hm := (h.jobs o job hj).1
    rw [free] at hm
    cases hm
  | join new packs place => exact h.join new packs place
  | wait has head kept way frame place => exact h.setJob has head kept way frame
  | refuse has head place => exact h.leave has head
  | retire new => exact h.retire new
  | drop head ended => exact h.drop head ended

theorem Move.written (m : Move s w w') : w'.written = w.written := by cases m <;> rfl

/-- Who joins the line behind others does not change what its head is at. -/
theorem part_append (h : w.line = [] → w'.part = []) (line : w'.line = w.line ++ [o])
    (job : ∀ o ∈ w.line, w'.job o = w.job o) : w'.part = w.part := by
  cases hl : w.line with
  | nil => rw [h hl, part, hl]; rfl
  | cons first rest =>
    have head : w.line.head? = some first := by rw [hl]; rfl
    have head' : w'.line.head? = some first := by rw [line, hl]; rfl
    rw [part_of_head head, part_of_head head', job first (mem_of_head head)]

theorem Move.part (m : Move s w w') (h : Orderly s w) : w'.part = w.part := by
  cases m with
  | stock packs => rfl
  | close free => rfl
  | @join o job new packs place =>
    refine part_append (o := o) (fun free => ?_) rfl fun o' ho' =>
      setJob_of_ne (ne_of_mem_of_not_mem ho' new) _
    have head : (w.line ++ [o]).head? = some o := by rw [free]; rfl
    rw [part_of_head head, setJob_self]
    dsimp only
    rw [written_of_locking place, List.take_zero]
  | @wait o job job' has head kept way frame place =>
    rw [part_of_head (w := w.setJob o (some job')) head, part_of_head head, setJob_self, has]
    dsimp only
    rw [frame, place]
  | refuse has head place =>
    rw [part_eq_nil (h.locking_leave head), part_of_head head, has]
    dsimp only
    rw [written_of_locking place, List.take_zero]
  | retire new =>
    refine part_append (o := .loop) (fun free => ?_) rfl fun _ _ => rfl
    have head : (w.line ++ [Owner.loop]).head? = some .loop := by rw [free]; rfl
    rw [part_of_head head]
    show (match w.job .loop with | some job => job.frame.take job.written | none => []) = []
    rw [h.job_eq_none new]
  | drop head ended =>
    rw [part_of_head head, (h.ended ended).2]
    exact part_eq_nil fun o job hj => h.locking_of_ne_head head hj (h.ne_loop ended hj)

/-- Who joins an empty line begins at once. -/
theorem moves_begin (new : o ∉ w.line) (free : w.line = []) (kept : w.half = .kept)
    (packs : s.Packs job.frame) (way : job.UnderWay) (place : job.written = 0) :
    Moves s w ((w.enter o).setJob o (some job)) := by
  have hlocking : ({ job with point := .locking } : WriteJob).point = .locking := rfl
  have hjoin : Move s w ((w.enter o).setJob o (some { job with point := .locking })) :=
    .join new packs hlocking
  have head : (w.enter o).line.head? = some o := by rw [enter, free]; rfl
  have hturn : Move s ((w.enter o).setJob o (some { job with point := .locking }))
      (((w.enter o).setJob o (some { job with point := .locking })).setJob o (some job)) :=
    .wait (setJob_self ..) head kept way rfl (place.trans (written_of_locking hlocking).symm)
  rw [setJob_setJob] at hturn
  exact .tail (.single hjoin) hturn

/-- A loop that waits to drop the half, at the head of the line, is at no frame. -/
theorem Orderly.not_has (h : Orderly s w) (head : w.line.head? = some .loop)
    (ended : w.releasing = true) (has : w.job o = some job) : w.line.head? ≠ some o := by
  rw [head]
  exact fun he => h.ne_loop ended has (Option.some.inj he).symm

theorem Move.spent (m : Move s w w') (h : Orderly s w) (hw : w.Spent) : w'.Spent := by
  cases m with
  | stock packs => exact hw
  | close free => exact .inl nofun
  | join new packs place =>
    refine hw.imp_right fun hr => ⟨?_, hr.2⟩
    show (w.line ++ _).head? = _
    rw [List.head?_append, hr.1]; rfl
  | wait has head kept way frame place => exact hw
  | refuse has head place =>
    exact hw.imp_right fun hr => absurd head (h.not_has hr.1 hr.2 has)
  | retire new =>
    refine hw.imp_right fun hr => ⟨?_, rfl⟩
    show (w.line ++ _).head? = _
    rw [List.head?_append, hr.1]; rfl
  | drop head ended => exact .inl nofun

theorem AtStream.not_spent (h : w.AtStream o job) (ho : Orderly s w) : ¬ w.Spent := by
  rintro (hh | hr)
  · exact hh h.kept
  · exact ho.not_has hr.1 hr.2 h.has h.head

/-- Whoever is at a frame stays at one. -/
theorem Move.atStream (m : Move s w w') (h : Orderly s w) (hat : w.AtStream o job) :
    ∃ job', w'.AtStream o job' := by
  cases m with
  | stock packs => exact ⟨job, hat.has, hat.way, hat.head, hat.kept⟩
  | close free =>
    have head := hat.head
    rw [free] at head
    cases head
  | join new packs place =>
    have hne := ne_of_mem_of_not_mem (mem_of_head hat.head) new
    exact ⟨job, hat.append ((setJob_of_ne hne _).trans hat.has) rfl rfl⟩
  | @wait o' _ job' has head kept way frame place =>
    cases hat.head.symm.trans head
    exact ⟨job', setJob_self .., way, head, kept⟩
  | @refuse o' job' has head place =>
    cases hat.head.symm.trans head
    cases has.symm.trans hat.has
    exact absurd hat.way (not_underWay_of_locking place)
  | retire new => exact ⟨job, hat.append hat.has rfl rfl⟩
  | drop head ended => exact absurd hat.head (h.not_has head ended hat.has)

/-- What moves leave as it is. -/
structure Still (s : Setup) (w w' : Writers) : Prop where
  orderly : Orderly s w'
  written : w'.written = w.written
  part : w'.part = w.part
  spent : w.Spent → w'.Spent
  atStream : ∀ {o job}, w.AtStream o job → ∃ job', w'.AtStream o job'

theorem Moves.still (h : Moves s w w') (ho : Orderly s w) : Still s w w' := by
  induction h with
  | refl => exact ⟨ho, rfl, rfl, id, fun hat => ⟨_, hat⟩⟩
  | @tail w₁ w₂ _ m ih =>
    refine ⟨m.orderly ih.orderly, m.written.trans ih.written, (m.part ih.orderly).trans ih.part,
      fun hw => m.spent ih.orderly (ih.spent hw), fun hat => ?_⟩
    obtain ⟨job, hat'⟩ := ih.atStream hat
    exact m.atStream ih.orderly hat'

/-! ## Acts -/

/-- What a step does at the stream. -/
inductive Act (s : Setup) (w : Writers) : Writers → Prop where
  | moves {w' : Writers} (moves : Moves s w w') : Act s w w'
  /-- The stream takes octets of the frame at the head of the line. -/
  | put {o : Owner} {job job' : WriteJob} {n : Nat} (holds : w.AtStream o job) (way : job'.UnderWay)
      (frame : job'.frame = job.frame) (place : job'.written = job.written + n) :
      Act s w { w.setJob o (some job') with
        written := w.written ++ (job.frame.drop job.written).take n }
  /-- All of a frame has been written. -/
  | complete {w' : Writers} {o : Owner} {job : WriteJob} (holds : w.AtStream o job)
      (whole : job.written = job.frame.length) (rest : Moves s (w.leave o) w') : Act s w w'
  /-- A frame is given up. -/
  | fail {w' : Writers} {o : Owner} {job : WriteJob} (holds : w.AtStream o job)
      (rest : Moves s (w.leave o) w') (ended : w'.job o = none) (last : w'.Spent ↔ w.IsLast o) :
      Act s w w'

theorem Act.orderly (h : Act s w w') (ho : Orderly s w) : Orderly s w' := by
  cases h with
  | moves moves => exact (Moves.still moves ho).orderly
  | put holds way frame place =>
    exact (ho.setJob holds.has holds.head holds.kept way frame).congr rfl rfl rfl rfl ho.packs
  | complete holds whole rest => exact (Moves.still rest (ho.leave holds.has holds.head)).orderly
  | fail holds rest _ _ => exact (Moves.still rest (ho.leave holds.has holds.head)).orderly

/-- Once nothing can be written any more, nothing is. -/
theorem Act.spent (h : Act s w w') (ho : Orderly s w) (hw : w.Spent) :
    w'.Spent ∧ w'.written = w.written := by
  cases h with
  | moves moves =>
    have hstill := Moves.still moves ho
    exact ⟨hstill.spent hw, hstill.written⟩
  | put holds _ _ _ => exact absurd hw (holds.not_spent ho)
  | complete holds _ _ => exact absurd hw (holds.not_spent ho)
  | fail holds _ _ _ => exact absurd hw (holds.not_spent ho)

/-- The write of a frame has failed after some of its octets, and not all, were written. -/
structure Tears (w w' : Writers) (o : Owner) (job : WriteJob) : Prop where
  has : w.job o = some job
  begun : 0 < job.written
  short : job.written < job.frame.length
  ended : w'.job o = none

theorem Tears.atStream (h : Tears w w' o job) (ho : Orderly s w) : w.AtStream o job := by
  refine (ho.jobs o job h.has).2.2.resolve_left fun hp => ?_
  have hpos := h.begun
  rw [written_of_locking hp] at hpos
  cases hpos

/-- When the head of the line goes, what is next has not begun. -/
theorem still_of_leave (ho : Orderly s w) (hat : w.AtStream o job) (rest : Moves s (w.leave o) w') :
    w'.written = w.written ∧ w'.part = [] := by
  have hstill := Moves.still rest (ho.leave hat.has hat.head)
  exact ⟨hstill.written, hstill.part.trans (part_eq_nil (ho.locking_leave hat.head))⟩

/-- If a write fails half way, nothing is written in that step, and its end is that of all writing
or is not. -/
theorem Act.tears (h : Act s w w') (ho : Orderly s w) (ht : Tears w w' o job) :
    w'.written = w.written ∧ w'.part = [] ∧ (w'.Spent ↔ w.IsLast o) := by
  have hat := ht.atStream ho
  have hover : ∀ {job'}, ¬ w'.AtStream o job' := fun hat' => by
    cases ht.ended.symm.trans hat'.has
  cases h with
  | moves moves =>
    obtain ⟨job', hat'⟩ := (Moves.still moves ho).atStream hat
    exact absurd hat' hover
  | put holds way frame place =>
    cases hat.head.symm.trans holds.head
    exact absurd ⟨setJob_self .., way, holds.head, holds.kept⟩ hover
  | complete holds whole rest =>
    cases hat.head.symm.trans holds.head
    cases hat.has.symm.trans holds.has
    exact absurd whole (Nat.ne_of_lt ht.short)
  | fail holds rest ended last =>
    cases hat.head.symm.trans holds.head
    obtain ⟨hwritten, hpart⟩ := still_of_leave ho holds rest
    exact ⟨hwritten, hpart, last⟩

/-! ## What has been written -/

theorem Orderly.part_prefix (h : Orderly s w) :
    w.part = [] ∨ ∃ frame, s.Packs frame ∧ w.part <+: frame := by
  rw [part]
  cases hb : w.line.head?.bind w.job with
  | none => exact .inl rfl
  | some job =>
    obtain ⟨o, _, hj⟩ := Option.bind_eq_some_iff.1 hb
    exact .inr ⟨job.frame, (h.jobs o job hj).2.1, List.take_prefix _ _⟩

/-- What was there of a frame and what has been written since is these pieces, and what is there of
a frame now. -/
def Brings (w w' : Writers) (pieces : List Octets) : Prop :=
  ∃ d, w'.written = w.written ++ d ∧ w.part ++ d = pieces.flatten ++ w'.part

theorem brings_nil (written : w'.written = w.written) (part : w'.part = w.part) :
    Brings w w' [] :=
  ⟨[], by rw [written, List.append_nil], by rw [part, List.append_nil]; rfl⟩

theorem brings_part (written : w'.written = w.written) (part : w'.part = []) :
    Brings w w' [w.part] :=
  ⟨[], by rw [written, List.append_nil], by rw [part, List.flatten_singleton]⟩

theorem Brings.trans {pieces more : List Octets} (h : Brings w w' pieces)
    (h' : Brings w' w'' more) : Brings w w'' (pieces ++ more) := by
  obtain ⟨d, hwritten, hpart⟩ := h
  obtain ⟨d', hwritten', hpart'⟩ := h'
  refine ⟨d ++ d', by rw [hwritten', hwritten, List.append_assoc], ?_⟩
  rw [← List.append_assoc, hpart, List.append_assoc, hpart', List.flatten_append,
    List.append_assoc]

/-- What has been written is the pieces, and what is there of a frame. -/
theorem Brings.written {pieces more : List Octets} (h : Brings w w' more)
    (hw : w.written = pieces.flatten ++ w.part) :
    w'.written = (pieces ++ more).flatten ++ w'.part := by
  obtain ⟨d, hwritten, hpart⟩ := h
  rw [hwritten, hw, List.append_assoc, hpart, List.flatten_append, List.append_assoc]

/-- What a step leaves behind on the stream: a frame, or the part of one the write of which has
failed. -/
def Piece (s : Setup) (w w' : Writers) (piece : Octets) : Prop :=
  s.Packs piece ∨ ∃ o job, Tears w w' o job ∧ piece = job.frame.take job.written

theorem Act.pieces (h : Act s w w') (ho : Orderly s w) :
    ∃ more, Brings w w' more ∧ ∀ piece ∈ more, Piece s w w' piece := by
  cases h with
  | moves moves =>
    have hstill := Moves.still moves ho
    exact ⟨[], brings_nil hstill.written hstill.part, nofun⟩
  | @put o job job' n holds way frame place =>
    refine ⟨[], ⟨_, rfl, ?_⟩, nofun⟩
    have hat : (w.setJob o (some job')).AtStream o job' :=
      ⟨setJob_self .., way, holds.head, holds.kept⟩
    rw [holds.part_eq, ← List.take_add, ← place, ← frame]
    exact hat.part_eq.symm
  | @complete _ o job holds whole rest =>
    obtain ⟨hwritten, hpart⟩ := still_of_leave ho holds rest
    have hframe : w.part = job.frame := by rw [holds.part_eq, whole, List.take_length]
    refine ⟨[w.part], brings_part hwritten hpart, fun piece hp => .inl ?_⟩
    rw [List.mem_singleton.1 hp, hframe]
    exact (ho.jobs o job holds.has).2.1
  | @fail _ o job holds rest ended last =>
    obtain ⟨hwritten, hpart⟩ := still_of_leave ho holds rest
    have hpacks := (ho.jobs o job holds.has).2.1
    have hplace := holds.part_eq
    -- Untouched, given up half way, or given up when all of it was there.
    rcases Nat.eq_zero_or_pos job.written with hz | hpos
    · rw [hz, List.take_zero] at hplace
      exact ⟨[], brings_nil hwritten (hpart.trans hplace.symm), nofun⟩
    · refine ⟨[w.part], brings_part hwritten hpart, fun piece hp => ?_⟩
      rw [List.mem_singleton.1 hp, hplace]
      rcases Nat.lt_or_ge job.written job.frame.length with hlt | hge
      · exact .inr ⟨o, job, ⟨holds.has, hpos, hlt, ended⟩, rfl⟩
      · rw [List.take_of_length_le hge]
        exact .inl hpacks

/-- Whole frames, and behind them the part of the one that is under way or of the last one. -/
inductive Sound (s : Setup) (w : Writers) : Prop where
  | whole (frames : List Octets) (packs : ∀ frame ∈ frames, s.Packs frame)
      (written : w.written = frames.flatten ++ w.part)
  | ended (frames : List Octets) {frame part : Octets} (spent : w.Spent)
      (packs : ∀ frame ∈ frames, s.Packs frame) (last : s.Packs frame) (piece : part <+: frame)
      (written : w.written = frames.flatten ++ part)

/-- What has been written stays whole if a write that fails half way is the last. -/
theorem Act.sound (h : Act s w w') (ho : Orderly s w) (hw : Sound s w)
    (hlast : ∀ o job, Tears w w' o job → w.IsLast o) : Sound s w' := by
  cases hw with
  | ended frames spent packs last piece written =>
    obtain ⟨hspent, hwritten⟩ := h.spent ho spent
    exact .ended frames hspent packs last piece (hwritten.trans written)
  | whole frames packs hw =>
    by_cases htorn : ∃ o job, Tears w w' o job
    · obtain ⟨o, job, ht⟩ := htorn
      obtain ⟨hwritten, _, hspent⟩ := h.tears ho ht
      refine .ended frames (hspent.2 (hlast o job ht)) packs (ho.jobs o job ht.has).2.1 ?_
        (hwritten.trans hw)
      rw [(ht.atStream ho).part_eq]
      exact List.take_prefix _ _
    · obtain ⟨more, hbrings, hpieces⟩ := h.pieces ho
      refine .whole (frames ++ more) (fun frame hf => ?_) (hbrings.written hw)
      refine (List.mem_append.1 hf).elim (packs frame) fun hf => (hpieces frame hf).resolve_right ?_
      exact fun ⟨o, job, ht, _⟩ => htorn ⟨o, job, ht⟩

end Writers
end FrameEngine
