import FrameEngine.Proofs.Connection.Lifecycle
import FrameEngine.Proofs.Connection.Writers

/-!
# FrameEngine.Proofs.Connection.Sharing

A connection as the line of its writers: `writers` forgets all the rest. Whatever the connection
does is an act of that line (`act_step`). What is quiet are moves. The write loop ends with the
write half, or joins the line once more to drop it (`Exits`). At a frame the write loop and a direct
send do the same, and differ in what they do after it (`Follows`).
-/

namespace FrameEngine

/-- At no frame, and not about to drop the write half. -/
def WriteLoop.isIdle : WriteLoop → Bool
  | .absent | .fresh | .paused _ | .receiving | .finished => true
  | .writing _ | .releasing => false

def WriteLoop.job? : WriteLoop → Option WriteJob
  | .writing job => some job
  | _ => none

def DirectCall.job? : DirectCall → Option WriteJob
  | .sending job => some job
  | _ => none

namespace Connection

variable {s : Setup} {c c' c₁ : Connection} {o : Owner} {job : WriteJob} {ticket : Nat}

/-- The frame that a writer brings. -/
def job? (c : Connection) : Owner → Option WriteJob
  | .loop => c.writer.job?
  | .direct ticket => c.direct[ticket]?.bind DirectCall.job?

def writers (c : Connection) : Writers where
  line := c.writeLock.line
  half := c.writeHalf
  job := c.job?
  releasing := c.writer = .releasing
  waiting := if c.queue.hasConsumer then c.queue.waiting else []
  written := c.written

theorem job?_direct : c.job? (.direct ticket) = some job ↔
    c.direct[ticket]? = some (.sending job) := by
  rw [job?, Option.bind_eq_some_iff]
  constructor
  · rintro ⟨d, hd, hj⟩
    cases d with
    | sending job' => cases hj; exact hd
    | _ => cases hj
  · exact fun hd => ⟨_, hd, rfl⟩

theorem job?_of_notSending (h : NotSending c ticket) : c.job? (.direct ticket) = none :=
  Option.eq_none_iff_forall_ne_some.2 fun job hj => h job (job?_direct.1 hj)

theorem job?_loop : c.job? .loop = some job ↔ c.writer = .writing job := by
  rw [job?]
  cases c.writer with
  | writing job' => exact ⟨fun h => by cases h; rfl, fun h => by cases h; rfl⟩
  | _ => exact ⟨nofun, nofun⟩

theorem job?_loop_of_idle (h : c.writer.isIdle = true) : c.job? .loop = none := by
  rw [job?]
  cases hw : c.writer with
  | writing job => rw [hw] at h; cases h
  | _ => rfl

/-! ## What is quiet -/

namespace Quiet

theorem job? (h : Quiet s c c') : c'.job? = c.job? := by
  funext o
  refine Option.ext fun job => ?_
  cases o with
  | loop => rw [job?_loop, job?_loop, h.writer]
  | direct ticket => rw [job?_direct, job?_direct, h.sending]

/-- What is quiet goes on in the same way wherever the write loop is. -/
theorem with_writer (h : Quiet s c c') (writer : WriteLoop) :
    Quiet s { c with writer } { c' with writer } :=
  ⟨rfl, h.started, h.lock, h.half, h.sending, h.written, h.messages, h.bytes, h.accepts⟩

theorem waiting (h : Quiet s c c') :
    ∀ frame ∈ c'.writers.waiting, frame ∈ c.writers.waiting ∨ s.Packs frame := by
  intro frame hf
  obtain ⟨more, _, hpacks, hqueue⟩ := h.accepts
  simp only [Connection.writers] at hf ⊢
  cases hc' : c'.queue.hasConsumer with
  | false => rw [hc'] at hf; cases hf
  | true =>
    obtain ⟨hc, hw⟩ := hqueue hc'
    rw [hc', if_pos rfl, hw] at hf
    rw [hc, if_pos rfl]
    exact (List.mem_append.1 hf).imp_right (hpacks frame)

theorem half_eq (h : Quiet s c c') (hl : c.writeLock.line ≠ []) : c'.writeHalf = c.writeHalf :=
  h.half.resolve_right fun hg => hl (congrArg Lock.line hg.2)

/-- Nothing but the queue changes while someone is in the line. -/
theorem writers_eq (h : Quiet s c c') (hl : c.writeLock.line ≠ []) :
    c'.writers = { c.writers with waiting := c'.writers.waiting } := by
  simp only [Connection.writers, h.lock, h.half_eq hl, h.job?, h.writer, h.written]

theorem moves (h : Quiet s c c') : Writers.Moves s c.writers c'.writers := by
  have hstock : Writers.Moves s c.writers { c.writers with waiting := c'.writers.waiting } :=
    .single (.stock h.waiting)
  rcases h.half with hhalf | ⟨hgone, hfree⟩
  · have hsame : c'.writers = { c.writers with waiting := c'.writers.waiting } := by
      simp only [Connection.writers, h.lock, hhalf, h.job?, h.writer, h.written]
    rw [hsame]
    exact hstock
  · have hline : c.writers.line = [] := congrArg Lock.line hfree
    have hclosed : c'.writers =
        { c.writers with waiting := c'.writers.waiting, half := .gone } := by
      simp only [Connection.writers, h.lock, hgone, h.job?, h.writer, h.written]
    rw [hclosed]
    exact hstock.tail (.close hline)

theorem atStream (h : Quiet s c c') (hat : c.writers.AtStream o job) :
    c'.writers.AtStream o job := by
  have hl : c.writeLock.line ≠ [] := fun hl => by
    have head : c.writeLock.line.head? = some o := hat.head
    rw [hl] at head
    cases head
  exact hat.append ((congrFun h.job? o).trans hat.has)
    ((congrArg Lock.line h.lock).trans (List.append_nil _).symm) (h.half_eq hl)

theorem leave (h : Quiet s c c') (hl : c.writeLock.line ≠ []) :
    Writers.Moves s (c.writers.leave o) (c'.writers.leave o) := by
  rw [h.writers_eq hl]
  exact .single (.stock h.waiting)

end Quiet

/-! ## Where the write loop is -/

theorem writers_eq {w : Writers} (line : c.writeLock.line = w.line) (half : c.writeHalf = w.half)
    (loop : c.job? .loop = w.job .loop) (direct : ∀ t, c.job? (.direct t) = w.job (.direct t))
    (releasing : decide (c.writer = .releasing) = w.releasing)
    (waiting : c.writers.waiting = w.waiting) (written : c.written = w.written) :
    c.writers = w := by
  have hjob : c.job? = w.job := by
    funext o
    cases o with
    | loop => exact loop
    | direct t => exact direct t
  exact Writers.ext line half hjob releasing waiting written

theorem writers_of_outlet (h : c'.outlet = c.outlet) : c'.writers = c.writers := by
  obtain ⟨hw, _, hl, hh, hd, hq, hhist, _, _⟩ := Outlet.mk.inj h
  refine writers_eq (congrArg Lock.line hl) hh (congrArg WriteLoop.job? hw) (fun t => ?_) ?_ ?_
    (written_congr hhist)
  · rw [job?, hd]; rfl
  · rw [hw]; rfl
  · rw [writers, hq]; rfl

/-- The connection with the write loop out of it. -/
def unwritten (c : Connection) : Connection := { c with writer := .finished }

theorem writers_of_idle {writer : WriteLoop} (hw : writer.isIdle = true) :
    writers { c with writer } = c.unwritten.writers := by
  refine writers_eq rfl rfl (job?_loop_of_idle hw) (fun _ => rfl) (decide_eq_false fun he => ?_)
    rfl rfl
  have hr : writer = .releasing := he
  rw [hr] at hw
  cases hw

theorem setJob_loop_direct (w : Writers) (ticket : Nat) (x : Option WriteJob) :
    (w.setJob .loop x).job (.direct ticket) = w.job (.direct ticket) := by
  have hne : Owner.direct ticket ≠ .loop := nofun
  exact Writers.setJob_of_ne hne x

theorem writers_writing (hr : c.writer ≠ .releasing) (job : WriteJob) :
    writers { c with writer := .writing job } = c.writers.setJob .loop (some job) :=
  writers_eq rfl rfl (Writers.setJob_self ..).symm
    (fun t => (setJob_loop_direct c.writers t _).symm) (decide_eq_false hr).symm rfl rfl

theorem writers_unwritten (hr : c.writer ≠ .releasing) :
    c.unwritten.writers = c.writers.setJob .loop none :=
  writers_eq rfl rfl (Writers.setJob_self ..).symm
    (fun t => (setJob_loop_direct c.writers t _).symm) (decide_eq_false hr).symm rfl rfl

theorem writers_writerRound (c : Connection) : c.writerRound.writers = c.unwritten.writers := by
  obtain ⟨taken, limiter, h⟩ := tryAcquire_eq c
  rw [writerRound, h]
  cases taken with
  | true => exact writers_of_idle (c := { c with limiter }) rfl
  | false => exact writers_of_idle (c := { c with limiter }) rfl

/-! ## The end of the write loop -/

theorem writers_dropWriteHalf (c : Connection) :
    Writers.Moves s { c.unwritten.writers with line := c.writeLock.line.tail, half := .gone }
      (c.dropWriteHalf s).writers := by
  have hclose := quiet_close (s := s)
    { c with writeHalf := .gone, writeLock := c.writeLock.release }
  have hmoves := (hclose.with_writer .finished).moves
  exact hmoves.tail (.stock fun _ hf => absurd hf List.not_mem_nil)

theorem writeHalf_dropWriteHalf (c : Connection) : (c.dropWriteHalf s).writeHalf = .gone := by
  have hclose := quiet_close (s := s)
    { c with writeHalf := .gone, writeLock := c.writeLock.release }
  exact hclose.half.elim id And.left

/-- The loop ends, and finds the line empty or joins it. -/
inductive Exits (s : Setup) (c : Connection) : Connection → Prop where
  | drops (free : c.writeLock.line = []) :
      Exits s c (dropWriteHalf s { c with writeLock := c.writeLock.request .loop })
  | joins (busy : c.writeLock.line ≠ []) :
      Exits s c { c with writeLock := c.writeLock.request .loop, writer := .releasing }

theorem exitWriter_exits (hl : .loop ∉ c.writeLock.line) : Exits s c (c.exitWriter s) := by
  unfold exitWriter
  dsimp only
  cases hline : c.writeLock.line with
  | nil =>
    have hheld : (c.writeLock.request .loop).isHeldBy .loop = true := by
      rw [Lock.request, hline]; rfl
    rw [if_pos hheld]
    exact .drops hline
  | cons first rest =>
    rw [if_neg]
    · exact .joins (by rw [hline]; exact List.cons_ne_nil _ _)
    · intro hheld
      have head := of_decide_eq_true hheld
      rw [Lock.request, hline] at head
      rw [hline, ← Option.some.inj head] at hl
      exact hl List.mem_cons_self

theorem Exits.moves (h : Exits s c c') (hl : .loop ∉ c.writeLock.line) :
    Writers.Moves s c.unwritten.writers c'.writers := by
  have hretire : Writers.Moves s c.unwritten.writers
      { c.unwritten.writers.enter .loop with releasing := true } := .single (.retire hl)
  cases h with
  | drops free =>
    have head : (c.unwritten.writers.enter .loop).line.head? = some .loop := by
      rw [Writers.enter, show c.unwritten.writers.line = [] from free]; rfl
    exact (hretire.tail (.drop head rfl)).trans
      (writers_dropWriteHalf { c with writeLock := c.writeLock.request .loop })
  | joins busy =>
    refine hretire.trans ?_
    rw [← writers_eq (c := { c with
      writeLock := c.writeLock.request .loop, writer := .releasing })
      (w := { c.unwritten.writers.enter .loop with releasing := true })
      rfl rfl rfl (fun _ => rfl) (decide_eq_true rfl) rfl rfl]

theorem Exits.ended (h : Exits s c c') : c'.job? .loop = none := by
  cases h with
  | drops free => rfl
  | joins busy => rfl

/-- The write half goes with the loop, unless others wait for it. -/
theorem Exits.spent (h : Exits s c c') (hl : .loop ∉ c.writeLock.line)
    (kept : c.writeLock.line ≠ [] → c.writeHalf = .kept) :
    c'.writers.Spent ↔ c.writeLock.line = [] := by
  cases h with
  | drops free =>
    refine ⟨fun _ => free, fun _ => .inl ?_⟩
    rw [show (dropWriteHalf s _).writers.half = .gone from writeHalf_dropWriteHalf _]
    nofun
  | joins busy =>
    refine ⟨fun hspent => absurd hspent ?_, fun free => absurd free busy⟩
    rintro (hgone | ⟨head, _⟩)
    · exact hgone (kept busy)
    · obtain ⟨first, rest, hline⟩ := List.exists_cons_of_ne_nil busy
      have hsome : (c.writeLock.line ++ [Owner.loop]).head? = some .loop := head
      rw [hline] at hsome hl
      exact hl (Option.some.inj hsome ▸ List.mem_cons_self)

/-! ## A frame at the stream -/

/-- What is done to a connection after a step of a writer's frame, whichever writer it is. -/
structure Follows (s : Setup) (o : Owner) (job : WriteJob)
    (after : Connection → WriteProgress → Connection) : Prop where
  goes : ∀ {c : Connection} {job' : WriteJob}, c.job? o = some job →
    (after c (.goes job')).writers = c.writers.setJob o (some job')
  ends : ∀ {c : Connection}, c.job? o = some job →
    (after c (.ends (.ok ()))).writers = c.writers.leave o
  fails : ∀ {c : Connection} (e : EngineError), Writers.Orderly s c.writers →
    c.writers.job o = some job → c.writers.line.head? = some o →
      Writers.Moves s (c.writers.leave o) (after c (.ends (.error e))).writers ∧
      (after c (.ends (.error e))).job? o = none ∧
      (c.writeHalf = .kept → ((after c (.ends (.error e))).writers.Spent ↔ c.writers.IsLast o))

theorem line_ne_nil (hat : c.writers.AtStream o job) : c.writeLock.line ≠ [] :=
  List.ne_nil_of_mem (Writers.mem_of_head hat.head)

theorem act_of_turn {after : Connection → WriteProgress → Connection} {p : WriteProgress}
    (hf : Follows s o job after) (ho : Writers.Orderly s c.writers)
    (hat : c.writers.AtStream o job) (ht : WriteTurn s c job c₁ p) :
    Writers.Act s c.writers (after c₁ p).writers := by
  cases ht with
  | waits rest way frame place =>
    have hat₁ := rest.atStream hat
    rw [hf.goes hat₁.has]
    exact .moves (rest.moves.tail (.wait hat₁.has hat₁.head hat₁.kept way frame place))
  | @writes n job' way frame place =>
    have hnote : (c.note (.wrote ((job.frame.drop job.written).take n))).writers =
        { c.writers with written := c.writers.written ++ (job.frame.drop job.written).take n } :=
      writers_eq rfl rfl rfl (fun _ => rfl) rfl rfl (written_note _ _)
    rw [hf.goes (c := c.note _) hat.has, hnote]
    exact .put hat way frame place
  | @fails _ e rest =>
    have hat₁ := rest.atStream hat
    obtain ⟨hmoves, hover, hlast⟩ :=
      hf.fails e (rest.moves.still ho).orderly hat₁.has hat₁.head
    refine .fail hat ((rest.leave (line_ne_nil hat)).trans hmoves) hover ?_
    rw [hlast hat₁.kept, rest.writers_eq (line_ne_nil hat)]
    exact .rfl
  | completes whole =>
    refine .complete hat whole ?_
    have hsame : (c.completeWrite job).writers = c.writers := rfl
    rw [hf.ends (c := c.completeWrite job) hat.has, hsame]

/-- The write loop gives up: it tells why, and ends. -/
theorem exits_afterWrite (hl : .loop ∉ c.writeLock.line.tail) (e : EngineError) :
    ∃ c₁, Quiet s { c with writeLock := c.writeLock.release } c₁ ∧
      .loop ∉ c₁.writeLock.line ∧ Exits s c₁ (c.afterWrite s (.ends (.error e))) := by
  have hreport := quiet_reportExit (s := s) { c with writeLock := c.writeLock.release } e
  have hline : (reportExit s { c with writeLock := c.writeLock.release } e).writeLock.line =
      c.writeLock.line.tail := congrArg Lock.line hreport.lock
  rw [← hline] at hl
  exact ⟨_, hreport, hl, exitWriter_exits hl⟩

theorem moves_afterWrite (hr : c.writer ≠ .releasing) (hl : .loop ∉ c.writeLock.line.tail)
    (e : EngineError) :
    Writers.Moves s (c.writers.leave .loop) (c.afterWrite s (.ends (.error e))).writers := by
  obtain ⟨c₁, hquiet, hl₁, hexits⟩ := exits_afterWrite (s := s) hl e
  have hbefore : writers { c with writeLock := c.writeLock.release, writer := .finished } =
      c.writers.leave .loop :=
    writers_unwritten (c := { c with writeLock := c.writeLock.release }) hr
  rw [← hbefore]
  exact ((hquiet.with_writer .finished).moves).trans (hexits.moves hl₁)

theorem follows_loop : Follows s .loop job (afterWrite s) where
  goes hj := writers_writing (by rw [job?_loop.1 hj]; nofun) _
  ends {c} hj := by
    have hr : c.writer ≠ .releasing := by rw [job?_loop.1 hj]; nofun
    have hround := writers_writerRound { c with writeLock := c.writeLock.release }
    exact hround.trans (writers_unwritten hr)
  fails {c} e ho hj head := by
    have hr : c.writer ≠ .releasing := by rw [job?_loop.1 hj]; nofun
    have hl : .loop ∉ c.writeLock.line.tail := Writers.head_tail_ne ho.nodup head
    obtain ⟨c₁, hquiet, hl₁, hexits⟩ := exits_afterWrite (s := s) hl e
    have hline : c₁.writeLock.line = c.writers.line.tail := congrArg Lock.line hquiet.lock
    refine ⟨moves_afterWrite hr hl e, hexits.ended, fun kept => ?_⟩
    have hspent := hexits.spent hl₁ fun hne =>
      (hquiet.half_eq fun hnil => hne (hline.trans hnil)).trans kept
    rw [hline] at hspent
    exact hspent.trans (Writers.isLast_loop ho.nodup head).symm

theorem writers_setDirect (hlt : ticket < c.direct.length) (d : DirectCall) :
    (c.setDirect ticket d).writers = c.writers.setJob (.direct ticket) d.job? := by
  refine writers_eq rfl rfl ?_ (fun t => ?_) rfl rfl rfl
  · have hne : Owner.loop ≠ .direct ticket := nofun
    exact (Writers.setJob_of_ne (w := c.writers) hne _).symm
  · by_cases ht : t = ticket
    · subst ht
      rw [Writers.setJob_self, job?, setDirect, List.getElem?_set_self hlt]
      rfl
    · have hne : Owner.direct t ≠ .direct ticket := fun he => ht (Owner.direct.inj he)
      rw [Writers.setJob_of_ne hne, job?, setDirect, List.getElem?_set_ne (Ne.symm ht)]
      rfl

theorem lt_of_job? (hj : c.job? (.direct ticket) = some job) : ticket < c.direct.length :=
  (List.getElem?_eq_some_iff.1 (job?_direct.1 hj)).1

theorem follows_direct (ticket : Nat) :
    Follows s (.direct ticket) job fun c p => c.afterSend ticket p where
  goes hj := writers_setDirect (lt_of_job? hj) _
  ends {c} hj :=
    writers_setDirect (c := { c with writeLock := c.writeLock.release }) (lt_of_job? hj) _
  fails {c} e ho hj head := by
    have hleave : (c.afterSend ticket (.ends (.error e))).writers =
        c.writers.leave (.direct ticket) :=
      writers_setDirect (c := { c with writeLock := c.writeLock.release }) (lt_of_job? hj) _
    have hover : (c.afterSend ticket (.ends (.error e))).writers.job (.direct ticket) = none := by
      rw [hleave]; exact Writers.setJob_self ..
    refine ⟨hleave ▸ .refl, hover, fun kept => ?_⟩
    rw [hleave]
    exact Writers.isLast_direct kept

/-- A writer whose turn it is begins, or finds the write half gone. -/
theorem moves_takeTurn {after : Connection → WriteProgress → Connection}
    (hf : Follows s o job after) (ho : Writers.Orderly s c.writers) (hj : c.job? o = some job)
    (place : job.point = .locking) (head : c.writers.line.head? = some o) :
    Writers.Moves s c.writers (after c (c.takeTurn s job)).writers := by
  unfold takeTurn
  split
  · rename_i kept
    obtain ⟨hway, hplace, hframe⟩ :=
      underWay_nextWrite (s := s) c { job with since := c.wall } (Nat.zero_le _)
    rw [hf.goes hj]
    exact .single (.wait hj head kept hway hframe
      (hplace.trans (Writers.written_of_locking place).symm))
  · exact .head (.refuse hj head place) (hf.fails _ ho hj head).1

theorem act_stepWrite {after : Connection → WriteProgress → Connection} {w : Wake}
    {p : WriteProgress} (hf : Follows s o job after) (ho : Writers.Orderly s c.writers)
    (hj : c.job? o = some job) (h : c.stepWrite s o job w = some (c₁, p)) :
    Writers.Act s c.writers (after c₁ p).writers := by
  rcases (ho.jobs o job hj).2.2 with place | hat
  · obtain ⟨-, held, rfl, rfl⟩ := stepWrite_of_locking place h
    exact .moves (moves_takeTurn hf ho hj place (of_decide_eq_true held))
  · exact act_of_turn hf ho hat (stepWrite_cases hat.way h)

/-! ## Joining the line -/

/-- What comes of it when a writer asks for the write half. -/
inductive Asked (c : Connection) (frame : Octets) : WriteProgress → Prop where
  | joins {job : WriteJob} (same : job.frame = frame) (place : job.point = .locking) :
      Asked c frame (.goes job)
  | begins {job : WriteJob} (free : c.writeLock.line = []) (kept : c.writeHalf = .kept)
      (way : job.UnderWay) (same : job.frame = frame) (place : job.written = 0) :
      Asked c frame (.goes job)
  | refused {e : EngineError} (free : c.writeLock.line = []) (gone : c.writeHalf ≠ .kept) :
      Asked c frame (.ends (.error e))

theorem asked_requestWrite {frame : Octets} {p : WriteProgress} (new : o ∉ c.writeLock.line)
    (h : requestWrite s o c frame = (c₁, p)) :
    c₁.writers = c.writers.enter o ∧ c₁.writer = c.writer ∧
      c₁.direct = c.direct ∧ Asked c frame p := by
  unfold requestWrite at h
  dsimp only at h
  split at h
  · rename_i held
    obtain ⟨rfl, rfl⟩ := Prod.mk.inj h
    have free : c.writeLock.line = [] := by
      cases hline : c.writeLock.line with
      | nil => rfl
      | cons first rest =>
        have head := of_decide_eq_true held
        rw [Lock.request, hline] at head
        rw [hline, ← Option.some.inj head] at new
        exact absurd List.mem_cons_self new
    refine ⟨rfl, rfl, rfl, ?_⟩
    unfold takeTurn
    split
    · rename_i kept
      obtain ⟨hway, hplace, hframe⟩ :=
        underWay_nextWrite (s := s) { c with writeLock := c.writeLock.request o }
          { writeJob s { c with writeLock := c.writeLock.request o } frame with since := c.wall }
          (Nat.zero_le _)
      exact .begins free kept hway hframe hplace
    · exact .refused free ‹_›
  · obtain ⟨rfl, rfl⟩ := Prod.mk.inj h
    exact ⟨rfl, rfl, rfl, .joins rfl rfl⟩

theorem Asked.moves {frame : Octets} (h : Asked c frame (.goes job)) (new : o ∉ c.writeLock.line)
    (packs : s.Packs frame) :
    Writers.Moves s c.writers ((c.writers.enter o).setJob o (some job)) := by
  cases h with
  | joins same place => exact .single (.join new (same ▸ packs) place)
  | begins free kept way same place =>
    exact Writers.moves_begin new free kept (same ▸ packs) way place

/-- A direct call that has got its number, and is at nothing yet. -/
def enrolled (c : Connection) : Connection := { c with direct := c.direct ++ [.locking] }

theorem writers_enrolled (c : Connection) : c.enrolled.writers = c.writers := by
  refine writers_eq rfl rfl rfl (fun t => ?_) rfl rfl rfl
  show (c.direct ++ [DirectCall.locking])[t]?.bind DirectCall.job? =
    c.direct[t]?.bind DirectCall.job?
  rw [List.getElem?_append]
  split
  · rfl
  · rename_i ht
    rw [List.getElem?_eq_none (Nat.le_of_not_lt ht)]
    cases hd : t - c.direct.length <;> simp [DirectCall.job?]

theorem job?_last (c : Connection) : c.job? (.direct c.direct.length) = none := by
  rw [job?, List.getElem?_eq_none (Nat.le_refl _)]
  rfl

theorem new_last (ho : Writers.Orderly s c.writers) :
    Owner.direct c.direct.length ∉ c.enrolled.writeLock.line := fun hm => by
  rcases ho.present _ hm with ⟨job, hj⟩ | ⟨hl, _⟩
  · cases (job?_last c).symm.trans hj
  · cases hl

/-- A direct send that begins joins the line, unless it finds the write half gone. -/
theorem writers_beginSend (ho : Writers.Orderly s c.writers) (frame : Octets) :
    (∃ job, Asked c.enrolled frame (.goes job) ∧ (c.beginSend s frame).writers =
      (c.writers.enter (.direct c.direct.length)).setJob (.direct c.direct.length) (some job)) ∨
    c.writeHalf ≠ .kept ∧ (c.beginSend s frame).writers = c.writers := by
  have hsame := writers_enrolled c
  have hbegin : c.beginSend s frame =
      afterSend (c.enrolled.requestWrite s (.direct c.direct.length) frame).1 c.direct.length
        (c.enrolled.requestWrite s (.direct c.direct.length) frame).2 := rfl
  rw [hbegin]
  generalize hr : requestWrite s _ c.enrolled frame = r
  obtain ⟨c₁, p⟩ := r
  obtain ⟨hwriters, _, hdirect, hasked⟩ := asked_requestWrite (new_last ho) hr
  have hlt : c.direct.length < c₁.direct.length := by
    rw [hdirect, enrolled, List.length_append]
    exact Nat.lt_succ_self _
  rw [hsame] at hwriters
  cases p with
  | goes job =>
    have hgoes : (c₁.afterSend c.direct.length (.goes job)).writers = _ :=
      writers_setDirect hlt (.sending job)
    rw [hwriters] at hgoes
    exact .inl ⟨job, hasked, hgoes⟩
  | ends result =>
    cases hasked with
    | @refused e free gone =>
      have hends : (c₁.afterSend c.direct.length (.ends (.error e))).writers =
          c₁.writers.leave (.direct c.direct.length) :=
        writers_setDirect (c := { c₁ with writeLock := c₁.writeLock.release }) hlt _
      rw [hwriters, Writers.leave_of_joined free (job?_last c)] at hends
      exact .inr ⟨gone, hends⟩

theorem moves_beginSend (ho : Writers.Orderly s c.writers) {frame : Octets}
    (packs : s.Packs frame) : Writers.Moves s c.writers (c.beginSend s frame).writers := by
  rcases writers_beginSend ho frame with ⟨job, hasked, hw⟩ | ⟨_, hw⟩
  · have hmoves := hasked.moves (s := s) (new_last ho) packs
    rw [writers_enrolled, ← hw] at hmoves
    exact hmoves
  · rw [hw]

/-- The next frame of the queue begins to be written, or waits behind others. -/
theorem moves_take {frame : Octets} {queue : SendQueue} {p : WriteProgress}
    (ho : Writers.Orderly s c.writers) (idle : c.writer.isIdle = true)
    (new : .loop ∉ c.writers.line) (hq : c.queue.pop = (.frame frame, queue))
    (hr : requestWrite s .loop { c with queue } frame = (c₁, p)) :
    Writers.Moves s c.writers (c₁.afterWrite s p).writers := by
  obtain ⟨hc, hw⟩ := pop_eq_frame hq
  have hwaiting : c.writers.waiting = frame :: queue.waiting := by
    rw [← hw]; exact if_pos hc
  have packs : s.Packs frame := ho.packs frame (hwaiting ▸ List.mem_cons_self)
  have hstock : Writers.Moves s c.writers (writers { c with queue }) := by
    refine .single (.stock fun f hf => .inl ?_)
    rw [hwaiting]
    refine List.mem_cons_of_mem _ ?_
    dsimp only at hf
    split at hf
    · exact hf
    · cases hf
  have hfresh : c.job? .loop = none := job?_loop_of_idle idle
  obtain ⟨hwriters, hwriter, _, hasked⟩ := asked_requestWrite (c := { c with queue }) new hr
  have hreleasing : c₁.writer ≠ .releasing := fun he => by
    rw [← show c₁.writer = c.writer from hwriter, he] at idle
    cases idle
  refine hstock.trans ?_
  cases p with
  | goes job =>
    have hgoes : (c₁.afterWrite s (.goes job)).writers = _ := writers_writing hreleasing job
    rw [hgoes, hwriters]
    exact hasked.moves new packs
  | ends result =>
    cases hasked with
    | @refused e free gone =>
      have hline : c₁.writeLock.line = [.loop] :=
        (congrArg Writers.line hwriters).trans (congrArg (· ++ [Owner.loop]) free)
      have hleave : c₁.writers.leave .loop = writers { c with queue } := by
        rw [hwriters]; exact Writers.leave_of_joined free hfresh
      rw [← hleave]
      exact moves_afterWrite hreleasing (by rw [hline]; exact List.not_mem_nil) e

theorem writers_idle (idle : c.writer.isIdle = true) : c.unwritten.writers = c.writers :=
  (writers_of_idle (c := c) idle).symm

theorem moves_exitWriter (idle : c.writer.isIdle = true) (hl : .loop ∉ c.writers.line) :
    Writers.Moves s c.writers (c.exitWriter s).writers :=
  writers_idle idle ▸ (exitWriter_exits hl).moves hl

theorem act_stepWriter {w : Wake} (ho : Writers.Orderly s c.writers)
    (h : c.stepWriter s w = some c') : Writers.Act s c.writers c'.writers := by
  have hround : c.writer.isIdle = true → c.writerRound.writers = c.writers := fun idle =>
    (writers_writerRound c).trans (writers_idle idle)
  have hline : c.writer.isIdle = true → .loop ∉ c.writers.line := fun idle hm => by
    rcases ho.present _ hm with ⟨job, hj⟩ | ⟨_, hr⟩
    · cases (job?_loop_of_idle idle).symm.trans hj
    · rw [of_decide_eq_true hr] at idle
      cases idle
  cases writerStep_of h with
  | begins fresh kept =>
    have idle : c.writer.isIdle = true := fresh ▸ rfl
    have htaken := (writers_writerRound { c with consumer := .taken }).trans (writers_idle idle)
    exact .moves (htaken ▸ .refl)
  | lacks fresh apart =>
    have idle : c.writer.isIdle = true := fresh ▸ rfl
    have hclose := (quiet_close (s := s) c).with_writer .finished
    exact .moves (writers_idle idle ▸ hclose.moves)
  | stops waits closed =>
    have idle : c.writer.isIdle = true := by
      rcases waits with receiving | ⟨resume, paused⟩
      · exact receiving ▸ rfl
      · exact paused ▸ rfl
    exact .moves (moves_exitWriter idle (hline idle))
  | resumes paused due => exact .moves (hround (paused ▸ rfl) ▸ .refl)
  | takes receiving live popped =>
    have idle : c.writer.isIdle = true := receiving ▸ rfl
    exact .moves (moves_take ho idle (hline idle) popped rfl)
  | ends receiving live none =>
    have idle : c.writer.isIdle = true := receiving ▸ rfl
    exact .moves (moves_exitWriter idle (hline idle))
  | goes writing write => exact act_stepWrite follows_loop ho (job?_loop.2 writing) write
  | releases releasing held =>
    have hjob : c.job? = c.unwritten.job? := by
      funext o
      cases o with
      | loop => rw [job?, releasing]; rfl
      | direct t => rfl
    have hdrop : Writers.Move s c.writers
        { c.writers with line := c.writers.line.tail, releasing := false, half := .gone } :=
      .drop (of_decide_eq_true held) (decide_eq_true releasing)
    have hsame : { c.writers with line := c.writers.line.tail, releasing := false, half := .gone } =
        { c.unwritten.writers with line := c.writeLock.line.tail, half := .gone } :=
      Writers.ext rfl rfl hjob rfl rfl rfl
    rw [hsame] at hdrop
    exact .moves (.head hdrop (writers_dropWriteHalf c))

/-! ## Steps -/

theorem act_step {l : Label} (ho : Writers.Orderly s c.writers)
    (fresh : c.started = false → c.writer = .absent) (hl : l.Packed s)
    (h : c.step s l = some c') : Writers.Act s c.writers c'.writers := by
  cases step_cases h hl with
  | quiet rest => exact .moves rest.moves
  | @begins _ c₁ _ hfresh told looped =>
    have habsent := fresh hfresh
    have idle : c₁.writer.isIdle = true := by rw [told.writer, habsent]; rfl
    have hloop : writers { c₁ with writer := .fresh } = c₁.writers :=
      (writers_of_idle rfl).trans (writers_idle idle)
    have hsame : c'.writers = c₁.writers := (writers_of_outlet looped).trans hloop
    have hmoves : Writers.Moves s c.writers c₁.writers := told.moves
    exact .moves (hsame ▸ hmoves)
  | loops went => exact act_stepWriter ho went
  | sends frame => exact .moves (moves_beginSend ho hl)
  | drives sending went => exact act_stepWrite (follows_direct _) ho (job?_direct.2 sending) went

end Connection
end FrameEngine
