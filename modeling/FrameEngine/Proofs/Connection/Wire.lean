import FrameEngine.Proofs.Connection.Sharing
import FrameEngine.Proofs.Framing.Acceptance

/-!
# FrameEngine.Proofs.Connection.Wire

What the peer of a connection gets. In every run the writers stay in order (`Tended`), so what a run
adds to the stream is frames, one behind the other, but for those the writes of which fail half way
(`Torn`). The write loop gives the write half up when that happens, and a direct send does not: the
torn frame is the last thing on the stream exactly if the write half goes with it, and else some run
writes on behind it. `Wire` says this of all the runs of a connection.
-/

namespace FrameEngine

/-- The task of a writer. -/
def Owner.task : Owner → Task
  | .loop => .writer
  | .direct ticket => .direct ticket

namespace Connection

variable {s : Setup} {c c' c₁ a b : Connection} {o : Owner} {job job' : WriteJob}
  {ls ls' : List Label}

/-! ## The invariant -/

theorem writer_afterSend (c : Connection) (ticket : Nat) (p : WriteProgress) :
    (c.afterSend ticket p).writer = c.writer := by
  cases p <;> rfl

theorem writer_beginSend (c : Connection) (frame : Octets) :
    (c.beginSend s frame).writer = c.writer := by
  unfold beginSend requestWrite
  dsimp only
  split <;> exact writer_afterSend _ _ _

theorem writer_stepWrite {w : Wake} {p : WriteProgress} (ho : Writers.Orderly s c.writers)
    (hj : c.job? o = some job) (h : c.stepWrite s o job w = some (c₁, p)) :
    c₁.writer = c.writer := by
  rcases (ho.jobs o job hj).2.2 with place | hat
  · obtain ⟨-, -, rfl, -⟩ := stepWrite_of_locking place h
    rfl
  · cases stepWrite_cases hat.way h with
    | waits rest way frame place => exact rest.writer
    | writes way frame place => rfl
    | fails rest => exact rest.writer
    | completes whole => rfl

/-- Those who write are in order, and the write loop is there only in a connection that has been
started. -/
structure Tended (s : Setup) (c : Connection) : Prop where
  kept : Kept c
  fresh : c.started = false → c.writer = .absent
  orderly : Writers.Orderly s c.writers

theorem tended_new (s : Setup) : Tended s (new s) := by
  refine ⟨kept_new s, fun _ => rfl, List.nodup_nil, nofun, fun o job hj => ?_, nofun, nofun⟩
  cases o with
  | loop => cases hj
  | direct t => cases hj

theorem tended_step {l : Label} (h : Tended s c) (hl : l.Packed s) (hstep : c.step s l = some c') :
    Tended s c' := by
  have hadvances := advances_step false h.kept nofun nofun hstep
  refine ⟨hadvances.kept, fun hfresh' => ?_,
    (act_step h.orderly h.fresh hl hstep).orderly h.orderly⟩
  have hfresh : c.started = false := by
    refine Bool.eq_false_iff.2 fun hs => ?_
    obtain ⟨_, hstretch⟩ := hadvances.stretch
    cases hfresh'.symm.trans (hstretch.course.started hs)
  have habsent := h.fresh hfresh
  cases step_cases hstep hl with
  | quiet rest => exact rest.writer.trans habsent
  | begins _ told looped =>
    cases hfresh'.symm.trans ((congrArg Outlet.started looped).trans told.started)
  | loops went => exact absurd habsent (writer_ne_absent went)
  | sends frame => exact (writer_beginSend c frame).trans habsent
  | drives sending went =>
    rw [writer_afterSend, writer_stepWrite h.orderly (job?_direct.2 sending) went]
    exact habsent

theorem tended_steps (run : Steps s c ls c') (hls : ∀ l ∈ ls, l.Packed s) (h : Tended s c) :
    Tended s c' := by
  induction run with
  | nil => exact h
  | cons first _ ih =>
    obtain ⟨hl, hls⟩ := List.forall_mem_cons.1 hls
    exact ih hls (tended_step h hl first)

/-- Once nothing can be written any more, nothing is, whatever comes. -/
theorem spent_steps (run : Steps s c ls c') (hls : ∀ l ∈ ls, l.Packed s) (h : Tended s c)
    (hspent : c.writers.Spent) : c'.written = c.written := by
  induction run with
  | nil => rfl
  | cons first _ ih =>
    obtain ⟨hl, hls⟩ := List.forall_mem_cons.1 hls
    obtain ⟨hspent', hwritten⟩ := (act_step h.orderly h.fresh hl first).spent h.orderly hspent
    exact (ih hls (tended_step h hl first) hspent').trans hwritten

/-! ## Torn writes -/

/-- In a run a write fails half way: that of a frame of `o`, in the step from `a` to `b`. -/
inductive Torn (s : Setup) (c : Connection) :
    List Label → Connection → Connection → Owner → WriteJob → Prop where
  | intro {before after : List Label} {l : Label} {a b : Connection} {o : Owner} {job : WriteJob}
      (run : Steps s c before a) (step : a.step s l = some b)
      (tears : Writers.Tears a.writers b.writers o job) : Torn s c (before ++ l :: after) a b o job

theorem Torn.first {l : Label} (first : c.step s l = some c')
    (tears : Writers.Tears c.writers c'.writers o job) : Torn s c (l :: ls) c c' o job := by
  rw [← List.nil_append (l :: ls)]
  exact .intro (.nil c) first tears

theorem Torn.later {l : Label} (first : c.step s l = some c') (h : Torn s c' ls a b o job) :
    Torn s c (l :: ls) a b o job := by
  cases h with
  | intro run step tears =>
    rw [← List.cons_append]
    exact .intro (.cons first run) step tears

/-- What is written in a run is frames, and the parts of those that are torn. -/
theorem pieces_of_steps (run : Steps s c ls c') (hls : ∀ l ∈ ls, l.Packed s) (h : Tended s c) :
    ∃ more, Writers.Brings c.writers c'.writers more ∧ ∀ piece ∈ more,
      s.Packs piece ∨
        ∃ a b o job, Torn s c ls a b o job ∧ piece = job.frame.take job.written := by
  induction run with
  | nil c => exact ⟨[], Writers.brings_nil rfl rfl, nofun⟩
  | cons first _ ih =>
    obtain ⟨hl, hls⟩ := List.forall_mem_cons.1 hls
    obtain ⟨pieces, hbrings, hpieces⟩ := (act_step h.orderly h.fresh hl first).pieces h.orderly
    obtain ⟨more, hrest, hmore⟩ := ih hls (tended_step h hl first)
    refine ⟨pieces ++ more, hbrings.trans hrest, fun piece hp => ?_⟩
    rcases List.mem_append.1 hp with hp | hp
    · exact (hpieces piece hp).imp_right fun ⟨o, job, ht, he⟩ =>
        ⟨_, _, o, job, .first first ht, he⟩
    · exact (hmore piece hp).imp_right fun ⟨a, b, o, job, ht, he⟩ =>
        ⟨a, b, o, job, .later first ht, he⟩

/-- It is frames alone as long as a torn write is the last one. -/
theorem sound_of_steps (run : Steps s c ls c') (hls : ∀ l ∈ ls, l.Packed s) (h : Tended s c)
    (hlast : ∀ a b o job, Torn s c ls a b o job → a.writers.IsLast o)
    (hsound : Writers.Sound s c.writers) : Writers.Sound s c'.writers := by
  induction run with
  | nil c => exact hsound
  | cons first _ ih =>
    obtain ⟨hl, hls⟩ := List.forall_mem_cons.1 hls
    refine ih hls (tended_step h hl first) (fun a b o job ht => hlast a b o job (.later first ht)) ?_
    exact (act_step h.orderly h.fresh hl first).sound h.orderly hsound fun o job ht =>
      hlast _ _ o job (.first first ht)

/-! ## Writing on -/

/-- What follows a step of a writer's frame. -/
def afterTurn (s : Setup) (o : Owner) (c : Connection) (p : WriteProgress) : Connection :=
  match o with
  | .loop => c.afterWrite s p
  | .direct ticket => c.afterSend ticket p

theorem follows (o : Owner) : Follows s o job (afterTurn s o) := by
  cases o with
  | loop => exact follows_loop
  | direct ticket => exact follows_direct ticket

theorem step_wake {w : Wake} {p : WriteProgress} (hj : c.job? o = some job)
    (h : c.stepWrite s o job w = some (c₁, p)) :
    c.step s (.wake o.task w) = some (afterTurn s o c₁ p) := by
  cases o with
  | loop => simp only [step, Owner.task, stepTask, stepWriter, job?_loop.1 hj, h, afterTurn]
  | direct t => simp only [step, Owner.task, stepTask, stepDirect, job?_direct.1 hj, h, afterTurn]

/-- Some run writes something more. -/
def WritesOn (s : Setup) (c : Connection) : Prop :=
  ∃ ls c', Steps s c ls c' ∧ (∀ l ∈ ls, l.Packed s) ∧ c'.written ≠ c.written

theorem WritesOn.of_step {l : Label} (hl : l.Packed s) (first : c.step s l = some c')
    (hw : c'.written = c.written) (h : WritesOn s c') : WritesOn s c := by
  obtain ⟨ls, c'', run, hls, hne⟩ := h
  exact ⟨l :: ls, c'', .cons first run, List.forall_mem_cons.2 ⟨hl, hls⟩, hw ▸ hne⟩

/-- The stream takes one octet of a frame that waits for it. -/
theorem writesOn_of_writing {frame : Octets} {n : Nat} {deadline since : Span} {backoff : Backoff}
    (hj : c.job? o = some ⟨frame, .writing n deadline, backoff, since⟩) (hlt : n < frame.length) :
    WritesOn s c := by
  have hone : 1 ≤ frame.length - n := by omega
  have hwrite : ∃ job', c.stepWrite s o ⟨frame, .writing n deadline, backoff, since⟩
      (.write (.ok 1)) = some (c.note (.wrote ((frame.drop n).take 1)), .goes job') := by
    simp only [stepWrite, if_pos hone]
    exact ⟨_, rfl⟩
  obtain ⟨job', hwrite⟩ := hwrite
  refine ⟨[.wake o.task (.write (.ok 1))], _, .cons (step_wake hj hwrite) (.nil _), ?_,
    fun he => ?_⟩
  · intro l hl
    rw [List.mem_singleton.1 hl]
    trivial
  · have hgoes : (afterTurn s o (c.note (.wrote ((frame.drop n).take 1))) (.goes job')).writers =
        (c.note (.wrote ((frame.drop n).take 1))).writers.setJob o (some job') :=
      (follows o).goes (c := c.note _) hj
    have hmore := (congrArg Writers.written hgoes).symm.trans he
    have hlen := congrArg List.length ((written_note c _).symm.trans hmore)
    have hput : ((frame.drop n).take 1).length = 1 := by
      rw [List.length_take, List.length_drop]
      exact Nat.min_eq_left hone
    rw [List.length_append, show Moment.written ⟨c.now, .wrote ((frame.drop n).take 1)⟩ =
      (frame.drop n).take 1 from rfl, hput] at hlen
    omega

/-- The same, a step earlier. -/
theorem writesOn_of_goes {w : Wake} {n : Nat} {deadline : Span} (hj : c.job? o = some job)
    (h : c.stepWrite s o job w = some (c, .goes job')) (hp : job'.point = .writing n deadline)
    (hlt : n < job'.frame.length) : WritesOn s c := by
  have hgoes : (afterTurn s o c (.goes job')).writers = c.writers.setJob o (some job') :=
    (follows o).goes hj
  have hj' : (afterTurn s o c (.goes job')).job? o = some job' :=
    (congrArg (Writers.job · o) hgoes).trans (Writers.setJob_self ..)
  refine .of_step (l := .wake o.task w) trivial (step_wake hj h) (congrArg Writers.written hgoes) ?_
  obtain ⟨frame, point, backoff, since⟩ := job'
  cases hp
  exact writesOn_of_writing hj' hlt

theorem nextWrite_of_lt {n : Nat} (h : n < job.frame.length) :
    c.nextWrite s job n = { job with point := .writing n (c.writeDeadline s) } := if_pos h

/-- Whoever is at the head of the line, with octets left and the write half, can write one. -/
theorem writesOn_of_head (hj : c.job? o = some job) (head : c.writeLock.line.head? = some o)
    (kept : c.writeHalf = .kept) (place : job.point = .locking ∨ job.UnderWay)
    (short : job.written < job.frame.length) : WritesOn s c := by
  obtain ⟨frame, point, backoff, since⟩ := job
  cases point with
  | locking =>
    have hheld : c.writeLock.isHeldBy o = true := decide_eq_true head
    have hgo : c.stepWrite s o ⟨frame, .locking, backoff, since⟩ .go = some (c, .goes
        ⟨frame, .writing 0 (c.writeDeadline s), backoff, c.wall⟩) := by
      simp only [stepWrite, if_pos hheld, takeTurn, if_pos kept]
      exact congrArg (fun job => some (c, WriteProgress.goes job)) (nextWrite_of_lt short)
    exact writesOn_of_goes hj hgo rfl short
  | writing n deadline => exact writesOn_of_writing hj short
  | retrying n resume =>
    have hdue : resume ≤ c.now + resume := Nat.le_add_left _ _
    have hgo : stepWrite s o { c with now := c.now + resume, wall := c.wall + 0 }
        ⟨frame, .retrying n resume, backoff, since⟩ .timer = some
          ({ c with now := c.now + resume, wall := c.wall + 0 }, .goes ⟨frame, .writing n
            (writeDeadline s { c with now := c.now + resume, wall := c.wall + 0 }),
            backoff, since⟩) := by
      simp only [stepWrite, if_pos hdue]
      exact congrArg (fun job => some (_, WriteProgress.goes job)) (nextWrite_of_lt short)
    exact .of_step (l := .tick resume 0) trivial rfl rfl (writesOn_of_goes hj hgo rfl short)
  | flushing deadline => exact absurd short (Nat.lt_irrefl _)

/-- As long as the write half is not lost, whoever is next can write. -/
theorem writesOn_of_line (h : Tended s c) (hspent : ¬ c.writers.Spent)
    (hpart : c.writers.part = []) (hline : c.writeLock.line ≠ []) : WritesOn s c := by
  have kept : c.writeHalf = .kept := Classical.not_not.1 fun hgone => hspent (.inl hgone)
  obtain ⟨o, rest, hline⟩ := List.exists_cons_of_ne_nil hline
  have head : c.writers.line.head? = some o := congrArg List.head? hline
  rcases h.orderly.present o (Writers.mem_of_head head) with ⟨job, hj⟩ | ⟨rfl, hr⟩
  · obtain ⟨_, ⟨m, hpacks⟩, hplace⟩ := h.orderly.jobs o job hj
    have hlen : 0 < job.frame.length := Framing.length_pos_of_pack hpacks
    rw [Writers.part_of_head head, hj] at hpart
    have hzero : job.written = 0 := by
      rcases List.take_eq_nil_iff.1 hpart with hz | hnil
      · exact hz
      · rw [hnil] at hlen; cases hlen
    exact writesOn_of_head hj head kept (hplace.imp_right (·.way)) (by rw [hzero]; exact hlen)
  · exact absurd (.inr ⟨head, hr⟩) hspent

/-- If nobody is in the line, a direct send that begins is the next. -/
theorem writesOn_of_not_spent (h : Tended s c) (hspent : ¬ c.writers.Spent)
    (hpart : c.writers.part = []) {frame : Octets} (packs : s.Packs frame) : WritesOn s c := by
  by_cases hline : c.writeLock.line = []
  · have kept : c.writeHalf = .kept := Classical.not_not.1 fun hgone => hspent (.inl hgone)
    have hpacked : Label.Packed s (.sendDirect frame) := packs
    have hsend : c.step s (.sendDirect frame) = some (c.beginSend s frame) := rfl
    have hstill := (moves_beginSend h.orderly packs).still h.orderly
    rcases writers_beginSend h.orderly frame with ⟨job, _, hw⟩ | ⟨hgone, _⟩
    · have hline' : (c.beginSend s frame).writers.line = [.direct c.direct.length] :=
        (congrArg Writers.line hw).trans (congrArg (· ++ [Owner.direct _]) hline)
      have hhalf : (c.beginSend s frame).writers.half = .kept :=
        (congrArg Writers.half hw).trans kept
      refine .of_step hpacked hsend hstill.written (writesOn_of_line (tended_step h hpacked hsend)
        ?_ (hstill.part.trans hpart) ?_)
      · rintro (hgone | ⟨head, _⟩)
        · exact hgone hhalf
        · rw [hline'] at head
          cases head
      · rw [show (c.beginSend s frame).writeLock.line = _ from hline']
        exact List.cons_ne_nil _ _
    · exact absurd kept hgone
  · exact writesOn_of_line h hspent hpart hline

/-! ## The stream of a connection -/

/-- Nothing, or a beginning of a frame that is not all of it. -/
def Unfinished (s : Setup) (part : Octets) : Prop :=
  part = [] ∨ ∃ frame, s.Packs frame ∧ part <+: frame ∧ part ≠ frame

/-- A beginning of a frame is all of it, or not. -/
theorem unfinished_or_whole {buf part : Octets} {pieces : List Octets}
    (h : part = [] ∨ ∃ frame, s.Packs frame ∧ part <+: frame)
    (hbuf : buf = pieces.flatten ++ part) :
    ∃ more rest, buf = (pieces ++ more).flatten ++ rest ∧ Unfinished s rest ∧
      ∀ piece ∈ more, s.Packs piece := by
  rcases h with rfl | ⟨frame, packs, hprefix⟩
  · exact ⟨[], [], by rw [hbuf, List.append_nil pieces], .inl rfl, nofun⟩
  · by_cases hw : part = frame
    · refine ⟨[frame], [], ?_, .inl rfl, fun piece hp => List.mem_singleton.1 hp ▸ packs⟩
      rw [hbuf, hw, List.flatten_append, List.flatten_singleton, List.append_nil]
    · exact ⟨[], part, by rw [hbuf, List.append_nil], .inr ⟨frame, packs, hprefix, hw⟩, nofun⟩

/-- What the stream of a connection has got from its steps `ls`. -/
structure Wire (s : Setup) (ls : List Label) (c : Connection) : Prop where
  /-- It is frames and parts of frames that were torn, and behind them at most one beginning. -/
  pieces : ∃ (pieces : List Octets) (part : Octets), c.written = pieces.flatten ++ part ∧
    Unfinished s part ∧ ∀ piece ∈ pieces, s.Packs piece ∨
      ∃ a b o job, Torn s (new s) ls a b o job ∧ piece = job.frame.take job.written
  /-- A torn write is the last one if the write half goes with it; else some run writes on. -/
  last : ∀ a b o job, Torn s (new s) ls a b o job →
    ((∀ ls' c', Steps s b ls' c' → (∀ l ∈ ls', l.Packed s) → c'.written = b.written) ↔
      a.writers.IsLast o)
  /-- If it goes each time, no torn frame is followed by another. -/
  whole : (∀ a b o job, Torn s (new s) ls a b o job → a.writers.IsLast o) →
    ∃ (frames : List Octets) (part : Octets), c.written = frames.flatten ++ part ∧
      (∀ frame ∈ frames, s.Packs frame) ∧ Unfinished s part

theorem wire_of_steps (run : Steps s (new s) ls c) (hls : ∀ l ∈ ls, l.Packed s) :
    Wire s ls c := by
  have htended := tended_steps run hls (tended_new s)
  have hnew : (new s).written = [].flatten ++ (new s).writers.part := rfl
  refine ⟨?_, fun a b o job ht => ?_, fun hlast => ?_⟩
  · obtain ⟨pieces, hbrings, hpieces⟩ := pieces_of_steps run hls (tended_new s)
    obtain ⟨more, part, hpart, hunfinished, hpacks⟩ :=
      unfinished_or_whole htended.orderly.part_prefix (hbrings.written hnew)
    refine ⟨_, part, hpart, hunfinished, fun piece hp => ?_⟩
    exact (List.mem_append.1 hp).elim (hpieces piece) fun hp => .inl (hpacks piece hp)
  · cases ht with
    | @intro before after l _ _ _ _ run' step tears =>
      have hl : l.Packed s := hls l (List.mem_append_right _ List.mem_cons_self)
      have ha := tended_steps run' (fun l hl => hls l (List.mem_append_left _ hl)) (tended_new s)
      have hb := tended_step ha hl step
      have packs := (ha.orderly.jobs o job tears.has).2.1
      obtain ⟨_, hpart, hspent⟩ := (act_step ha.orderly ha.fresh hl step).tears ha.orderly tears
      constructor
      · refine fun hsilent => hspent.1 (Classical.not_not.1 fun hopen => ?_)
        obtain ⟨ls', c', run'', hls', hne⟩ := writesOn_of_not_spent hb hopen hpart packs
        exact hne (hsilent ls' c' run'' hls')
      · exact fun hlast ls' c' run'' hls' => spent_steps run'' hls' hb (hspent.2 hlast)
  · have hframes : ∃ (frames : List Octets) (part : Octets), c.written = frames.flatten ++ part ∧
        (∀ frame ∈ frames, s.Packs frame) ∧
        (part = [] ∨ ∃ frame, s.Packs frame ∧ part <+: frame) := by
      cases sound_of_steps run hls (tended_new s) hlast (.whole [] nofun hnew) with
      | whole frames packs hw => exact ⟨frames, _, hw, packs, htended.orderly.part_prefix⟩
      | ended frames _ packs hlast hprefix hw =>
        exact ⟨frames, _, hw, packs, .inr ⟨_, hlast, hprefix⟩⟩
    obtain ⟨frames, part, hw, packs, hpart⟩ := hframes
    obtain ⟨more, rest, hrest, hunfinished, hpacks⟩ := unfinished_or_whole hpart hw
    refine ⟨_, rest, hrest, fun frame hf => ?_, hunfinished⟩
    exact (List.mem_append.1 hf).elim (packs frame) (hpacks frame)

end Connection
end FrameEngine
