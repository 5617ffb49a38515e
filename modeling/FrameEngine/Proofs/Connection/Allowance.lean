import FrameEngine.Proofs.Connection.Ages
import FrameEngine.Proofs.Connection.Parts
import FrameEngine.Proofs.TokenBucket

/-!
# FrameEngine.Proofs.Connection.Allowance

How many frames a connection with a limit on its rate puts on the stream while the clock stands.
The write loop takes a token before it waits for a frame, so its frames are paid for: what is left
of the tokens and what the loop has in hand (`charge`) goes down by one with each frame that it
begins. A direct send takes no token. All that can be said of these is that each begins one frame at
most, which `unopened` counts.
-/

namespace FrameEngine

/-- Nothing of its frame is on the stream yet. -/
def WriteJob.isUntouched (job : WriteJob) : Bool :=
  match job.point with
  | .locking | .writing 0 _ | .retrying 0 _ => true
  | _ => false

/-- The first octets of its frame go out. -/
def WriteJob.opens (job : WriteJob) (w : Wake) : Bool :=
  match job.point, w with
  | .writing 0 _, .write (.ok n) => n ≠ 0
  | _, _ => false

/-- The write loop has a token that no frame has been begun with. -/
def WriteLoop.hasToken : WriteLoop → Bool
  | .receiving => true
  | .writing job => job.isUntouched
  | _ => false

def DirectCall.isUntouched : DirectCall → Bool
  | .sending job => job.isUntouched
  | _ => false

def WriteProgress.isUntouched : WriteProgress → Bool
  | .goes job => job.isUntouched
  | .ends _ => false

def Task.owner? : Task → Option Owner
  | .writer => some .loop
  | .direct ticket => some (.direct ticket)
  | _ => none

def Owner.isDirect : Owner → Bool
  | .loop => false
  | .direct _ => true

def Label.isSendDirect : Label → Bool
  | .sendDirect _ => true
  | _ => false

namespace TokenBucket

variable {interval burst now : Nat} {b b' : TokenBucket}

theorem Spends.holds (h : Spends now b b') (hb : Holds interval burst b) :
    Holds interval burst b' := by
  induction h with
  | refl => exact hb
  | tail _ last ih => rw [last]; exact ih.tryAcquire now

theorem Spends.available_le (h : Spends now b b') (hb : Holds interval burst b) (hi : 0 < interval)
    (hnow : now + burst * interval < UInt64.size) : b'.available now ≤ b.available now := by
  induction h with
  | refl => exact Nat.le_refl _
  | @tail b₁ b₂ before last ih =>
    have htaken := available_tryAcquire (Spends.holds before hb) hi hnow
    rw [last]
    omega

end TokenBucket

namespace Connection

/-- Whose frame it is whose first octets the label brings to the stream. -/
def opener (c : Connection) : Label → Option Owner
  | .wake task w => task.owner?.filter fun o => (c.job? o).any (·.opens w)
  | _ => none

/-- Whose frames they are that are begun along a list of labels, in order. -/
def openers (s : Setup) (c : Connection) : List Label → List Owner
  | [] => []
  | l :: ls =>
    (c.opener l).toList ++
      match c.step s l with
      | some c' => openers s c' ls
      | none => []

/-- The tokens that the write loop can begin a frame with at this time: those that are there and the
one that it has. -/
def charge (c : Connection) : Nat := c.limiter.available c.wall + c.writer.hasToken.toNat

/-- How many direct sends have not begun their frames. -/
def unopened (c : Connection) : Nat := c.direct.countP DirectCall.isUntouched

variable {s : Setup} {c c' c₁ a b : Connection} {job : WriteJob} {w : Wake} {p : WriteProgress}
  {l : Label} {ls : List Label} {interval burst : Nat}

/-! ## One frame -/

theorem untouched_nextWrite (c : Connection) (job : WriteJob) {n : Nat} (hn : n ≠ 0) :
    (c.nextWrite s job n).isUntouched = false := by
  obtain ⟨n, rfl⟩ := Nat.exists_eq_succ_of_ne_zero hn
  unfold nextWrite
  split <;> rfl

/-- A frame that has been begun stays so. -/
theorem touched_stepWrite {o : Owner} (h : c.stepWrite s o job w = some (c', p))
    (hj : job.isUntouched = false) : p.isUntouched = false := by
  have hbegun : ∀ n time, job.point = .writing n time ∨ job.point = .retrying n time → n ≠ 0 := by
    rintro n time (hp | hp) rfl
    · simp [WriteJob.isUntouched, hp] at hj
    · simp [WriteJob.isUntouched, hp] at hj
  cases writeStep_of h with
  | enters point held => simp [WriteJob.isUntouched, point] at hj
  | @retries _ n _ _ resume b fails granted =>
    have hn : n ≠ 0 := by
      cases fails with
      | late point due => exact hbegun _ _ (.inl point)
      | breaks point passes => exact hbegun _ _ (.inl point)
    obtain ⟨n, rfl⟩ := Nat.exists_eq_succ_of_ne_zero hn
    rfl
  | writes point fits takes => exact untouched_nextWrite _ _ (by omega)
  | resumes point due => exact untouched_nextWrite c _ (hbegun _ _ (.inr point))
  | stops | exhausts | breaks | stalls | completes | refuses | expires => rfl

/-- A frame is begun with its first octets. -/
theorem touched_of_opens {o : Owner} (h : c.stepWrite s o job w = some (c', p))
    (hopens : job.opens w = true) : job.isUntouched = true ∧ p.isUntouched = false := by
  unfold WriteJob.opens at hopens
  split at hopens
  · rename_i n hp
    have hn : n ≠ 0 := of_decide_eq_true hopens
    cases writeStep_of h with
    | writes point fits takes =>
      cases hp.symm.trans point
      exact ⟨by simp only [WriteJob.isUntouched, hp], untouched_nextWrite _ _ (by omega)⟩
    | stalls point => exact absurd rfl hn
    | retries fails | exhausts fails => cases fails
  · cases hopens

/-- A frame is begun once. -/
theorem untouched_stepWrite {o : Owner} (h : c.stepWrite s o job w = some (c', p)) :
    p.isUntouched.toNat + (job.opens w).toNat ≤ job.isUntouched.toNat := by
  cases hopens : job.opens w with
  | true =>
    obtain ⟨hbefore, hafter⟩ := touched_of_opens h hopens
    rw [hbefore, hafter]
    exact Nat.le_refl _
  | false =>
    cases hj : job.isUntouched with
    | true => exact Bool.toNat_le _
    | false =>
      rw [touched_stepWrite h hj]
      exact Nat.le_refl _

/-! ## The write loop -/

/-- A bucket of so many tokens, with time enough ahead for all of them to come back. -/
structure Limited (interval burst : Nat) (c : Connection) : Prop where
  holds : TokenBucket.Holds interval burst c.limiter
  spacing : 0 < interval
  fits : c.wall + burst * interval < UInt64.size

theorem Limited.congr (h : Limited interval burst c) (hl : c'.limiter = c.limiter)
    (hw : c'.wall = c.wall) : Limited interval burst c' :=
  ⟨hl ▸ h.holds, h.spacing, hw ▸ h.fits⟩

theorem Limited.ages (h : Limited interval burst c) (ha : Ages s c c') :
    Limited interval burst c' :=
  ⟨TokenBucket.Spends.holds ha.limiter h.holds, h.spacing, ha.wall ▸ h.fits⟩

/-- A write loop that has ended has no token. -/
theorem charge_finished (hl : c'.limiter = c.limiter) (hw : c'.wall = c.wall) :
    charge { c' with writer := .finished } = c.limiter.available c.wall := by
  show c'.limiter.available c'.wall + 0 = _
  rw [hl, hw, Nat.add_zero]

theorem charge_writerRound (h : Limited interval burst c) :
    c.writerRound.charge = c.limiter.available c.wall := by
  have htaken := TokenBucket.available_tryAcquire h.holds h.spacing h.fits
  unfold writerRound tryAcquire
  generalize c.limiter.tryAcquire c.wall = r at htaken ⊢
  obtain ⟨taken, limiter⟩ := r
  cases taken <;> exact htaken

theorem charge_dropWriteHalf (c : Connection) :
    (c.dropWriteHalf s).charge = c.limiter.available c.wall := by
  have hclose := calm_close (s := s)
    { c with writeHalf := .gone, writeLock := c.writeLock.release }
  exact charge_finished hclose.limiter hclose.wall

theorem charge_exitWriter (c : Connection) :
    (c.exitWriter s).charge = c.limiter.available c.wall := by
  unfold exitWriter
  dsimp only
  split
  · exact charge_dropWriteHalf _
  · rfl

theorem charge_afterWrite (h : Limited interval burst c)
    (hp : ∀ e, p = .ends (.error e) → e.isStream = true) :
    (c.afterWrite s p).charge ≤ c.limiter.available c.wall + p.isUntouched.toNat := by
  unfold afterWrite
  split
  · exact Nat.le_refl _
  · dsimp only
    split
    · have hround : Limited interval burst { c with writeLock := c.writeLock.release } :=
        h.congr rfl rfl
      exact Nat.le_of_eq (charge_writerRound hround)
    · have hexit := calm_reportStream (s := s) { c with writeLock := c.writeLock.release }
        (hp _ rfl)
      rw [charge_exitWriter, hexit.limiter, hexit.wall]
      exact Nat.le_refl _

/-- A turn of the write loop: each frame that it begins costs a token. -/
theorem charge_stepWriter (h : c.stepWriter s w = some c') (hc : Limited interval burst c) :
    c'.charge + (c.writer.job?.any (·.opens w)).toNat ≤ c.charge := by
  show _ ≤ c.limiter.available c.wall + c.writer.hasToken.toNat
  generalize hwriter : c.writer = writer
  cases writerStep_of h with
  | begins fresh kept =>
    cases hwriter.symm.trans fresh
    have hround : Limited interval burst { c with consumer := .taken } := hc.congr rfl rfl
    exact Nat.le_of_eq (charge_writerRound hround)
  | lacks fresh apart =>
    cases hwriter.symm.trans fresh
    have hclose := calm_close (s := s) c
    exact Nat.le_of_eq (charge_finished hclose.limiter hclose.wall)
  | stops waits closed =>
    have hexit := Nat.le_of_eq (charge_exitWriter (s := s) c)
    rcases waits with receiving | ⟨resume, paused⟩
    · cases hwriter.symm.trans receiving
      exact Nat.le_trans hexit (Nat.le_add_right _ _)
    · cases hwriter.symm.trans paused
      exact hexit
  | resumes paused due =>
    cases hwriter.symm.trans paused
    exact Nat.le_of_eq (charge_writerRound hc)
  | @takes frame queue receiving live popped =>
    cases hwriter.symm.trans receiving
    have hgauges := gauges_requestWrite (s := s) { c with queue } .loop frame
    have hlimiter := congrArg Gauges.limiter hgauges
    have hwall := congrArg Gauges.wall hgauges
    have hafter := charge_afterWrite (s := s) (hc.congr hlimiter hwall)
      (requestWrite_eq (s := s) { c with queue } .loop frame).2
    rw [show (requestWrite s .loop { c with queue } frame).1.limiter = c.limiter from hlimiter,
      show (requestWrite s .loop { c with queue } frame).1.wall = c.wall from hwall] at hafter
    exact Nat.le_trans hafter (Nat.add_le_add_left (Bool.toNat_le _) _)
  | ends receiving live none =>
    cases hwriter.symm.trans receiving
    exact Nat.le_trans (Nat.le_of_eq (charge_exitWriter c)) (Nat.le_add_right _ _)
  | @goes w job c₁ p writing write =>
    cases hwriter.symm.trans writing
    have hcalm := calm_stepWrite write
    have hafter := charge_afterWrite (s := s) (hc.ages hcalm.ages) fun e he =>
      stream_of_stepWrite write he
    have hopens := untouched_stepWrite write
    rw [hcalm.limiter, hcalm.wall] at hafter
    show _ + (job.opens w).toNat ≤ _ + job.isUntouched.toNat
    omega
  | releases releasing held =>
    cases hwriter.symm.trans releasing
    exact Nat.le_of_eq (charge_dropWriteHalf c)

theorem opener_wake (c : Connection) {task : Task} {o : Owner} (ho : task.owner? = some o)
    (w : Wake) : c.opener (.wake task w) = if (c.job? o).any (·.opens w) then some o else none := by
  rw [opener, ho, Option.filter_some]

theorem count_loop_opener (hl : ∀ w, l ≠ .wake .writer w) :
    (c.opener l).toList.count .loop = 0 := by
  cases l with
  | wake task w =>
    cases task with
    | writer => exact absurd rfl (hl w)
    | direct ticket =>
      rw [opener_wake c rfl]
      split <;> rfl
    | _ => rfl
  | _ => rfl

theorem charge_step (h : c.step s l = some c') (hc : Limited interval burst c)
    (still : l.wallTime = 0) : Limited interval burst c' ∧
      c'.charge + (c.opener l).toList.count .loop ≤ c.charge := by
  have hages : Ages s { c with now := c.now + l.timerTime } c' := by
    have hstep := ages_step h
    rw [still] at hstep
    exact hstep
  have hlater : Limited interval burst { c with now := c.now + l.timerTime } := hc.congr rfl rfl
  refine ⟨hlater.ages hages, ?_⟩
  rcases l.eq_wake_or_ne .writer with ⟨w, rfl⟩ | hl
  · have hturn := charge_stepWriter h hc
    rw [opener_wake c rfl]
    cases hopens : (c.job? .loop).any (·.opens w) with
    | true =>
      rw [show c.writer.job?.any (·.opens w) = true from hopens] at hturn
      exact hturn
    | false => exact Nat.le_trans (Nat.le_add_right _ _) hturn
  · have havailable := TokenBucket.Spends.available_le hages.limiter hc.holds hc.spacing hc.fits
    rw [count_loop_opener hl, charge, charge, hages.wall]
    rcases writer_step h hl with hw | ⟨-, -, hw⟩ <;> rw [hw]
    · exact Nat.add_le_add_right havailable _
    · exact Nat.le_trans havailable (Nat.le_add_right _ _)

/-- While the clock stands, each frame that the write loop begins costs it a token. -/
theorem charge_steps (run : Steps s a ls b) : Limited interval burst a →
    (∀ l ∈ ls, l.wallTime = 0) → b.charge + (openers s a ls).count .loop ≤ a.charge := by
  induction run with
  | nil c => intro _ _; exact Nat.le_refl _
  | cons first _ ih =>
    intro ha still
    obtain ⟨hnext, hcharge⟩ := charge_step first ha (still _ List.mem_cons_self)
    have hrest := ih hnext fun l hl => still l (List.mem_cons_of_mem _ hl)
    rw [openers, first, List.count_append]
    dsimp only
    omega

/-! ## Direct sends -/

theorem countP_congr_getElem? {α : Type} {p : α → Bool} {l : List α} :
    ∀ {l' : List α}, (∀ i : Nat, (l'[i]?).any p = (l[i]?).any p) → l'.countP p = l.countP p := by
  induction l with
  | nil =>
    intro l' h
    induction l' with
    | nil => rfl
    | cons d l' ih =>
      have hd : p d = false := h 0
      rw [List.countP_cons, ih fun i => h (i + 1), hd]
      rfl
  | cons e l ih =>
    intro l' h
    cases l' with
    | nil =>
      have he : p e = false := (h 0).symm
      have hrest : [].countP p = l.countP p := ih fun i => h (i + 1)
      rw [List.countP_cons, ← hrest, he]
      rfl
    | cons d l' =>
      have hd : p d = p e := h 0
      rw [List.countP_cons, List.countP_cons, ih fun i => h (i + 1), hd]

theorem countP_set_add {α : Type} {p : α → Bool} {l : List α} {i : Nat} (h : i < l.length) (d : α) :
    (l.set i d).countP p + (p l[i]).toNat = l.countP p + (p d).toNat := by
  rw [List.countP_set h]
  cases hp : p l[i] with
  | false => cases p d <;> simp
  | true =>
    have hpos : 0 < l.countP p := List.countP_pos_iff.2 ⟨l[i], List.getElem_mem h, hp⟩
    cases p d <;> simp <;> omega

theorem unopened_of_sending (h : ∀ (ticket : Nat) (job : WriteJob),
    c'.direct[ticket]? = some (.sending job) ↔ c.direct[ticket]? = some (.sending job)) :
    c'.unopened = c.unopened := by
  refine countP_congr_getElem? fun i => ?_
  have hany : ∀ d : Option DirectCall, d.any DirectCall.isUntouched = true ↔
      ∃ job, d = some (.sending job) ∧ job.isUntouched = true := by
    intro d
    cases d with
    | none => exact ⟨nofun, nofun⟩
    | some d =>
      cases d with
      | sending job => exact ⟨fun h => ⟨job, rfl, h⟩, fun ⟨_, hj, h⟩ => by cases hj; exact h⟩
      | _ => exact ⟨nofun, nofun⟩
  rw [Bool.eq_iff_iff, hany, hany]
  exact exists_congr fun job => and_congr_left fun _ => h i job

theorem unopened_quiet (h : Quiet s c c') : c'.unopened = c.unopened :=
  unopened_of_sending h.sending

theorem unopened_start (c : Connection) (loops : LoopSet) :
    (c.start s loops).unopened = c.unopened := by
  rcases start_cases (s := s) c loops with h | ⟨_, c₁, htold, hlooped⟩
  · exact unopened_quiet h
  · have hdirect : (c.start s loops).direct = c₁.direct := congrArg Outlet.direct hlooped
    have hsame : (c.start s loops).unopened = c₁.unopened := by rw [unopened, unopened, hdirect]
    have hquiet : c₁.unopened = unopened { c with started := true } := unopened_quiet htold
    exact hsame.trans hquiet

/-- What a direct send is set to after a step of its job. -/
theorem direct_afterSend (c : Connection) (ticket : Nat) (p : WriteProgress) :
    ∃ d : DirectCall, (c.afterSend ticket p).direct = c.direct.set ticket d ∧
      d.isUntouched = p.isUntouched := by
  cases p with
  | goes job => exact ⟨_, rfl, rfl⟩
  | ends result => exact ⟨_, rfl, rfl⟩

theorem unopened_beginSend (c : Connection) (frame : Octets) :
    (c.beginSend s frame).unopened ≤ c.unopened + 1 := by
  unfold beginSend
  dsimp only
  have hdirect := congrArg Gauges.direct (gauges_requestWrite (s := s)
    { c with direct := c.direct ++ [DirectCall.locking] } (.direct c.direct.length) frame)
  generalize requestWrite s (.direct c.direct.length)
    { c with direct := c.direct ++ [DirectCall.locking] } frame = r at hdirect ⊢
  obtain ⟨c₁, p⟩ := r
  obtain ⟨d, hd, _⟩ := direct_afterSend c₁ c.direct.length p
  have hdirect : c₁.direct = c.direct ++ [DirectCall.locking] := hdirect
  rw [unopened, hd, hdirect, set_append_last, List.countP_append]
  exact Nat.add_le_add_left List.countP_le_length _

theorem unopened_driven {ticket : Nat} (hj : c.direct[ticket]? = some (.sending job))
    (h : c.stepWrite s (.direct ticket) job w = some (c₁, p)) :
    (c₁.afterSend ticket p).unopened + (job.opens w).toNat ≤ c.unopened := by
  obtain ⟨hlt, hget⟩ := List.getElem?_eq_some_iff.1 hj
  obtain ⟨d, hd, htouch⟩ := direct_afterSend c₁ ticket p
  have hopens := untouched_stepWrite h
  have hset := countP_set_add (p := DirectCall.isUntouched) hlt d
  have hcall : c.direct[ticket].isUntouched = job.isUntouched := by rw [hget]; rfl
  rw [unopened, hd, (calm_stepWrite h).direct, unopened]
  rw [hcall, htouch] at hset
  omega

/-- Each direct send begins one frame at most. -/
theorem unopened_step (h : c.step s l = some c') :
    c'.unopened + (c.opener l).toList.countP Owner.isDirect ≤ c.unopened + l.isSendDirect.toNat := by
  cases step_of h with
  | ticks | sends | queues | refuses | rejects => exact Nat.le_refl _
  | starts loops => exact Nat.le_of_eq (unopened_start c loops)
  | @obeys loops requested asked =>
    exact Nat.le_of_eq (unopened_start { c with requested } loops)
  | closes => exact Nat.le_of_eq (unopened_quiet (quiet_close c))
  | sendsDirect frame => exact unopened_beginSend c frame
  | receives => exact Nat.le_of_eq (unopened_quiet (quiet_beginReceive c))
  | reader went => exact Nat.le_of_eq (unopened_quiet (quiet_stepReader went))
  | @writer w _ went =>
    have hnone : (c.opener (.wake .writer w)).toList.countP Owner.isDirect = 0 := by
      rw [opener_wake c rfl]
      split <;> rfl
    rw [hnone, unopened, (still_stepWriter went).direct]
    exact Nat.le_refl _
  | idler went => exact Nat.le_of_eq (unopened_quiet (quiet_stepIdler went))
  | runner went => exact Nat.le_of_eq (unopened_quiet (quiet_stepRunner went))
  | @direct ticket w _ went =>
    rw [opener_wake c rfl]
    cases directStep_of went with
    | @sends _ job _ _ sending write =>
      have hdriven := unopened_driven sending write
      rw [job?_direct.2 sending, Option.any_some]
      cases hopens : job.opens w with
      | true => rw [hopens] at hdriven; exact hdriven
      | false => exact Nat.le_trans (Nat.le_add_right _ _) hdriven
    | enters other | stops other | resumes other | goes other | fails other | hears other =>
      have hd : NotSending c ticket := fun job hj => by cases hj.symm.trans other
      rw [job?_of_notSending hd]
      exact Nat.le_of_eq (unopened_quiet (quiet_stepDirect hd went))

theorem unopened_steps (run : Steps s a ls b) :
    b.unopened + (openers s a ls).countP Owner.isDirect ≤
      a.unopened + ls.countP Label.isSendDirect := by
  induction run with
  | nil c => exact Nat.le_refl _
  | @cons a b c l ls first _ ih =>
    have hfirst := unopened_step first
    have hhead : (l :: ls).countP Label.isSendDirect =
        ls.countP Label.isSendDirect + l.isSendDirect.toNat := by
      rw [List.countP_cons]
      cases l.isSendDirect <;> rfl
    rw [openers, first, List.countP_append, hhead]
    dsimp only
    omega

/-- A direct send begins, or its task goes on. -/
def drivesSend (c : Connection) : Label → Bool
  | .sendDirect _ => true
  | .wake (.direct ticket) _ => (c.job? (.direct ticket)).isSome
  | _ => false

/-- A direct send takes no token. -/
theorem limiter_of_drivesSend (hl : c.drivesSend l = true) (h : c.step s l = some c') :
    c'.limiter = c.limiter := by
  have hsend : ∀ (d : Connection) (ticket : Nat) (q : WriteProgress),
      (d.afterSend ticket q).limiter = d.limiter := by
    intro d ticket q
    cases q <;> rfl
  cases step_of h with
  | sendsDirect frame =>
    unfold beginSend
    dsimp only
    rw [hsend]
    exact congrArg Gauges.limiter (gauges_requestWrite (s := s)
      { c with direct := c.direct ++ [DirectCall.locking] } (.direct c.direct.length) frame)
  | direct went =>
    obtain ⟨job, hj⟩ := Option.isSome_iff_exists.1 hl
    cases directStep_of went with
    | sends sending write =>
      rw [hsend]
      exact (calm_stepWrite write).limiter
    | enters other | stops other | resumes other | goes other | fails other | hears other =>
      cases (job?_direct.1 hj).symm.trans other
  | _ => cases hl

/-! ## A connection with a limit -/

theorem holds_new (limited : TokenBucket.isLimit s.settings.rateLimit = true)
    (hfits : max s.settings.rateBurst 1 * (new s).limiter.interval < UInt64.size) :
    0 < (new s).limiter.interval ∧ TokenBucket.Holds (new s).limiter.interval
      (max s.settings.rateBurst 1) (new s).limiter := by
  have hbucket : ∃ interval, 0 < interval ∧
      (new s).limiter = .ofInterval interval (max s.settings.rateBurst 1) := by
    refine ⟨max ((TokenBucket.nanosPerSecond.div s.settings.rateLimit).wholePart
      TokenBucket.lastTime) 1, Nat.lt_of_lt_of_le Nat.zero_lt_one (Nat.le_max_right _ 1), ?_⟩
    show TokenBucket.ofRate _ _ = _
    rw [TokenBucket.ofRate, if_pos limited]
    simp only [TokenBucket.ofInterval, Nat.max_assoc, Nat.max_self]
  obtain ⟨interval, hpos, hlimiter⟩ := hbucket
  rw [hlimiter] at hfits ⊢
  exact ⟨hpos, TokenBucket.holds_ofInterval (Nat.le_max_right _ 1) hfits⟩

theorem holds_steps (run : Steps s a ls b) (ha : TokenBucket.Holds interval burst a.limiter) :
    TokenBucket.Holds interval burst b.limiter := by
  induction run with
  | nil c => exact ha
  | cons first _ ih => exact ih (TokenBucket.Spends.holds (ages_step first).limiter ha)

/-- While the clock stands, the write loop begins no more frames than there are tokens, one more if
it has one in hand. The tokens that are there are never more than the bucket holds. A direct send
begins one frame at most, and no token is taken for it. -/
theorem frames_for_tokens {before : List Label} (reach : Steps s (new s) before a)
    (run : Steps s a ls b) (limited : TokenBucket.isLimit s.settings.rateLimit = true)
    (still : ∀ l ∈ ls, l.wallTime = 0)
    (fits : a.wall + max s.settings.rateBurst 1 * (new s).limiter.interval < UInt64.size) :
    a.limiter.available a.wall ≤ max s.settings.rateBurst 1 ∧
      (openers s a ls).count .loop ≤ a.limiter.available a.wall + a.writer.hasToken.toNat ∧
      (openers s a ls).countP Owner.isDirect ≤ a.unopened + ls.countP Label.isSendDirect ∧
      ∀ l c, a.drivesSend l = true → a.step s l = some c → c.limiter = a.limiter := by
  obtain ⟨hpos, hnew⟩ := holds_new limited (Nat.lt_of_le_of_lt (Nat.le_add_left _ _) fits)
  have hholds := holds_steps reach hnew
  refine ⟨TokenBucket.available_le hholds, ?_, ?_, fun l c => limiter_of_drivesSend⟩
  · exact Nat.le_trans (Nat.le_add_left _ _) (charge_steps run ⟨hholds, hpos, fits⟩ still)
  · exact Nat.le_trans (Nat.le_add_left _ _) (unopened_steps run)

/-- Two tokens, three messages in the queue and one sent past it: the write loop begins two frames
and then pauses, and the direct send goes out beside them. -/
theorem frames_for_tokens_of_two :
    let s : Setup :=
      { id := 1, peer := none, localAddress := none, framing := .field 64,
        settings :=
          { ConnectionSettings.standard with rateLimit := .ofNat 1, rateBurst := 2 },
        handler := .quiet, chance := fun _ delay => delay }
    let ls : List Label :=
      [.start .writeOnly, .send (.field ⟨1, 1, []⟩), .send (.field ⟨1, 2, []⟩),
        .send (.field ⟨1, 3, []⟩), .wake .writer .go, .wake .writer .go,
        .wake .writer (.write (.ok 16)), .wake .writer (.flush (.ok ())), .wake .writer .go,
        .wake .writer (.write (.ok 16)), .wake .writer (.flush (.ok ())),
        .sendDirect [0, 0, 0, 16, 0, 0, 0, 1, 0, 0, 0, 4, 0, 0, 0, 0],
        .wake (.direct 0) (.write (.ok 16))]
    ∃ b, Steps s (new s) [] (new s) ∧ Steps s (new s) ls b ∧
      TokenBucket.isLimit s.settings.rateLimit = true ∧ (∀ l ∈ ls, l.wallTime = 0) ∧
      (new s).wall + max s.settings.rateBurst 1 * (new s).limiter.interval < UInt64.size ∧
      openers s (new s) ls = [.loop, .loop, .direct 0] ∧
      b.writer = .paused tokenPause ∧
      (openers s (new s) ls).count .loop ≤ (new s).limiter.available 0 ∧
      (openers s (new s) ls).countP Owner.isDirect ≤ ls.countP Label.isSendDirect := by
  intro s ls
  have hseen : (follow s (new s) ls).map Connection.writer = some (.paused tokenPause) := by
    decide +kernel
  obtain ⟨b, hrun, hpaused⟩ := Option.map_eq_some_iff.1 hseen
  have hsteps := steps_of_follow hrun
  have hlimit : TokenBucket.isLimit s.settings.rateLimit = true := by decide +kernel
  have hstill : ∀ l ∈ ls, l.wallTime = 0 := by decide
  have hfits : (new s).wall + max s.settings.rateBurst 1 * (new s).limiter.interval <
      UInt64.size := by decide +kernel
  obtain ⟨_, hloop, hdirect, _⟩ := frames_for_tokens (.nil _) hsteps hlimit hstill hfits
  rw [show (new s).unopened = 0 from rfl, Nat.zero_add] at hdirect
  exact ⟨b, .nil _, hsteps, hlimit, hstill, hfits, by decide +kernel, hpaused, hloop, hdirect⟩

/-- A bucket of one token, and two direct sends at one time: both frames go out whole. -/
theorem two_frames_for_one_token :
    let s : Setup :=
      { id := 1, peer := none, localAddress := none, framing := .field 64,
        settings :=
          { ConnectionSettings.standard with rateLimit := .ofNat 1, rateBurst := 1 },
        handler := .quiet, chance := fun _ delay => delay }
    let ls : List Label :=
      [.sendDirect [0, 0, 0, 16, 0, 0, 0, 1, 0, 0, 0, 1, 0, 0, 0, 0],
        .wake (.direct 0) (.write (.ok 16)), .wake (.direct 0) (.flush (.ok ())),
        .sendDirect [0, 0, 0, 16, 0, 0, 0, 1, 0, 0, 0, 2, 0, 0, 0, 0],
        .wake (.direct 1) (.write (.ok 16)), .wake (.direct 1) (.flush (.ok ()))]
    ∃ b, Steps s (new s) ls b ∧ (∀ l ∈ ls, l.Packed s) ∧
      TokenBucket.isLimit s.settings.rateLimit = true ∧ (∀ l ∈ ls, l.wallTime = 0) ∧
      s.settings.rateBurst * (new s).limiter.interval < UInt64.size ∧
      b.metrics.messagesSent = 2 ∧
      b.written = [0, 0, 0, 16, 0, 0, 0, 1, 0, 0, 0, 1, 0, 0, 0, 0,
        0, 0, 0, 16, 0, 0, 0, 1, 0, 0, 0, 2, 0, 0, 0, 0] ∧
      ¬ (openers s (new s) ls).length ≤ s.settings.rateBurst := by
  intro s ls
  have hseen : (follow s (new s) ls).map (fun b => (b.metrics.messagesSent, b.written)) =
      some (2, [0, 0, 0, 16, 0, 0, 0, 1, 0, 0, 0, 1, 0, 0, 0, 0,
        0, 0, 0, 16, 0, 0, 0, 1, 0, 0, 0, 2, 0, 0, 0, 0]) := by
    decide +kernel
  obtain ⟨b, hrun, hb⟩ := Option.map_eq_some_iff.1 hseen
  obtain ⟨hsent, hwritten⟩ := Prod.mk.inj hb
  have hpacked : ∀ l ∈ ls, l.Packed s := by
    have hfirst : s.framing.pack (.field ⟨1, 1, []⟩) =
        .ok [0, 0, 0, 16, 0, 0, 0, 1, 0, 0, 0, 1, 0, 0, 0, 0] := rfl
    have hsecond : s.framing.pack (.field ⟨1, 2, []⟩) =
        .ok [0, 0, 0, 16, 0, 0, 0, 1, 0, 0, 0, 2, 0, 0, 0, 0] := rfl
    simp only [ls, List.forall_mem_cons, Label.Packed]
    exact ⟨⟨_, hfirst⟩, trivial, trivial, ⟨_, hsecond⟩, trivial, trivial, nofun⟩
  exact ⟨b, steps_of_follow hrun, hpacked, by decide +kernel, by decide, by decide +kernel, hsent,
    hwritten, by decide +kernel⟩

end Connection
end FrameEngine
