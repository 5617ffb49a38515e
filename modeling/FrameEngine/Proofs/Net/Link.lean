import FrameEngine.Net.Link
import FrameEngine.Proofs.Connection.Delivery
import FrameEngine.Proofs.Connection.Supply
import Mathlib.Data.List.Nodup

/-!
# FrameEngine.Proofs.Net.Link

A connection in the hands of its owner. `Moves` is all that an owner does to a link, short of ending
its task; `Tended` is what stays true of a link on the way: the calls of its handler are a course,
its task begins a run before it ends, a link whose task has ended is closed, and one that is not
closed can be given frames.
-/

namespace FrameEngine

open Connection

/-- The owner lends counters to the connection, has it do a step and takes them back; or its task
begins its run. -/
inductive Link.Moves (l : Link) : Link → Prop where
  | stays : Moves l l
  | steps {lent left : Option Metrics} {x : Label} {c : Connection}
      (h : { l.connection with totals := lent }.step l.setup x = some c) :
      Moves l { l with connection := { c with totals := left } }
  | begins {loops : LoopSet} {lent left : Option Metrics} {c : Connection}
      (due : l.due = some loops)
      (h : { l.connection with totals := lent }.step l.setup (.start loops) = some c) :
      Moves l { l with due := none, connection := { c with totals := left } }

/-- What is true of a link as long as only its owner and its task have to do with it. -/
structure Link.Tended (l : Link) : Prop where
  kept : Kept l.connection
  told : ∃ late, Course l.setup.handler late ⟨.live, false⟩ l.connection.callbacks
    l.connection.phase
  begun : l.due = none → Begun l.connection
  closed : l.ended = true → l.isClosed = true
  supplied : Supplied l.connection

namespace Link

variable {l l' : Link}

theorem mem_put {links : List Link} {k : Link} (h : k ∈ l.put links) :
    k = l ∨ k ∈ links ∧ k.id ≠ l.id := by
  obtain ⟨old, hold, rfl⟩ := List.mem_map.1 h
  split
  · exact .inl rfl
  · rename_i hne
    exact .inr ⟨hold, hne⟩

theorem mem_of_find? {links : List Link} {id : Nat} (h : find? links id = some l) :
    l ∈ links ∧ l.id = id := by
  have hid := List.find?_some (p := fun l : Link => decide (l.id = id)) h
  exact ⟨List.mem_of_find?_eq_some h, of_decide_eq_true hid⟩

/-- Where numbers are distinct, a link is found under its own. -/
theorem find?_of_mem {links : List Link} (distinct : (links.map Link.id).Nodup) (h : l ∈ links) :
    find? links l.id = some l := by
  cases hfound : find? links l.id with
  | none => exact absurd (decide_eq_true rfl) (List.find?_eq_none.1 hfound l h)
  | some k =>
    obtain ⟨hk, hid⟩ := mem_of_find? hfound
    exact congrArg some (List.inj_on_of_nodup_map distinct hk h hid)

theorem put_self {links : List Link} (distinct : (links.map Link.id).Nodup) (h : l ∈ links) :
    l.put links = links := by
  refine (List.map_congr_left fun k hk => ?_).trans (List.map_id' _)
  split
  · rename_i hid
    exact (List.inj_on_of_nodup_map distinct hk h hid).symm
  · rfl

theorem put_of_not_mem {links : List Link} (h : l.id ∉ links.map Link.id) : l.put links = links := by
  refine (List.map_congr_left fun k hk => ?_).trans (List.map_id' _)
  rw [if_neg]
  intro hid
  exact h (hid ▸ List.mem_map_of_mem hk)

/-- A link with a number above all others, behind them. -/
theorem rising_concat {links : List Link} (rising : (links.map Link.id).Pairwise (· < ·))
    (below : ∀ k ∈ links, k.id < l.id) : ((links ++ [l]).map Link.id).Pairwise (· < ·) := by
  rw [List.map_append, List.pairwise_append]
  refine ⟨rising, List.pairwise_singleton _ _, fun i hi j hj => ?_⟩
  obtain ⟨k, hk, rfl⟩ := List.mem_map.1 hi
  rw [List.map_singleton, List.mem_singleton] at hj
  rw [hj]
  exact below k hk

/-- How often the handler has been told of the start of the connection. -/
def greetings (l : Link) : Nat := l.connection.callbacks.countP (·.callback.isConnect)

/-- How often it has been told of its end. -/
def farewells (l : Link) : Nat := l.connection.callbacks.countP (·.callback.isClose)

theorem tended_new (s : Setup) (loops : LoopSet) : (new s loops).Tended :=
  ⟨kept_new s, ⟨fun _ => False, .done _⟩, nofun, nofun, supplied_new s⟩

namespace Tended

theorem greetings_eq (h : l.Tended) : l.greetings = l.connection.started.toNat := by
  obtain ⟨_, hcourse⟩ := h.told
  exact (Nat.add_zero _).symm.trans hcourse.countP_isConnect

/-- A link that is closed has been told so, once. -/
theorem farewells_eq (h : l.Tended) (hc : l.isClosed = true) : l.farewells = 1 := by
  obtain ⟨_, hcourse⟩ := h.told
  have hcount := hcourse.countP_isClose nofun
  have hstage : l.connection.phase.stage ≠ .live := isClosed_eq_true.1 hc
  rw [if_neg hstage] at hcount
  exact (Nat.add_zero _).symm.trans hcount

theorem stage_eq (h : l.Tended) (hc : l.isClosed = true) : l.connection.stage = .closed :=
  stage_eq_closed h.kept.settled hc

end Tended

theorem kept_lent {c : Connection} (hk : Kept c) (totals : Option Metrics) :
    Kept { c with totals } := ⟨hk.settled, hk.reads, hk.runs, hk.ended⟩

theorem stretch_lent {lent left : Option Metrics} {x : Label} {c : Connection}
    (hk : Kept l.connection)
    (h : { l.connection with totals := lent }.step l.setup x = some c) :
    Kept { c with totals := left } ∧ ∃ late calls,
      { c with totals := left }.callbacks = l.connection.callbacks ++ calls ∧
        Course l.setup.handler late l.connection.phase calls { c with totals := left }.phase := by
  have hadvances := advances_step false (kept_lent hk lent) nofun nofun h
  obtain ⟨calls, hstretch⟩ := hadvances.stretch
  exact ⟨kept_lent hadvances.kept left, _, calls, hstretch.callbacks, hstretch.course⟩

theorem begun_of_course {late : EngineError → Prop} {h : Handler} {c c' : Connection}
    {calls : List Call} (hcourse : Course h late c.phase calls c'.phase) (hk : Kept c)
    (hb : Begun c) : Begun c' := by
  rw [begun_iff] at hb ⊢
  rcases hb with hc | hs
  · have hclosed : c.phase.stage = .closed := stage_eq_closed hk.settled hc
    have hstage : c'.stage = c.stage := congrArg Phase.stage (hcourse.eq_of_closed hclosed)
    refine .inl (isClosed_eq_true.2 ?_)
    rw [hstage]
    exact isClosed_eq_true.1 hc
  · exact .inr (hcourse.started hs)

namespace Moves

theorem setup_eq (h : l.Moves l') : l'.setup = l.setup := by cases h <;> rfl

theorem id_eq (h : l.Moves l') : l'.id = l.id := congrArg Setup.id h.setup_eq

theorem ended_eq (h : l.Moves l') : l'.ended = l.ended := by cases h <;> rfl

theorem course (h : l.Moves l') (hk : Kept l.connection) : Kept l'.connection ∧ ∃ late calls,
    l'.connection.callbacks = l.connection.callbacks ++ calls ∧
      Course l.setup.handler late l.connection.phase calls l'.connection.phase := by
  cases h with
  | stays => exact ⟨hk, fun _ => False, [], (List.append_nil _).symm, .done _⟩
  | steps h => exact stretch_lent hk h
  | begins _ h => exact stretch_lent hk h

theorem supplied (h : l.Moves l') (hs : Supplied l.connection) : Supplied l'.connection := by
  cases h with
  | stays => exact hs
  | steps h =>
    have hupholds := upholds_step h
    exact hupholds.supplied hs
  | begins _ h =>
    have hupholds := upholds_step h
    exact hupholds.supplied hs

/-- A connection that is closed stays so, and is as far as it was. -/
theorem phase_eq (h : l.Moves l') (ht : l.Tended) (hc : l.isClosed = true) :
    l'.connection.phase = l.connection.phase := by
  obtain ⟨_, late, calls, _, hcourse⟩ := h.course ht.kept
  exact hcourse.eq_of_closed (ht.stage_eq hc)

theorem isClosed (h : l.Moves l') (ht : l.Tended) (hc : l.isClosed = true) :
    l'.isClosed = true := by
  have hstage : l'.connection.stage = l.connection.stage :=
    congrArg Phase.stage (h.phase_eq ht hc)
  refine isClosed_eq_true.2 ?_
  rw [hstage]
  exact isClosed_eq_true.1 hc

theorem tended (h : l.Moves l') (ht : l.Tended) : l'.Tended := by
  obtain ⟨hkept, late, calls, hcalls, hcourse⟩ := h.course ht.kept
  refine ⟨hkept, ?_, fun hdue => ?_, fun hended => ?_, h.supplied ht.supplied⟩
  · obtain ⟨before, hbefore⟩ := ht.told
    refine ⟨fun e => before e ∨ late e, ?_⟩
    rw [hcalls, h.setup_eq]
    exact (hbefore.mono fun _ => .inl).trans (hcourse.mono fun _ => .inr)
  · cases h with
    | stays => exact ht.begun hdue
    | steps _ => exact begun_of_course hcourse ht.kept (ht.begun hdue)
    | begins due h =>
      have hbegun := begun_step (kept_lent ht.kept _) (l := .start _) trivial h
      exact hbegun
  · exact h.isClosed ht (ht.closed (h.ended_eq ▸ hended))

/-- The handler of a connection that is closed is not told of a start. -/
theorem greetings_eq (h : l.Moves l') (ht : l.Tended) (hc : l.isClosed = true) :
    l'.greetings = l.greetings := by
  have hstarted : l'.connection.started = l.connection.started :=
    congrArg Phase.started (h.phase_eq ht hc)
  rw [(h.tended ht).greetings_eq, ht.greetings_eq, hstarted]

end Moves

/-- The task of a connection ends when the run has come back, and then the connection is closed. -/
theorem Tended.ends (h : l.Tended) (hend : l.canEnd = true) :
    l.isClosed = true ∧ { l with ended := true }.Tended := by
  have hover : l.due = none ∧ l.connection.runner ≠ .joining := by
    simp only [canEnd, Bool.and_eq_true, Option.isNone_iff_eq_none, decide_eq_true_eq] at hend
    exact hend.1
  obtain ⟨hdue, hjoined⟩ := hover
  have hclosed : l.isClosed = true := by
    rcases begun_iff.1 (h.begun hdue) with hc | hs
    · exact hc
    · have hidle := h.kept.runs.1 hs
      cases hr : l.connection.runner with
      | idle => exact absurd hr hidle
      | joining => exact absurd hr hjoined
      | finished =>
        refine isClosed_eq_true.2 ?_
        rw [h.kept.ended hr]
        nofun
  exact ⟨hclosed, h.kept, h.told, h.begun, fun _ => hclosed, h.supplied⟩

/-! ## Steps of a link -/

/-- A step of a link is one of its connection. -/
theorem exists_of_step {totals left : Option Metrics} {x : Label}
    (h : l.step totals x = some (l', left)) :
    ∃ c, { l.connection with totals }.step l.setup x = some c ∧
      l' = { l with connection := { c with totals := none } } ∧ left = c.totals := by
  unfold step at h
  split at h <;> cases h
  exact ⟨_, ‹_›, rfl, rfl⟩

/-- The task of a link begins with the run that is due. -/
theorem exists_of_begin {totals left : Option Metrics} (h : l.begin? totals = some (l', left)) :
    ∃ loops, l.due = some loops ∧
      { l with due := none }.step totals (.start loops) = some (l', left) := by
  unfold begin? at h
  split at h
  · exact ⟨_, ‹_›, h⟩
  · cases h

theorem moves_of_step {totals left : Option Metrics} {x : Label}
    (h : l.step totals x = some (l', left)) : l.Moves l' := by
  obtain ⟨c, hc, rfl, -⟩ := exists_of_step h
  exact .steps hc

theorem moves_of_begin {totals left : Option Metrics} (h : l.begin? totals = some (l', left)) :
    l.Moves l' := by
  obtain ⟨loops, hdue, hstep⟩ := exists_of_begin h
  obtain ⟨c, hc, rfl, -⟩ := exists_of_step hstep
  exact .begins hdue hc

/-- The counters that come back say the same of how many connections there are. -/
theorem gate_of_step {m : Metrics} {left : Option Metrics} {x : Label}
    (h : l.step (some m) x = some (l', left)) : left.map Metrics.gate = some m.gate := by
  obtain ⟨c, hc, -, rfl⟩ := exists_of_step h
  exact (counted_of_step hc).gate

theorem gate_of_begin {m : Metrics} {left : Option Metrics}
    (h : l.begin? (some m) = some (l', left)) : left.map Metrics.gate = some m.gate := by
  obtain ⟨loops, -, hstep⟩ := exists_of_begin h
  exact gate_of_step hstep

theorem isClosed_of_close {totals left : Option Metrics} (hk : Kept l.connection)
    (h : l.step totals .close = some (l', left)) : l'.isClosed = true := by
  obtain ⟨c, hc, rfl, -⟩ := exists_of_step h
  cases hc
  have hstage := stage_close (s := l.setup) (kept_lent hk totals).settled
  refine isClosed_eq_true.2 ?_
  rw [hstage]
  nofun

end Link
end FrameEngine
