import FrameEngine.Bench
import FrameEngine.Proofs.Connection.Ages

/-!
# FrameEngine.Proofs.Bench

What a bench does to its connection. Whatever is asked of a bench, all that happens is a run of the
connection (`steps_of_used`): the labels that callers asked for, and besides them only tasks that go
on, runs that callbacks asked for, and clocks that go on. So what holds of every run of a connection
holds on every bench.

Both clocks stand while tasks have their turns (`clocks_settle`). When the clock of the timers is
to go on by so much, it does, and real time stands (`clocks_run`): the stops on the way never use
up the number that bounds them.
-/

namespace FrameEngine
namespace Label

/-- A task goes on, or a run begins that a callback has asked for. -/
def IsTurn : Label → Prop
  | .startRequested | .wake _ _ => True
  | _ => False

/-- What happens without a caller. -/
def IsOwn : Label → Prop
  | .tick _ _ | .startRequested | .wake _ _ => True
  | _ => False

theorem IsTurn.isOwn {l : Label} (h : l.IsTurn) : l.IsOwn := by
  cases l with
  | startRequested | wake => trivial
  | _ => cases h

theorem IsTurn.still {l : Label} (h : l.IsTurn) : l.timerTime = 0 ∧ l.wallTime = 0 := by
  cases l with
  | startRequested | wake => exact ⟨rfl, rfl⟩
  | _ => cases h

end Label

namespace Connection

variable {s : Setup} {a b c : Connection} {l : Label} {ls ls' : List Label} {P Q : Label → Prop}

theorem Steps.append (h : Steps s a ls b) (h' : Steps s b ls' c) : Steps s a (ls ++ ls') c := by
  induction h with
  | nil => exact h'
  | cons first _ ih => exact .cons first (ih h')

theorem clocks_of_steps (run : Steps s a ls b) :
    (∀ l ∈ ls, l.IsTurn) → b.now = a.now ∧ b.wall = a.wall := by
  induction run with
  | nil c => exact fun _ => ⟨rfl, rfl⟩
  | cons first _ ih =>
    intro hls
    obtain ⟨hturn, hrest⟩ := List.forall_mem_cons.1 hls
    obtain ⟨htimers, hwall⟩ := hturn.still
    have hages := ages_step first
    rw [htimers, hwall] at hages
    obtain ⟨hnow, hlast⟩ := ih hrest
    exact ⟨hnow.trans hages.now, hlast.trans hages.wall⟩

/-- The connection goes on by labels of one kind. -/
def Goes (s : Setup) (P : Label → Prop) (a b : Connection) : Prop :=
  ∃ ls, Steps s a ls b ∧ ∀ l ∈ ls, P l

namespace Goes

theorem refl (c : Connection) : Goes s P c c := ⟨[], .nil c, List.forall_mem_nil _⟩

theorem single (step : a.step s l = some b) (hl : P l) : Goes s P a b :=
  ⟨[l], .cons step (.nil b), List.forall_mem_singleton.2 hl⟩

theorem trans (h : Goes s P a b) (h' : Goes s P b c) : Goes s P a c := by
  obtain ⟨ls, hsteps, hls⟩ := h
  obtain ⟨ls', hsteps', hls'⟩ := h'
  exact ⟨ls ++ ls', hsteps.append hsteps', List.forall_mem_append.2 ⟨hls, hls'⟩⟩

theorem mono (h : Goes s P a b) (hPQ : ∀ l, P l → Q l) : Goes s Q a b := by
  obtain ⟨ls, hsteps, hls⟩ := h
  exact ⟨ls, hsteps, fun l hl => hPQ l (hls l hl)⟩

theorem clocks (h : Goes s Label.IsTurn a b) : b.now = a.now ∧ b.wall = a.wall := by
  obtain ⟨ls, hsteps, hls⟩ := h
  exact clocks_of_steps hsteps hls

end Goes
end Connection

namespace Bench

open Connection (Steps Goes)

variable {s : Setup} {b b' : Bench} {ran : Bool}

/-! ## Turns -/

theorem goes_drive {t : Task} (h : b.drive s t = (b', ran)) :
    Goes s Label.IsTurn b.connection b'.connection := by
  unfold drive at h
  dsimp only at h
  split at h
  · next went =>
    cases h
    exact .single went trivial
  · split at h
    · next went =>
      cases h
      exact .single went trivial
    · split at h
      · next went =>
        cases h
        exact .single went trivial
      · cases h
        exact .refl _

theorem goes_driveOn {t : Task} (n : Nat) (b : Bench) :
    Goes s Label.IsTurn b.connection (b.driveOn s t n).connection := by
  induction n generalizing b with
  | zero => exact .refl _
  | succ n ih =>
    unfold driveOn
    split
    · next went => exact (goes_drive went).trans (ih _)
    · next waits => exact goes_drive waits

theorem goes_driveFirst (line : List Task) (b : Bench) :
    Goes s Label.IsTurn b.connection (b.driveFirst s line).1.connection := by
  induction line generalizing b with
  | nil => exact .refl _
  | cons t rest ih =>
    unfold driveFirst
    split
    · next went => exact (goes_drive went).trans (goes_driveOn patience _)
    · next waits => exact (goes_drive waits).trans (ih _)

theorem goes_advance (b : Bench) :
    Goes s Label.IsTurn b.connection (b.advance s).1.connection := by
  unfold advance
  split
  · next went => exact .single went trivial
  · exact goes_driveFirst b.line b

theorem goes_settleIn (n : Nat) (b : Bench) :
    Goes s Label.IsTurn b.connection (b.settleIn s n).connection := by
  induction n generalizing b with
  | zero => exact .refl _
  | succ n ih =>
    have hgoes := goes_advance (s := s) b
    unfold settleIn
    split
    · next went =>
      rw [went] at hgoes
      exact hgoes.trans (ih _)
    · next waits =>
      rw [waits] at hgoes
      exact hgoes

theorem goes_settle (b : Bench) : Goes s Label.IsTurn b.connection (b.settle s).connection :=
  goes_settleIn patience b

theorem goes_perform {P : Label → Prop} (turns : ∀ k, k.IsTurn → P k) (b : Bench) {l : Label}
    (hl : P l) : Goes s P b.connection (b.perform s l).connection := by
  unfold perform
  split
  · next went =>
    exact (Goes.single went hl).trans ((goes_settle ⟨_, b.script, b.line⟩).mono turns)
  · exact .refl _

/-- Both clocks stand as long as a task can run. -/
theorem clocks_settle (b : Bench) : (b.settle s).connection.now = b.connection.now ∧
    (b.settle s).connection.wall = b.connection.wall :=
  (goes_settle b).clocks

/-! ## The clock -/

theorem lt_of_nextTime {t : Span} (h : b.nextTime = some t) : b.connection.now < t := by
  have hmem := List.min?_mem h
  exact of_decide_eq_true (List.mem_filter.1 hmem).2

/-- A time is reached in as many turns as it has units left, and real time stands. -/
theorem clocks_runIn (target : Span) (n : Nat) (b : Bench)
    (enough : target < b.connection.now + n) :
    (b.runIn s target n).connection.now = max b.connection.now target ∧
      (b.runIn s target n).connection.wall = b.connection.wall := by
  induction n generalizing b with
  | zero => exact ⟨(Nat.max_eq_left (Nat.le_of_lt enough)).symm, rfl⟩
  | succ n ih =>
    -- Each stop takes one turn, and is one later at least.
    have hless : ∀ now t target : Nat, now < t → target < now + (n + 1) → target < t + n := by
      omega
    unfold runIn
    split
    · next t next =>
      have hlt := lt_of_nextTime next
      split
      · next hle =>
        obtain ⟨hnow, hwall⟩ := clocks_settle (s := s) (b.setClock t)
        have hstop : (b.setClock t).connection.now = t := Nat.max_eq_right (Nat.le_of_lt hlt)
        rw [hstop] at hnow
        have hleft : target < ((b.setClock t).settle s).connection.now + n := by
          rw [hnow]
          exact hless _ t target hlt enough
        obtain ⟨hreached, hstood⟩ := ih _ hleft
        rw [hnow, Nat.max_eq_right hle] at hreached
        have hmax : max b.connection.now target = target :=
          Nat.max_eq_right (Nat.le_trans (Nat.le_of_lt hlt) hle)
        exact ⟨hreached.trans hmax.symm, hstood.trans hwall⟩
      · exact ⟨rfl, rfl⟩
    · exact ⟨rfl, rfl⟩

theorem clocks_run (b : Bench) (d : Span) : (b.run s d).connection.now = b.connection.now + d ∧
    (b.run s d).connection.wall = b.connection.wall := by
  obtain ⟨hnow, hwall⟩ := clocks_runIn (s := s) (b.connection.now + d) (d + 1) b
    (Nat.lt_succ_self _)
  obtain ⟨hnow', hwall'⟩ := clocks_settle (s := s) (b.runIn s (b.connection.now + d) (d + 1))
  rw [Nat.max_eq_right (Nat.le_add_right _ _)] at hnow
  exact ⟨hnow'.trans hnow, hwall'.trans hwall⟩

/-- Setting the clock of the timers on is a tick, in which no real time passes. -/
theorem goes_setClock (b : Bench) (t : Span) :
    Goes s Label.IsOwn b.connection (b.setClock t).connection := by
  have hnow : ∀ now t : Nat, now + (t - now) = max now t := by omega
  have hstep : b.connection.step s (.tick (t - b.connection.now) 0) =
      some (b.setClock t).connection := by
    rw [Connection.step, hnow]
    rfl
  exact .single hstep trivial

theorem goes_runIn (target : Span) (n : Nat) (b : Bench) :
    Goes s Label.IsOwn b.connection (b.runIn s target n).connection := by
  induction n generalizing b with
  | zero => exact .refl _
  | succ n ih =>
    unfold runIn
    split
    · next t _ =>
      split
      · have hsettle := (goes_settle (s := s) (b.setClock t)).mono fun _ => Label.IsTurn.isOwn
        exact ((goes_setClock b t).trans hsettle).trans (ih _)
      · exact goes_setClock b target
    · exact goes_setClock b target

theorem goes_run (b : Bench) (d : Span) :
    Goes s Label.IsOwn b.connection (b.run s d).connection :=
  (goes_runIn _ _ b).trans ((goes_settle _).mono fun _ => Label.IsTurn.isOwn)

theorem goes_waitIn (n : Nat) (b : Bench) :
    Goes s Label.IsOwn b.connection (b.waitIn s n).connection := by
  induction n generalizing b with
  | zero => exact .refl _
  | succ n ih =>
    unfold waitIn
    split
    · exact .refl _
    · split
      · exact .refl _
      · next t _ =>
        have hwaits := goes_perform (s := s) (fun _ => Label.IsTurn.isOwn) b
          (l := .tick (t - b.connection.now) beat) trivial
        exact hwaits.trans (ih _)

/-! ## Callers -/

/-- A bench that callers have used, and what they have asked of the connection. -/
inductive Used (s : Setup) : List Label → Bench → Prop where
  | new : Used s [] (new s)
  /-- The stream is given another script. -/
  | scripts {asked : List Label} {b : Bench} (used : Used s asked b) (script : Script) :
      Used s asked { b with script }
  | performs {asked : List Label} {b : Bench} (used : Used s asked b) (l : Label) :
      Used s (l :: asked) (b.perform s l)
  | sends {asked : List Label} {b : Bench} (used : Used s asked b) (m : Message) (n : Nat) :
      Used s (.send m :: asked) (b.sendTimes s m n).2
  | runs {asked : List Label} {b : Bench} (used : Used s asked b) (d : Span) :
      Used s asked (b.run s d)
  | waits {asked : List Label} {b : Bench} (used : Used s asked b) : Used s asked (b.waitClosed s)

variable {asked : List Label}

/-- What happens without a caller, or because one has asked for it. -/
def Allowed (asked : List Label) (l : Label) : Prop := l.IsOwn ∨ l ∈ asked

theorem goes_send {m : Message} (b : Bench) (hm : .send m ∈ asked) :
    Goes s (Allowed asked) b.connection (b.send s m).2.connection := by
  refine .single (l := .send m) ?_ (.inr hm)
  rw [Connection.step, send]
  cases b.connection.send s m <;> rfl

theorem goes_sendTimes {m : Message} (n : Nat) (b : Bench) (hm : .send m ∈ asked) :
    Goes s (Allowed asked) b.connection (b.sendTimes s m n).2.connection := by
  induction n generalizing b with
  | zero => exact (goes_settle b).mono fun _ hk => Or.inl hk.isOwn
  | succ n ih => exact (goes_send b hm).trans (ih _)

/-- All that happens on a bench is a run of the connection, of what callers asked for and of what
happens without them. -/
theorem steps_of_used {b : Bench} (used : Used s asked b) :
    Goes s (Allowed asked) (.new s) b.connection := by
  induction used with
  | new => exact .refl _
  | scripts _ script ih => exact ih
  | performs _ l ih =>
    have hmore := ih.mono fun k hk => hk.imp_right (List.mem_cons_of_mem l)
    exact hmore.trans (goes_perform (fun _ hk => .inl hk.isOwn) _ (.inr List.mem_cons_self))
  | sends _ m n ih =>
    have hmore := ih.mono fun k hk => hk.imp_right (List.mem_cons_of_mem (Label.send m))
    exact hmore.trans (goes_sendTimes n _ List.mem_cons_self)
  | runs _ d ih => exact ih.trans ((goes_run _ d).mono fun _ => Or.inl)
  | waits _ ih => exact ih.trans ((goes_waitIn patience _).mono fun _ => Or.inl)

theorem reachable_of_used {b : Bench} (used : Used s asked b) :
    Connection.Reachable s b.connection := by
  obtain ⟨ls, hsteps, -⟩ := steps_of_used used
  exact ⟨ls, hsteps⟩

end Bench
end FrameEngine
