import FrameEngine.Connection.Step

/-!
# FrameEngine.Proofs.Connection.Course

The order in which a handler is called over the life of a connection. `Course` is the automaton
that accepts these orders: it goes from a `Phase` to a `Phase` along a list of calls, each with the
stage in which the connection was at the time. What a course says of the number of calls, of what
comes before and of what comes after is proved here once, for any list that the automaton accepts;
that the calls of a connection are such a list is another matter.

A connection that is closed may still report errors. Which ones is left open: `late` says so.
-/

namespace FrameEngine

namespace Stage

/-- How far a connection is on its way from open to closed. -/
def rank : Stage → Nat
  | live => 0
  | closing => 1
  | closed => 2

/-- Stages in the order in which a connection goes through them. -/
def Ordered (stages : List Stage) : Prop := stages.Pairwise fun a b => a.rank ≤ b.rank

theorem Ordered.cons {a b : Stage} {stages : List Stage} (h : Ordered (b :: stages))
    (hab : a.rank ≤ b.rank) : Ordered (a :: stages) := by
  obtain ⟨hb, hrest⟩ := List.pairwise_cons.1 h
  exact List.pairwise_cons.2 ⟨fun c hc => Nat.le_trans hab (hb c hc), hrest⟩

theorem Ordered.insert {a b c : Stage} {stages : List Stage} (h : Ordered (c :: stages))
    (hab : a.rank ≤ b.rank) (hbc : b.rank ≤ c.rank) : Ordered (a :: b :: stages) := by
  have hb := h.cons hbc
  refine List.pairwise_cons.2 ⟨fun d hd => ?_, hb⟩
  rcases List.mem_cons.1 hd with rfl | hd
  · exact hab
  · exact Nat.le_trans hab ((List.pairwise_cons.1 hb).1 d hd)

end Stage

namespace Callback

def isConnect : Callback → Bool
  | connect => true
  | _ => false

def isClose : Callback → Bool
  | close => true
  | _ => false

end Callback

/-- The reaction may end in a panic with a text. -/
inductive Reaction.CanPanic (text : Option String) : Reaction → Prop where
  | panic : CanPanic text (.panic text)
  | act {action : Action} {next : Answer → Reaction} {answer : Answer}
      (rest : CanPanic text (next answer)) : CanPanic text (.act action next)

/-- Some call to the handler may end in a panic that becomes this error. -/
def Handler.Panics (h : Handler) (e : EngineError) : Prop :=
  ∃ caller callback text, (h.react caller callback).CanPanic text ∧ e = callback.panicked text

/-- A call to the handler, and the stage in which the connection was. -/
structure Call where
  callback : Callback
  stage : Stage

def Moment.call? (m : Moment) : Option Call :=
  match m.what with
  | .called callback stage => some ⟨callback, stage⟩
  | _ => none

/-- What decides which calls may come next. -/
structure Phase where
  stage : Stage
  started : Bool

namespace Connection

/-- The calls to the handler, in order. -/
def callbacks (c : Connection) : List Call := (c.since 0).filterMap Moment.call?

def phase (c : Connection) : Phase := ⟨c.stage, c.started⟩

end Connection

/-- The calls that lead from one phase to another. A callback that closes the connection and then
panics has its panic reported next. -/
inductive Course (h : Handler) (late : EngineError → Prop) : Phase → List Call → Phase → Prop where
  | done (p : Phase) : Course h late p [] p
  | connects {calls : List Call} {q : Phase} (rest : Course h late ⟨.live, true⟩ calls q) :
      Course h late ⟨.live, false⟩ (⟨.connect, .live⟩ :: calls) q
  | delivers {m : Message} {calls : List Call} {q : Phase}
      (rest : Course h late ⟨.live, true⟩ calls q) :
      Course h late ⟨.live, true⟩ (⟨.message m, .live⟩ :: calls) q
  | reports {started : Bool} {e : EngineError} {calls : List Call} {q : Phase}
      (rest : Course h late ⟨.live, started⟩ calls q) :
      Course h late ⟨.live, started⟩ (⟨.error e, .live⟩ :: calls) q
  | closes {started : Bool} {calls : List Call} {q : Phase}
      (rest : Course h late ⟨.closed, started⟩ calls q) :
      Course h late ⟨.live, started⟩ (⟨.close, .closing⟩ :: calls) q
  | panics {started : Bool} {e : EngineError} {calls : List Call} {q : Phase} (panic : h.Panics e)
      (rest : Course h late ⟨.closed, started⟩ calls q) :
      Course h late ⟨.live, started⟩ (⟨.close, .closing⟩ :: ⟨.error e, .closed⟩ :: calls) q
  | trails {started : Bool} {e : EngineError} {calls : List Call} {q : Phase} (after : late e)
      (rest : Course h late ⟨.closed, started⟩ calls q) :
      Course h late ⟨.closed, started⟩ (⟨.error e, .closed⟩ :: calls) q

namespace Course

variable {h : Handler} {late : EngineError → Prop} {p q r : Phase} {calls more : List Call}

theorem mono {late' : EngineError → Prop} (hlate : ∀ e, late e → late' e)
    (c : Course h late p calls q) : Course h late' p calls q := by
  induction c with
  | done p => exact .done p
  | connects _ ih => exact .connects ih
  | delivers _ ih => exact .delivers ih
  | reports _ ih => exact .reports ih
  | closes _ ih => exact .closes ih
  | panics panic _ ih => exact .panics panic ih
  | trails after _ ih => exact .trails (hlate _ after) ih

theorem trans (c : Course h late p calls q) (d : Course h late q more r) :
    Course h late p (calls ++ more) r := by
  induction c with
  | done p => exact d
  | connects _ ih => exact .connects (ih d)
  | delivers _ ih => exact .delivers (ih d)
  | reports _ ih => exact .reports (ih d)
  | closes _ ih => exact .closes (ih d)
  | panics panic _ ih => exact .panics panic (ih d)
  | trails after _ ih => exact .trails after (ih d)

/-! ## The phase -/

theorem started (c : Course h late p calls q) (hp : p.started = true) : q.started = true := by
  induction c with
  | done p => exact hp
  | connects _ ih => exact ih rfl
  | delivers _ ih | reports _ ih | closes _ ih | panics _ _ ih | trails _ _ ih => exact ih hp

theorem eq_of_closed (c : Course h late p calls q) (hp : p.stage = .closed) : q = p := by
  induction c with
  | done p => rfl
  | connects _ _ | delivers _ _ | reports _ _ | closes _ _ | panics _ _ _ => cases hp
  | trails _ _ ih => exact ih rfl

/-- As long as the connection is open, no error is late. -/
theorem of_live {late' : EngineError → Prop} (c : Course h late p calls q) (hq : q.stage = .live) :
    Course h late' p calls q := by
  induction c with
  | done p => exact .done p
  | connects _ ih => exact .connects (ih hq)
  | delivers _ ih => exact .delivers (ih hq)
  | reports _ ih => exact .reports (ih hq)
  | closes rest _ | panics _ rest _ | trails _ rest _ =>
    rw [rest.eq_of_closed rfl] at hq; cases hq

/-- The stage between open and closed is seen by the handler alone. -/
theorem settled (c : Course h late p calls q) (hp : p.stage ≠ .closing) : q.stage ≠ .closing := by
  induction c with
  | done p => exact hp
  | connects _ ih | delivers _ ih | reports _ ih | closes _ ih | panics _ _ ih | trails _ _ ih =>
    exact ih nofun

theorem ordered (c : Course h late p calls q) :
    Stage.Ordered (p.stage :: (calls.map Call.stage ++ [q.stage])) := by
  induction c with
  | done p => exact List.pairwise_pair.2 (Nat.le_refl _)
  | connects _ ih | delivers _ ih | reports _ ih | trails _ _ ih =>
    exact ih.insert (Nat.le_refl _) (Nat.le_refl _)
  | closes _ ih => exact ih.insert (Nat.zero_le 1) (Nat.le_succ 1)
  | panics _ _ ih =>
    exact (ih.insert (Nat.le_refl _) (Nat.le_refl _)).insert (Nat.zero_le 1) (Nat.le_succ 1)

/-! ## How often -/

/-- The handler is told of the start when the connection is started, and at no other time. -/
theorem countP_isConnect (c : Course h late p calls q) :
    calls.countP (·.callback.isConnect) + p.started.toNat = q.started.toNat := by
  induction c with
  | done p => exact Nat.zero_add _
  | connects _ ih => rw [List.countP_cons_of_pos rfl, ← ih]; rfl
  | delivers _ ih | reports _ ih | closes _ ih | trails _ _ ih =>
    rw [List.countP_cons_of_neg (by exact Bool.false_ne_true)]; exact ih
  | panics _ _ ih =>
    rw [List.countP_cons_of_neg (by exact Bool.false_ne_true),
      List.countP_cons_of_neg (by exact Bool.false_ne_true)]
    exact ih

/-- The handler is told of the end when the connection is closed, and at no other time. -/
theorem countP_isClose (c : Course h late p calls q) (hp : p.stage ≠ .closing) :
    calls.countP (·.callback.isClose) + (if p.stage = .live then 0 else 1) =
      if q.stage = .live then 0 else 1 := by
  induction c with
  | done p => exact Nat.zero_add _
  | connects _ ih | delivers _ ih | reports _ ih | trails _ _ ih =>
    rw [List.countP_cons_of_neg (by exact Bool.false_ne_true)]; exact ih nofun
  | closes _ ih => rw [List.countP_cons_of_pos rfl, ← ih nofun]; rfl
  | panics _ _ ih =>
    rw [List.countP_cons_of_pos rfl, List.countP_cons_of_neg (by exact Bool.false_ne_true),
      ← ih nofun]
    rfl

/-! ## What comes before and what comes after -/

/-- No message before the start. -/
theorem greeted (c : Course h late p calls q) {m : Message} {stage : Stage} :
    ∀ {before after : List Call}, calls = before ++ ⟨.message m, stage⟩ :: after →
      p.started = true ∨ ⟨.connect, .live⟩ ∈ before := by
  induction c with
  | done p => intro before after hc; cases before <;> cases hc
  | connects _ _ =>
    intro before after hc
    cases before with
    | nil => cases hc
    | cons first before => cases hc; exact .inr List.mem_cons_self
  | delivers _ _ => exact fun _ => .inl rfl
  | reports _ ih | closes _ ih | trails _ _ ih =>
    intro before after hc
    cases before with
    | nil => cases hc
    | cons first before =>
      cases hc
      exact (ih rfl).imp_right (List.mem_cons_of_mem _)
  | panics _ _ ih =>
    intro before after hc
    match before with
    | [] => cases hc
    | [_] => cases hc
    | _ :: _ :: before =>
      cases hc
      exact (ih rfl).imp_right fun hm => List.mem_cons_of_mem _ (List.mem_cons_of_mem _ hm)

/-- An error that is reported when the connection is closed already. -/
def Trailing (late : EngineError → Prop) (call : Call) : Prop :=
  ∃ e, call = ⟨.error e, .closed⟩ ∧ late e

theorem trailing (c : Course h late p calls q) (hp : p.stage = .closed) :
    ∀ call ∈ calls, Trailing late call := by
  induction c with
  | done p => nofun
  | connects _ _ | delivers _ _ | reports _ _ | closes _ _ | panics _ _ _ => cases hp
  | trails after _ ih =>
    intro call hcall
    rcases List.mem_cons.1 hcall with rfl | hcall
    · exact ⟨_, rfl, after⟩
    · exact ih rfl call hcall

/-- After the end come late errors, and before them perhaps the panic of the callback that closed
the connection. -/
theorem trailing_of_close (c : Course h late p calls q) {stage : Stage} :
    ∀ {before after : List Call}, calls = before ++ ⟨.close, stage⟩ :: after →
      ∃ rest, (after = rest ∨ ∃ e, h.Panics e ∧ after = ⟨.error e, .closed⟩ :: rest) ∧
        ∀ call ∈ rest, Trailing late call := by
  induction c with
  | done p => intro before after hc; cases before <;> cases hc
  | connects _ ih | delivers _ ih | reports _ ih | trails _ _ ih =>
    intro before after hc
    cases before with
    | nil => cases hc
    | cons first before => cases hc; exact ih rfl
  | closes rest ih =>
    intro before after hc
    cases before with
    | nil => cases hc; exact ⟨_, .inl rfl, rest.trailing rfl⟩
    | cons first before => cases hc; exact ih rfl
  | panics panic rest ih =>
    intro before after hc
    match before with
    | [] => cases hc; exact ⟨_, .inr ⟨_, panic, rfl⟩, rest.trailing rfl⟩
    | [_] => cases hc
    | _ :: _ :: before => cases hc; exact ih rfl

end Course
end FrameEngine
