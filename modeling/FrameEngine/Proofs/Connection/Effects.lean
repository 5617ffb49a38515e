import FrameEngine.Connection.Step
import Mathlib.Logic.Relation

/-!
# FrameEngine.Proofs.Connection.Effects

What a connection goes through while it is closed and while the handler is called: a chain of
`Effect`s, each a change of one kind. A handler may do anything that a callback can do, in any
order, so a property of such a chain is proved for each kind of effect and holds of the chain.

`close_effects`, `call_effects`, `report_effects` and `deliver_effects` say what the functions of
`Connection.Callbacks` come to. A handler that does not close the connection leaves it in its stage
(`stage_report`, `stage_deliver`).
-/

namespace FrameEngine

/-- An occurrence that tells of neither a callback nor octets. -/
def Occurrence.isRemark : Occurrence → Bool
  | .sent _ _ | .logged _ | .returned => true
  | .called _ _ | .queued _ | .wrote _ => false

/-- A reaction in which the handler does not close the connection. -/
inductive Reaction.KeepsOpen : Reaction → Prop where
  | done : KeepsOpen .done
  | panic (text : Option String) : KeepsOpen (.panic text)
  | act {action : Action} {next : Answer → Reaction} (other : action ≠ .close)
      (rest : ∀ answer, KeepsOpen (next answer)) : KeepsOpen (.act action next)

/-- A count of what went wrong. -/
def Tally.isFault : Tally → Bool
  | .error | .protocolError => true
  | _ => false

namespace Connection

/-- The handler is about to be called. -/
def told (c : Connection) (cb : Callback) : Connection :=
  { c with calls := c.calls + 1 }.note (.called cb c.stage)

/-- One thing that closing and callbacks do to a connection. -/
inductive Effect (s : Setup) : Connection → Connection → Prop where
  | note (c : Connection) {o : Occurrence} (remark : o.isRemark = true) : Effect s c (c.note o)
  | record (c : Connection) {t : Tally} (fault : t.isFault = true) : Effect s c (c.record t)
  | queue {c : Connection} {m : Message} {frame : Octets} {queue : SendQueue}
      (packed : s.framing.pack m = .ok frame) (pushed : c.queue.push frame = .ok queue) :
      Effect s c ({ c with queue }.note (.queued frame))
  | request (c : Connection) (loops : LoopSet) :
      Effect s c { c with requested := c.requested ++ [loops] }
  | beginClose {c : Connection} (live : c.isClosed = false) :
      Effect s c ({ c with stage := .closing, queue := c.queue.close }.dropParts)
  | tellClose (c : Connection) : Effect s c (c.told .close)
  | endClose {c : Connection} (closing : c.isClosed = true) : Effect s c { c with stage := .closed }

abbrev Effects (s : Setup) : Connection → Connection → Prop := Relation.ReflTransGen (Effect s)

variable {s : Setup}

theorem since_zero (c : Connection) : c.since 0 = c.history.reverse := by
  rw [since, Nat.sub_zero, List.take_length]

theorem tryAcquire_eq (c : Connection) :
    ∃ taken limiter, c.tryAcquire = (taken, { c with limiter }) := ⟨_, _, rfl⟩

theorem effects_log (c : Connection) (level : LogLevel) (text : String)
    (fields : List (String × String)) : Effects s c (c.log level text fields) :=
  .single (.note c rfl)

theorem effects_record (c : Connection) {t : Tally} (h : t.isFault = true) :
    Effects s c (c.record t) :=
  .single (.record c h)

/-! ## Callbacks and closing -/

/-- A frame that is taken joins the queue; nothing else happens. -/
theorem sendFrame_eq_ok {c c' : Connection} {frame : Octets} (h : c.sendFrame frame = .ok c') :
    ∃ queue, c.queue.push frame = .ok queue ∧ c' = { c with queue }.note (.queued frame) := by
  unfold sendFrame at h
  split at h
  · cases h
  · split at h
    · rename_i queue hq
      cases h
      exact ⟨queue, hq, rfl⟩
    · cases h

theorem send_eq_ok {c c' : Connection} {m : Message} (h : c.send s m = .ok c') :
    ∃ frame queue, s.framing.pack m = .ok frame ∧ c.queue.push frame = .ok queue ∧
      c' = { c with queue }.note (.queued frame) := by
  unfold send at h
  split at h
  · cases h
  · split at h
    · rename_i frame hp
      obtain ⟨queue, hq, hc⟩ := sendFrame_eq_ok h
      exact ⟨frame, queue, hp, hq, hc⟩
    · cases h

theorem perform_effects {close : Connection → Connection} (hclose : ∀ c, Effects s c (close c))
    (c : Connection) (action : Action) : Effects s c (c.perform close s action).1 := by
  cases action with
  | send m =>
    rw [perform]
    split
    · rename_i c' hs
      obtain ⟨frame, queue, hp, hq, rfl⟩ := send_eq_ok hs
      exact (Relation.ReflTransGen.single (.queue hp hq)).tail (.note _ rfl)
    · exact .single (.note _ rfl)
  | close => exact hclose c
  | start loops => exact .single (.request c loops)
  | log line => exact .single (.note c rfl)

/-- By the actions of the reaction, one after the other. -/
theorem react_effects {close : Connection → Connection} (hclose : ∀ c, Effects s c (close c))
    (reaction : Reaction) : ∀ c, Effects s c (react close s c reaction).1 := by
  induction reaction with
  | done => intro c; exact .refl
  | panic text => intro c; exact .refl
  | act action next ih =>
    intro c
    exact (perform_effects hclose c action).trans (ih _ _)

theorem callWith_effects (close : Connection → Connection) (hclose : ∀ c, Effects s c (close c))
    (c : Connection) (cb : Callback) : Effects s (c.told cb) (c.callWith close s cb).1 :=
  react_effects hclose _ _

/-- What is closed stays closed. -/
theorem closed_of_effects {c c' : Connection} (h : Effects s c c') (hc : c.isClosed = true) :
    c'.isClosed = true := by
  induction h with
  | refl => exact hc
  | tail _ last ih =>
    cases last with
    | beginClose live => rfl
    | endClose closing => rfl
    | _ => exact ih

theorem close_effects (c : Connection) : Effects s c (c.close s) := by
  unfold close
  split
  · exact .refl
  · rename_i hlive
    have hbegin := Effect.beginClose (s := s) (Bool.eq_false_iff.2 hlive)
    have hcall := callWith_effects (s := s) id (fun _ => .refl)
      ({ c with stage := .closing, queue := c.queue.close }.dropParts) .close
    have hclosing := closed_of_effects hcall rfl
    refine ((Relation.ReflTransGen.single hbegin).tail (.tellClose _)).trans (hcall.trans ?_)
    dsimp only
    generalize (callWith id s _ _) = r at hclosing ⊢
    obtain ⟨c, panic⟩ := r
    cases panic with
    | none => exact (Relation.ReflTransGen.single (.endClose hclosing)).trans (effects_log _ _ _ _)
    | some e =>
      exact ((effects_log _ _ _ _).tail (.endClose hclosing)).trans (effects_log _ _ _ _)

theorem call_effects (c : Connection) (cb : Callback) :
    Effects s (c.told cb) (c.call s cb).1 :=
  callWith_effects (close s) close_effects c cb

/-- An error has been counted. -/
def countError (c : Connection) (e : EngineError) : Connection :=
  if e.errorClass = .protocol then (c.record .error).record .protocolError else c.record .error

/-- An error is counted, and the handler is told of it; a panic of the handler is logged. -/
theorem report_cases (c : Connection) (e : EngineError) :
    c.report s e = ((c.countError e).call s (.error e)).1 ∨ ∃ text fields,
      c.report s e = ((c.countError e).call s (.error e)).1.log .error text fields := by
  unfold report
  dsimp only
  rw [← countError]
  generalize (c.countError e).call s (.error e) = r
  obtain ⟨c', panic⟩ := r
  cases panic with
  | none => exact .inl rfl
  | some panic => exact .inr ⟨_, _, rfl⟩

/-- The handler is told of a message; a panic of the handler is logged, and reported to it. -/
theorem deliver_cases (c : Connection) (m : Message) :
    c.deliver s m = (c.call s (.message m)).1 ∨ ∃ text fields panic,
      c.deliver s m =
        ((c.call s (.message m)).1.log .error text fields).report s (.handlerPanic panic) := by
  unfold deliver
  cases hcall : c.call s (.message m) with
  | mk c' panic =>
    cases panic with
    | none => exact .inl rfl
    | some e =>
      obtain ⟨text, -, rfl⟩ := Option.map_eq_some_iff.1 (congrArg Prod.snd hcall)
      exact .inr ⟨_, _, _, rfl⟩

theorem effects_countError (c : Connection) (e : EngineError) : Effects s c (c.countError e) := by
  unfold countError
  split
  · exact (effects_record c (t := .error) rfl).tail (.record _ rfl)
  · exact effects_record c rfl

/-- Before the handler is told of an error it is counted. -/
theorem report_effects (c : Connection) (e : EngineError) :
    ∃ c₀, Effects s c c₀ ∧ Effects s (c₀.told (.error e)) (c.report s e) := by
  refine ⟨c.countError e, effects_countError c e, ?_⟩
  have hcall := call_effects (s := s) (c.countError e) (.error e)
  rcases report_cases (s := s) c e with h | ⟨text, fields, h⟩ <;> rw [h]
  · exact hcall
  · exact hcall.trans (effects_log _ _ _ _)

/-- A panic of the handler over a message is reported to the handler. -/
theorem deliver_effects (c : Connection) (m : Message) :
    ∃ c₀, Effects s (c.told (.message m)) c₀ ∧
      (c.deliver s m = c₀ ∨ ∃ text, c.deliver s m = c₀.report s (.handlerPanic text)) := by
  have hcall := call_effects (s := s) c (.message m)
  rcases deliver_cases (s := s) c m with h | ⟨text, fields, panic, h⟩
  · exact ⟨_, hcall, .inl h⟩
  · exact ⟨_, hcall.trans (effects_log _ _ _ _), .inr ⟨panic, h⟩⟩

/-! ## Handlers that do not close -/

/-- By the actions of the reaction, none of which closes. -/
theorem stage_react (close : Connection → Connection) {reaction : Reaction}
    (h : reaction.KeepsOpen) : ∀ c, (react close s c reaction).1.stage = c.stage := by
  induction h with
  | done => intro c; rfl
  | panic text => intro c; rfl
  | @act action next hne _ ih =>
    intro c
    have hperform : (c.perform close s action).1.stage = c.stage := by
      cases action with
      | send m =>
        rw [perform]
        split
        · rename_i c' hs
          obtain ⟨frame, queue, _, _, rfl⟩ := send_eq_ok hs
          rfl
        · rfl
      | close => exact absurd rfl hne
      | start loops => rfl
      | log line => rfl
    exact (ih _ _).trans hperform

variable (hopen : ∀ caller cb, (s.handler.react caller cb).KeepsOpen)
include hopen

theorem stage_call (c : Connection) (cb : Callback) : (c.call s cb).1.stage = c.stage :=
  stage_react (close s) (hopen _ _) (c.told cb)

theorem stage_report (c : Connection) (e : EngineError) : (c.report s e).stage = c.stage := by
  have hcounted : (c.countError e).stage = c.stage := by unfold countError; split <;> rfl
  have hcall := (stage_call hopen (c.countError e) (.error e)).trans hcounted
  rcases report_cases (s := s) c e with h | ⟨text, fields, h⟩ <;> rw [h] <;> exact hcall

theorem stage_deliver (c : Connection) (m : Message) : (c.deliver s m).stage = c.stage := by
  have hcall := stage_call hopen c (.message m)
  rcases deliver_cases (s := s) c m with h | ⟨text, fields, panic, h⟩ <;> rw [h]
  · exact hcall
  · exact (stage_report hopen _ _).trans hcall

end Connection
end FrameEngine
