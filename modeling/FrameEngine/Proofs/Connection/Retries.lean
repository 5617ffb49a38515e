import FrameEngine.Proofs.Connection.Changes
import FrameEngine.Proofs.Connection.Idleness
import FrameEngine.Proofs.Connection.Silence

/-!
# FrameEngine.Proofs.Connection.Retries

The counters of a connection against what happens to it. Most of them go with what its handler is
told, and `Passage` says so. Retries do not: the handler is told of the failure, and the counter is
of the delays that are granted after failures. `asks` says which backoff is asked for a delay when a
task goes on, and `grants` how many of these give one, along a run. A retry is marked among the
changes of a step (`Changes`), and nothing else touches the counter (`retried_step`).
-/

namespace FrameEngine

def Mark.isRetry : Mark → Bool
  | .retry => true
  | .overflow _ => false

theorem Metrics.retries_record (m : Metrics) (t : Tally) :
    (m.record t).retries = m.retries + .ofNat (t.marks.countP Mark.isRetry) := by
  cases t with
  | retry => rfl
  | connectionClosed =>
    by_cases hnone : m.connectionsActive = 0 <;> simp [Metrics.record, Tally.marks, hnone]
  | _ => exact (UInt64.add_zero _).symm

namespace Connection

/-- How many delays are granted along a run. -/
def grants (s : Setup) (c : Connection) : List Label → Nat
  | [] => 0
  | l :: ls =>
    Backoff.grants (c.asks l) +
      match c.step s l with
      | some c' => grants s c' ls
      | none => 0

variable {s : Setup} {c c' : Connection} {ms : List Mark}

/-! ## Steps -/

/-- Closing and callbacks count what goes wrong, and no retry. -/
theorem retries_of_effect (h : Effect s c c') : c'.metrics.retries = c.metrics.retries := by
  cases h with
  | @record t fault => cases t <;> first | rfl | cases fault
  | _ => rfl

theorem retries_of_change (h : Change s c ms c') :
    c'.metrics.retries = c.metrics.retries + .ofNat (ms.countP Mark.isRetry) := by
  cases h with
  | effect h => rw [retries_of_effect h]; exact (UInt64.add_zero _).symm
  | tell cb =>
    have hnone : (Call.marks ⟨cb, c.stage⟩).countP Mark.isRetry = 0 := by
      rw [Call.marks]
      split <;> rfl
    rw [hnone]
    exact (UInt64.add_zero _).symm
  | count t => exact c.metrics.retries_record t
  | settle same =>
    rw [show c'.metrics = c.metrics from congrArg Core.metrics same]
    exact (UInt64.add_zero _).symm
  | _ => exact (UInt64.add_zero _).symm

/-- The retries that are counted are those that are marked. -/
theorem retries_of_changes (h : Changes s c ms c') :
    c'.metrics.retries = c.metrics.retries + .ofNat (ms.countP Mark.isRetry) := by
  induction h with
  | refl => exact (UInt64.add_zero _).symm
  | tail _ last ih =>
    rw [retries_of_change last, ih, List.countP_append, UInt64.ofNat_add, UInt64.add_assoc]

theorem countP_marks (c : Connection) (l : Label) :
    (c.marks s l).countP Mark.isRetry = Backoff.grants (c.asks l) := by
  have hspilt : ((c.spilt s l).map Mark.overflow).countP Mark.isRetry = 0 := by
    rw [List.countP_map]
    exact List.countP_eq_zero.2 fun call _ => nofun
  rw [marks, List.countP_append, hspilt, Backoff.marks, List.countP_replicate]
  rfl

/-- From the one to the other, as many retries were counted as delays were given. -/
def Retried (asked : Option Backoff) (c c' : Connection) : Prop :=
  c'.metrics.retries = c.metrics.retries + .ofNat (Backoff.grants asked)

theorem retried_step {l : Label} (h : c.step s l = some c') : Retried (c.asks l) c c' := by
  rw [Retried, retries_of_changes (changes_step h), countP_marks]

theorem retries_steps {ls : List Label} (run : Steps s c ls c') :
    c'.metrics.retries = c.metrics.retries + .ofNat (grants s c ls) := by
  induction run with
  | nil c => exact (UInt64.add_zero _).symm
  | @cons a b _ l ls first _ ih =>
    have hone : b.metrics.retries = a.metrics.retries + .ofNat (Backoff.grants (a.asks l)) :=
      retried_step first
    rw [ih, hone, grants, first, UInt64.ofNat_add, UInt64.add_assoc]

/-! ## The counters -/

/-- What the counters are, by what the handler was told and by the delays that were granted. -/
structure Reckoned (s : Setup) (ls : List Label) (c : Connection) : Prop where
  errors : c.metrics.errors = .ofNat (tellings .error c.callbacks)
  protocolErrors : c.metrics.protocolErrors = .ofNat (tellings .protocolError c.callbacks)
  messagesReceived : c.metrics.messagesReceived = .ofNat (tellings .messageReceived c.callbacks)
  bufferOverflows : c.metrics.bufferOverflows = .ofNat (tellings .bufferOverflow c.callbacks)
  idleTimeouts : c.metrics.idleTimeouts = .ofNat (tellings .idleTimeout c.callbacks)
  silence : tellings .idleTimeout c.callbacks ≤ 1
  retries : c.metrics.retries = .ofNat (grants s (new s) ls)

/-- Direct receives are left out: they count errors and messages that the handler is not told. -/
theorem counters_of_callbacks {ls : List Label} (run : Steps s (new s) ls c)
    (hls : ∀ l ∈ ls, l ≠ .receiveDirect) : Reckoned s ls c := by
  obtain ⟨_, stretch⟩ := stretch_of_run true run fun _ => hls
  have hcount : ∀ t, t.isHeard = true → c.metrics.count t = .ofNat (tellings t c.callbacks) := by
    intro t ht
    rw [stretch.counters rfl t ht]
    cases t <;> cases ht <;> exact UInt64.zero_add _
  have hsilences : c.silences = c.silenced.toNat := silences_steps run rfl
  refine ⟨hcount .error rfl, hcount .protocolError rfl, hcount .messageReceived rfl,
    hcount .bufferOverflow rfl, hcount .idleTimeout rfl, ?_, ?_⟩
  · exact Nat.le_trans (Nat.le_of_eq hsilences) (Bool.toNat_le _)
  · rw [retries_steps run]
    exact UInt64.zero_add _

/-- A read fails and is tried again. It brings a message, over which the handler panics, and octets
that are no frame; then there is silence. -/
theorem counters_of_callbacks_of_panic :
    let s : Setup :=
      { id := 1, peer := none, localAddress := none, framing := .field 64,
        settings :=
          { ConnectionSettings.standard with
            rateLimit := .zero false
            idleTimeout := .ofMillis 5000
            idleCheckInterval := .ofMillis 100 },
        handler :=
          { react := fun _ cb =>
              match cb with
              | .message _ => .panic none
              | _ => .done
            notice := fun _ => ⟨[], none⟩ },
        chance := fun _ delay => delay }
    let d : Octets := [0, 0, 0, 16, 0, 0, 0, 1, 0, 0, 0, 1, 0, 0, 0, 0] ++ List.replicate 16 255
    let ls : List Label :=
      [.start .full, .wake .reader .go, .wake .writer .go, .wake .idler .go,
        .wake .reader (.read (.error (.ofKind .interrupted))),
        .tick (.ofMillis 1000) (.ofMillis 1000), .wake .reader .timer,
        .wake .reader (.read (.ok d)), .tick (.ofMillis 5100) (.ofMillis 5100),
        .wake .idler .timer, .wake .reader .cancelled]
    ∃ c, Steps s (new s) ls c ∧ (∀ l ∈ ls, l ≠ .receiveDirect) ∧ Reckoned s ls c ∧
      c.callbacks.map (·.callback.name) = ["on_connect", "on_error", "on_message", "on_error",
        "on_error", "on_error", "on_close"] ∧
      c.metrics = { Metrics.zero with
        bytesReceived := 32, messagesReceived := 1, errors := 4, protocolErrors := 1,
        idleTimeouts := 1, retries := 1 } := by
  intro s d ls
  have hseen : (follow s (new s) ls).map (fun c =>
      (c.callbacks.map (·.callback.name), c.metrics)) =
      some (["on_connect", "on_error", "on_message", "on_error", "on_error", "on_error",
        "on_close"], { Metrics.zero with
        bytesReceived := 32, messagesReceived := 1, errors := 4, protocolErrors := 1,
        idleTimeouts := 1, retries := 1 }) := by
    decide +kernel
  obtain ⟨c, hrun, hc⟩ := Option.map_eq_some_iff.1 hseen
  obtain ⟨hcalls, hmetrics⟩ := Prod.mk.inj hc
  have hls : ∀ l ∈ ls, l ≠ .receiveDirect := by simp [ls]
  have hsteps := steps_of_follow hrun
  exact ⟨c, hsteps, hls, counters_of_callbacks hsteps hls, hcalls, hmetrics⟩

end Connection
end FrameEngine
