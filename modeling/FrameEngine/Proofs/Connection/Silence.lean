import FrameEngine.Proofs.Connection.Lifecycle

/-!
# FrameEngine.Proofs.Connection.Silence

What a handler hears of a connection after it was told of the end. It hears no message, but it may
hear of errors (`calls_after_close`): of its own panic in the callback that closed the connection,
and of what the stream brings to tasks that have not seen the end yet.

The check on what the read loop is left with is such a case. It takes for granted that a drain goes
on until at most a part of one frame is left, but a drain stops early when a callback closes the
connection (`overflow_after_close`).
-/

namespace FrameEngine
namespace Connection

variable {s : Setup} {c : Connection}

/-- After the end come errors alone: perhaps the panic of the callback that closed, and then those
that a step brings which closes the connection or comes after its end. If there are none of these,
nothing comes. The counters of errors and of overflows tell how often the handler has heard of them,
so they change after the end with these calls and not otherwise. -/
theorem calls_after_close {ls : List Label} (run : Steps s (new s) ls c) :
    (∀ before stage after, c.callbacks = before ++ ⟨.close, stage⟩ :: after →
      (∃ rest, (after = rest ∨ ∃ e, s.handler.Panics e ∧ after = ⟨.error e, .closed⟩ :: rest) ∧
        ∀ call ∈ rest, Course.Trailing (Brought s (new s) ls) call) ∧
      ((∀ e, ¬ s.handler.Panics e) → (∀ e, ¬ Brought s (new s) ls e) → after = [])) ∧
    ((∀ l ∈ ls, l ≠ .receiveDirect) →
      c.metrics.errors = .ofNat (tellings .error c.callbacks) ∧
      c.metrics.bufferOverflows = .ofNat (tellings .bufferOverflow c.callbacks)) := by
  refine ⟨fun before stage after hc => ?_, fun hls => ?_⟩
  · obtain ⟨_, h⟩ := stretch_of_run false run nofun
    obtain ⟨rest, hafter, hrest⟩ := h.course.trailing_of_close hc
    refine ⟨⟨rest, hafter, hrest⟩, fun hpanics hbrought => ?_⟩
    have hnone : rest = [] := by
      refine List.eq_nil_iff_forall_not_mem.2 fun call hcall => ?_
      obtain ⟨e, _, he⟩ := hrest call hcall
      exact hbrought e he
    rcases hafter with rfl | ⟨e, he, _⟩
    · exact hnone
    · exact absurd he (hpanics e)
  · obtain ⟨_, h⟩ := stretch_of_run true run fun _ => hls
    have hcount : ∀ t, t.isHeard = true →
        c.metrics.count t = .ofNat (tellings t c.callbacks) := by
      intro t ht
      rw [h.counters rfl t ht]
      cases t <;> cases ht <;> exact UInt64.zero_add _
    exact ⟨hcount .error rfl, hcount .bufferOverflow rfl⟩

/-- A write that is interrupted when the connection has just been closed is reported. -/
theorem calls_after_close_of_interrupted_write :
    let s : Setup :=
      { id := 1, peer := none, localAddress := none, framing := .field 64,
        settings := { ConnectionSettings.standard with rateLimit := .zero false },
        handler := .quiet, chance := fun _ delay => delay }
    let ls : List Label :=
      [.start .writeOnly, .send (.field ⟨1, 1, []⟩), .wake .writer .go, .wake .writer .go, .close,
        .wake .writer (.write (.error (.ofKind .interrupted)))]
    ∃ c, Steps s (new s) ls c ∧ (∀ l ∈ ls, l ≠ .receiveDirect) ∧
      c.callbacks.map (fun call => (call.callback.name, call.stage)) =
        [("on_connect", .live), ("on_close", .closing), ("on_error", .closed)] ∧
      c.metrics.errors = .ofNat (tellings .error c.callbacks) ∧
      ∀ before stage after, c.callbacks = before ++ ⟨.close, stage⟩ :: after →
        ∃ rest, (after = rest ∨ ∃ e, s.handler.Panics e ∧ after = ⟨.error e, .closed⟩ :: rest) ∧
          ∀ call ∈ rest, Course.Trailing (Brought s (new s) ls) call := by
  intro s ls
  have hseen : (follow s (new s) ls).map (fun c =>
      c.callbacks.map (fun call => (call.callback.name, call.stage))) =
      some [("on_connect", .live), ("on_close", .closing), ("on_error", .closed)] := by
    decide +kernel
  obtain ⟨c, hrun, hcalls⟩ := Option.map_eq_some_iff.1 hseen
  have hls : ∀ l ∈ ls, l ≠ .receiveDirect := by simp [ls]
  have hsteps := steps_of_follow hrun
  obtain ⟨hafter, hcounters⟩ := calls_after_close hsteps
  exact ⟨c, hsteps, hls, hcalls, (hcounters hls).1, fun before stage after hc =>
    (hafter before stage after hc).1⟩

/-- One read brings a message and 65 octets more, and the handler closes the connection over the
message. The rest is not drained, and since no frame is longer than 64 octets it is reported as an
overflow, after the end. -/
theorem overflow_after_close :
    let s : Setup :=
      { id := 1, peer := none, localAddress := none, framing := .field 64,
        settings := { ConnectionSettings.standard with rateLimit := .zero false },
        handler :=
          { react := fun _ cb =>
              match cb with
              | .message _ => .act .close fun _ => .done
              | _ => .done
            notice := fun _ => ⟨[], none⟩ },
        chance := fun _ delay => delay }
    let ls : List Label := [.start .readWrite, .wake .reader .go, .wake .writer .go]
    let d : Octets := [0, 0, 0, 16, 0, 0, 0, 1, 0, 0, 0, 1, 0, 0, 0, 0] ++ List.replicate 65 0
    let seen (c : Connection) :=
      (c.callbacks.map (fun call => (call.callback.name, call.stage)), c.metrics.errors,
        c.metrics.bufferOverflows)
    ∃ b c, Steps s (new s) ls b ∧ b.step s (.wake .reader (.read (.ok d))) = some c ∧
      seen b = ([("on_connect", .live)], 0, 0) ∧
      seen c = ([("on_connect", .live), ("on_message", .live), ("on_close", .closing),
        ("on_error", .closed)], 1, 1) := by
  intro s ls d seen
  have hbefore : (follow s (new s) ls).map seen = some ([("on_connect", .live)], 0, 0) := by
    decide +kernel
  have hafter : ((follow s (new s) ls).bind (·.step s (.wake .reader (.read (.ok d))))).map seen =
      some ([("on_connect", .live), ("on_message", .live), ("on_close", .closing),
        ("on_error", .closed)], 1, 1) := by
    decide +kernel
  obtain ⟨b, hrun, hb⟩ := Option.map_eq_some_iff.1 hbefore
  rw [hrun] at hafter
  obtain ⟨c, hstep, hc⟩ := Option.map_eq_some_iff.1 hafter
  exact ⟨b, c, steps_of_follow hrun, hstep, hb, hc⟩

end Connection
end FrameEngine
