import FrameEngine.Proofs.Connection.Loops

/-!
# FrameEngine.Proofs.Connection.DirectCalls

The direct calls as passages. A direct receive counts what it tells its caller, and the handler is
not told, so it is a passage that is not counted; a direct send is a passage like the others.
-/

namespace FrameEngine
namespace Connection

variable {s : Setup} {c c' c₁ : Connection} {late : EngineError → Prop} {counted : Bool}

theorem set_append_last {α : Type} (l : List α) (a b : α) :
    (l ++ [a]).set l.length b = l ++ [b] := by
  simp

theorem aspect_afterSend (c : Connection) (ticket : Nat) (p : WriteProgress) :
    ∃ d : DirectCall, d.isSend = true ∧
      (c.afterSend ticket p).aspect = { c.aspect with direct := c.direct.set ticket d } := by
  cases p with
  | goes job => exact ⟨.sending job, rfl, rfl⟩
  | ends result => exact ⟨.answered (result.map fun _ => none), rfl, rfl⟩

theorem passes_afterSend (ticket : Nat) (p : WriteProgress) :
    Passes s late counted c (c.afterSend ticket p) := by
  obtain ⟨d, hd, ha⟩ := aspect_afterSend c ticket p
  refine .of_direct ha fun _ hsends d' hd' => ?_
  rcases List.mem_or_eq_of_mem_set hd' with h | rfl
  · exact hsends d' h
  · exact hd

theorem passes_beginSend (c : Connection) (frame : Octets) :
    Passes s late counted c (c.beginSend s frame) := by
  unfold beginSend
  obtain ⟨ha, _⟩ := requestWrite_eq (s := s)
    { c with direct := c.direct ++ [DirectCall.locking] } (.direct c.direct.length) frame
  dsimp only
  generalize requestWrite s _ _ frame = r at ha ⊢
  obtain ⟨c₁, p⟩ := r
  obtain ⟨d, hd, hafter⟩ := aspect_afterSend c₁ c.direct.length p
  have hdirect : c₁.direct = c.direct ++ [DirectCall.locking] := congrArg Aspect.direct ha
  rw [show c₁.aspect = _ from ha, hdirect, set_append_last] at hafter
  refine .of_direct hafter fun _ hsends d' hd' => ?_
  rcases List.mem_append.1 hd' with h | h
  · exact hsends d' h
  · rw [List.mem_singleton.1 h]; exact hd

theorem passes_endReceive (ticket : Nat) (result : Except EngineError Message) :
    Passes s late false c (c.endReceive ticket result) :=
  .of_receive rfl rfl

theorem passes_receivePending (c : Connection) :
    Passes s late false c (c.receivePending s).1 := by
  unfold receivePending
  split
  · exact .refl c
  · split
    · split
      · exact .refl c
      · exact .of_receive rfl (Option.isSome_map ..)
    · split
      · dsimp only
        split
        · exact .of_receive rfl (Option.isSome_map ..)
        · exact .refl c
      · exact .of_receive rfl ((Option.isSome_map ..).trans (Option.isSome_map ..))

theorem passes_receiveMore (ticket : Nat) (b : Backoff) :
    Passes s late false c (c.receiveMore s ticket b) := by
  obtain ⟨taken, limiter, h⟩ := tryAcquire_eq c
  unfold receiveMore
  rw [h]
  cases taken <;> exact .of_receive rfl rfl

theorem passes_receiveRound (hs : c.stage ≠ .closing) (ticket : Nat) (b : Backoff) :
    Passes s late false c (c.receiveRound s ticket b) := by
  have hpending : Passes s late false c (c.receivePending s).1 := passes_receivePending c
  unfold receiveRound
  split <;> rename_i h <;> rw [h] at hpending
  · exact hpending.trans (passes_endReceive _ _) hs
  · exact hpending.trans (passes_receiveMore _ _) hs

theorem passes_takeReceive (hs : c.stage ≠ .closing) (ticket : Nat) :
    Passes s late false c (c.takeReceive s ticket) := by
  unfold takeReceive
  split
  · exact passes_receiveRound hs _ _
  · exact passes_endReceive _ _

theorem passes_beginReceive (hs : c.stage ≠ .closing) :
    Passes s late false c (c.beginReceive s) := by
  have hbegin : Passes s late false c { c with
      direct := c.direct ++ [DirectCall.locking]
      readLock := c.readLock.request (.direct c.direct.length) } := .of_receive rfl rfl
  unfold beginReceive
  dsimp only
  split
  · exact hbegin.trans (passes_takeReceive (hbegin.settled hs) _) hs
  · exact hbegin

theorem passes_failReceive (hs : c.stage ≠ .closing) (ticket : Nat) (e : EngineError) :
    Passes s late false c (c.failReceive s ticket e) := by
  have hend : Passes s late false c ({ c with readHalf := .gone }.endReceive ticket (.error e)) :=
    .of_receive rfl rfl
  unfold failReceive
  dsimp only
  split
  · exact hend.trans (passes_close (hend.settled hs)) hs
  · have hrecord : Passes s late false c
        (({ c with readHalf := .gone }.endReceive ticket (.error e)).record .error) :=
      hend.trans (.of_receive rfl (Option.isSome_map ..)) hs
    exact hrecord.trans (passes_close (hrecord.settled hs)) hs

/-- A direct receive under way rules out that only sends are. -/
theorem counted_eq_false {ticket : Nat} {d : DirectCall} (hx : counted = true → c.OnlySends)
    (hd : c.direct[ticket]? = some d) (hne : d.isSend = false) : counted = false := by
  refine Bool.eq_false_iff.2 fun h => ?_
  cases hne.symm.trans (hx h d (List.mem_of_getElem? hd))

/-- Once the connection is closed, a direct call reports a failure that may pass, and nothing
else. -/
theorem passes_stepDirect {ticket : Nat} {w : Wake} (hs : c.stage ≠ .closing)
    (hread : ∀ f, w = .read (.error f) → f.isTransient = true → late (.io f))
    (hwrite : ∀ f, w = .write (.error f) → f.isTransient = true → late (.io f))
    (htimer : w = .timer → late (.io (.ofKind .timedOut))) (hx : counted = true → c.OnlySends)
    (h : c.stepDirect s ticket w = some c') : Passes s late counted c c' := by
  cases directStep_of h with
  | sends sending write =>
    exact (passes_stepWrite write hs hwrite htimer).trans (passes_afterSend _ _) hs
  | enters locking held =>
    cases counted_eq_false hx locking rfl
    exact passes_takeReceive hs _
  | stops paused closed =>
    cases counted_eq_false hx paused rfl
    exact passes_endReceive _ _
  | resumes paused due =>
    cases counted_eq_false hx paused rfl
    exact passes_receiveMore _ _
  | goes reading read =>
    cases counted_eq_false hx reading rfl
    exact (passes_stepRead hs hread read).trans (.of_receive rfl rfl) hs
  | fails reading read =>
    cases counted_eq_false hx reading rfl
    have hpass : Passes s late false c _ := passes_stepRead hs hread read
    exact hpass.trans (passes_failReceive (hpass.settled hs) _ _) hs
  | @hears _ job c₁ d b reading read =>
    cases counted_eq_false hx reading rfl
    have hpass : Passes s late false c c₁ := passes_stepRead hs hread read
    have hpending : Passes s late false c { c₁ with pending := c₁.pending.append d } :=
      hpass.trans (.of_aspect rfl) hs
    exact hpending.trans (passes_receiveRound (hpending.settled hs) _ _) hs

end Connection
end FrameEngine
