import FrameEngine.SendQueue
import Mathlib.Data.List.Infix
import Mathlib.Data.List.Induction

/-!
# FrameEngine.Proofs.SendQueue

The queue as a channel between its producers and its consumer, with its closing and the loss of the
consumer in between at any time. `Traffic` writes down what has been accepted and what has been
popped. `Holds` is the invariant: as long as the consumer is there, what waits is exactly what makes
up the difference of the two.

`fifo_run` says what it means for the parties: what is popped is what was accepted, in that order,
nothing lost and nothing twice; when a push is accepted, and which error it gets else; and what is
left to the consumer once the producers are gone.
-/

namespace FrameEngine
namespace SendQueue

/-- Neither closed nor without its consumer. -/
def isOpen (q : SendQueue) : Bool := q.accepting && q.hasConsumer

variable {q : SendQueue} {frame : Octets}

theorem isOpen_iff : q.isOpen = true ↔ q.accepting = true ∧ q.hasConsumer = true :=
  Bool.and_eq_true_iff

/-! ## Pushes -/

theorem push_of_room (hopen : q.isOpen = true) (hroom : q.waiting.length < q.capacity) :
    q.push frame = .ok { q with waiting := q.waiting ++ [frame] } := by
  rw [push, if_pos (isOpen_iff.mp hopen), if_pos hroom]

theorem push_of_full (hopen : q.isOpen = true) (hfull : q.capacity ≤ q.waiting.length) :
    q.push frame = .error .sendBufferFull := by
  rw [push, if_pos (isOpen_iff.mp hopen), if_neg (Nat.not_lt.mpr hfull)]

theorem push_of_closed (hclosed : q.isOpen = false) :
    q.push frame = .error .connectionClosed := by
  rw [push, if_neg]
  rw [← isOpen_iff, hclosed]
  exact Bool.false_ne_true

/-- The three ways a push can go. -/
inductive Pushed (q : SendQueue) (frame : Octets) : Except EngineError SendQueue → Prop where
  | room (isOpen : q.isOpen = true) (fits : q.waiting.length < q.capacity) :
      Pushed q frame (.ok { q with waiting := q.waiting ++ [frame] })
  | full (isOpen : q.isOpen = true) (full : q.capacity ≤ q.waiting.length) :
      Pushed q frame (.error .sendBufferFull)
  | closed (isClosed : q.isOpen = false) : Pushed q frame (.error .connectionClosed)

theorem pushed_push (q : SendQueue) (frame : Octets) : Pushed q frame (q.push frame) := by
  cases hopen : q.isOpen with
  | false =>
    rw [push_of_closed hopen]
    exact .closed hopen
  | true =>
    obtain hroom | hfull := Nat.lt_or_ge q.waiting.length q.capacity
    · rw [push_of_room hopen hroom]
      exact .room hopen hroom
    · rw [push_of_full hopen hfull]
      exact .full hopen hfull

theorem push_isOk_iff :
    (∃ q', q.push frame = .ok q') ↔ q.isOpen = true ∧ q.waiting.length < q.capacity := by
  refine ⟨fun ⟨q', h⟩ => ?_, fun ⟨hopen, hroom⟩ => ⟨_, push_of_room hopen hroom⟩⟩
  have hpushed := pushed_push q frame
  rw [h] at hpushed
  cases hpushed with
  | room hopen hroom => exact ⟨hopen, hroom⟩

theorem push_eq_full_iff :
    q.push frame = .error .sendBufferFull ↔
      q.isOpen = true ∧ q.capacity ≤ q.waiting.length := by
  refine ⟨fun h => ?_, fun ⟨hopen, hfull⟩ => push_of_full hopen hfull⟩
  have hpushed := pushed_push q frame
  rw [h] at hpushed
  cases hpushed with
  | full hopen hfull => exact ⟨hopen, hfull⟩

theorem push_eq_closed_iff : q.push frame = .error .connectionClosed ↔ q.isOpen = false := by
  refine ⟨fun h => ?_, push_of_closed⟩
  have hpushed := pushed_push q frame
  rw [h] at hpushed
  cases hpushed with
  | closed hclosed => exact hclosed

theorem error_of_push {e : EngineError} (h : q.push frame = .error e) :
    e = .sendBufferFull ∨ e = .connectionClosed := by
  have hpushed := pushed_push q frame
  rw [h] at hpushed
  cases hpushed with
  | full => exact .inl rfl
  | closed => exact .inr rfl

/-- A push that is accepted closes nothing. -/
theorem isOpen_of_push {q' : SendQueue} (h : q.push frame = .ok q') : q'.isOpen = q.isOpen := by
  have hpushed := pushed_push q frame
  rw [h] at hpushed
  cases hpushed with
  | room => rfl

/-! ## The consumer -/

theorem isOpen_pop (q : SendQueue) : q.pop.2.isOpen = q.isOpen := by
  unfold pop
  split
  · split <;> rfl
  · rfl

/-- What the consumer sees of the queue if it pops so many times in a row. -/
def fronts (q : SendQueue) : Nat → List Front
  | 0 => []
  | n + 1 => q.pop.1 :: fronts q.pop.2 n

/-- What it sees when nothing waits. -/
def idle (q : SendQueue) : Front := if q.accepting then .empty else .disconnected

theorem pop_of_empty (hconsumer : q.hasConsumer = true) (hempty : q.waiting = []) :
    q.pop = (q.idle, q) := by
  rw [pop, if_pos hconsumer, hempty, idle]

theorem pop_of_waiting {rest : List Octets} (hconsumer : q.hasConsumer = true)
    (hnext : q.waiting = frame :: rest) : q.pop = (.frame frame, { q with waiting := rest }) := by
  rw [pop, if_pos hconsumer, hnext]

theorem fronts_of_empty (hconsumer : q.hasConsumer = true) (hempty : q.waiting = []) (n : Nat) :
    q.fronts n = List.replicate n q.idle := by
  induction n with
  | zero => rfl
  | succ n ih => rw [fronts, pop_of_empty hconsumer hempty, ih, List.replicate_succ]

theorem fronts_waiting (waiting : List Octets) (n : Nat) :
    ∀ q : SendQueue, q.hasConsumer = true → q.waiting = waiting →
      q.fronts (waiting.length + n) = waiting.map .frame ++ List.replicate n q.idle := by
  induction waiting with
  | nil =>
    intro q hconsumer hempty
    rw [List.length_nil, Nat.zero_add]
    exact fronts_of_empty hconsumer hempty n
  | cons f rest ih =>
    intro q hconsumer hwaiting
    have hrest := ih { q with waiting := rest } hconsumer rfl
    rw [List.length_cons, Nat.add_right_comm, fronts, pop_of_waiting hconsumer hwaiting]
    exact congrArg (Front.frame f :: ·) hrest

/-! ## Producers and consumer -/

/-- What the parties do to a queue. -/
inductive Act where
  | push (frame : Octets)
  | pop
  | close
  | dropConsumer
  deriving DecidableEq

/-- A queue with the frames that it has accepted and those that have been popped, each in turn. -/
structure Traffic where
  queue : SendQueue
  accepted : List Octets
  popped : List Octets
  deriving DecidableEq

namespace Traffic

def start (capacity : Nat) : Traffic := ⟨.new capacity, [], []⟩

def after (t : Traffic) : Act → Traffic
  | .push frame =>
    match t.queue.push frame with
    | .ok q => { t with queue := q, accepted := t.accepted ++ [frame] }
    | .error _ => t
  | .pop =>
    match t.queue.pop with
    | (.frame f, q) => { t with queue := q, popped := t.popped ++ [f] }
    | (_, q) => { t with queue := q }
  | .close => { t with queue := t.queue.close }
  | .dropConsumer => { t with queue := t.queue.dropConsumer }

def run (t : Traffic) (acts : List Act) : Traffic := acts.foldl after t

/-- All that a single act can do. -/
inductive Moves (t : Traffic) : Act → Traffic → Prop where
  | accepts {frame : Octets} (isOpen : t.queue.isOpen = true)
      (room : t.queue.waiting.length < t.queue.capacity) :
      Moves t (.push frame)
        { t with
          queue := { t.queue with waiting := t.queue.waiting ++ [frame] }
          accepted := t.accepted ++ [frame] }
  | refuses {frame : Octets} {e : EngineError} (refused : t.queue.push frame = .error e) :
      Moves t (.push frame) t
  | pops {frame : Octets} {rest : List Octets} (hasConsumer : t.queue.hasConsumer = true)
      (next : t.queue.waiting = frame :: rest) :
      Moves t .pop
        { t with queue := { t.queue with waiting := rest }, popped := t.popped ++ [frame] }
  | finds (front : t.queue.pop.2 = t.queue) : Moves t .pop t
  | closes : Moves t .close { t with queue := t.queue.close }
  | drops : Moves t .dropConsumer { t with queue := t.queue.dropConsumer }

theorem after_push_of_error {t : Traffic} {frame : Octets} {e : EngineError}
    (h : t.queue.push frame = .error e) : t.after (.push frame) = t := by
  rw [after, h]

theorem moves_push (t : Traffic) (frame : Octets) :
    Moves t (.push frame) (t.after (.push frame)) := by
  generalize hq : t.queue.push frame = pushed
  have hpushed := pushed_push t.queue frame
  rw [hq] at hpushed
  cases hpushed with
  | room hopen hroom =>
    rw [after, hq]
    exact .accepts hopen hroom
  | full hopen hfull =>
    rw [after_push_of_error hq]
    exact .refuses hq
  | closed hclosed =>
    rw [after_push_of_error hq]
    exact .refuses hq

theorem moves_pop (t : Traffic) : Moves t .pop (t.after .pop) := by
  cases hconsumer : t.queue.hasConsumer with
  | false =>
    have hpop : t.queue.pop = (.gone, t.queue) := if_neg (by rw [hconsumer]; exact nofun)
    rw [after, hpop]
    exact .finds (by rw [hpop])
  | true =>
    cases hwaiting : t.queue.waiting with
    | nil =>
      have hpop := pop_of_empty hconsumer hwaiting
      rw [after, hpop, idle]
      cases t.queue.accepting <;> exact .finds (by rw [hpop])
    | cons frame rest =>
      rw [after, pop_of_waiting hconsumer hwaiting]
      exact .pops hconsumer hwaiting

theorem moves_after (t : Traffic) (a : Act) : Moves t a (t.after a) := by
  cases a with
  | push frame => exact moves_push t frame
  | pop => exact moves_pop t
  | close => exact .closes
  | dropConsumer => exact .drops

variable {capacity : Nat} {acts : List Act} {a : Act} {t t' : Traffic}

theorem accepting_moves (h : Moves t a t') :
    t'.queue.accepting = true ↔ t.queue.accepting = true ∧ .close ≠ a := by
  cases h <;> simp [SendQueue.close, SendQueue.dropConsumer]

theorem hasConsumer_moves (h : Moves t a t') :
    t'.queue.hasConsumer = true ↔ t.queue.hasConsumer = true ∧ .dropConsumer ≠ a := by
  cases h <;> simp [SendQueue.close, SendQueue.dropConsumer]

/-- The queue and the record of it fit together. What has been popped is a prefix of what was
accepted also when the consumer has been lost, with the rest. -/
structure Holds (capacity : Nat) (t : Traffic) : Prop where
  size : t.queue.capacity = max capacity 1
  conserved : t.queue.hasConsumer = true → t.accepted = t.popped ++ t.queue.waiting
  fits : t.queue.waiting.length ≤ t.queue.capacity
  order : t.popped <+: t.accepted
  bound : t.accepted.length ≤ t.popped.length + t.queue.capacity

theorem holds_start (capacity : Nat) : Holds capacity (start capacity) where
  size := rfl
  conserved _ := rfl
  fits := Nat.zero_le _
  order := List.prefix_refl _
  bound := Nat.zero_le _

/-- While nothing is lost, the order and the bound are those of what waits. -/
theorem Holds.of_conserved (size : t.queue.capacity = max capacity 1)
    (conserved : t.accepted = t.popped ++ t.queue.waiting)
    (fits : t.queue.waiting.length ≤ t.queue.capacity) : Holds capacity t where
  size := size
  conserved _ := conserved
  fits := fits
  order := conserved ▸ List.prefix_append _ _
  bound := by
    rw [conserved, List.length_append]
    exact Nat.add_le_add_left fits _

theorem Holds.moves (h : Holds capacity t) (hm : Moves t a t') : Holds capacity t' := by
  cases hm with
  | accepts hopen hroom =>
    refine .of_conserved h.size ?_ ?_
    · rw [h.conserved (isOpen_iff.mp hopen).2, List.append_assoc]
    · rw [List.length_append]
      exact hroom
  | refuses => exact h
  | pops hconsumer hnext =>
    refine .of_conserved h.size ?_ ?_
    · rw [h.conserved hconsumer, hnext, List.append_assoc]
      rfl
    · have hfits := h.fits
      rw [hnext] at hfits
      exact Nat.le_of_succ_le hfits
  | finds => exact h
  | closes => exact ⟨h.size, h.conserved, h.fits, h.order, h.bound⟩
  | drops => exact ⟨h.size, nofun, Nat.zero_le _, h.order, h.bound⟩

theorem run_snoc (t : Traffic) (acts : List Act) (a : Act) :
    t.run (acts ++ [a]) = (t.run acts).after a := by
  rw [run, List.foldl_append]
  rfl

theorem holds_run (capacity : Nat) (acts : List Act) :
    Holds capacity ((start capacity).run acts) := by
  induction acts using List.reverseRecOn with
  | nil => exact holds_start capacity
  | append_singleton acts a ih =>
    rw [run_snoc]
    exact ih.moves (moves_after _ a)

/-- Only being closed closes the queue. -/
theorem accepting_run (capacity : Nat) (acts : List Act) :
    ((start capacity).run acts).queue.accepting = true ↔ .close ∉ acts := by
  induction acts using List.reverseRecOn with
  | nil => exact iff_of_true rfl List.not_mem_nil
  | append_singleton acts a ih =>
    rw [run_snoc, accepting_moves (moves_after _ a), ih, List.mem_append, List.mem_singleton,
      not_or]

theorem hasConsumer_run (capacity : Nat) (acts : List Act) :
    ((start capacity).run acts).queue.hasConsumer = true ↔ .dropConsumer ∉ acts := by
  induction acts using List.reverseRecOn with
  | nil => exact iff_of_true rfl List.not_mem_nil
  | append_singleton acts a ih =>
    rw [run_snoc, hasConsumer_moves (moves_after _ a), ih, List.mem_append, List.mem_singleton,
      not_or]

theorem isOpen_run (capacity : Nat) (acts : List Act) :
    ((start capacity).run acts).queue.isOpen = true ↔ .close ∉ acts ∧ .dropConsumer ∉ acts := by
  rw [isOpen_iff, accepting_run, hasConsumer_run]

/-! ## What the parties rely on -/

/-- As long as the consumer is there, what waits is what has been accepted and not popped. -/
theorem Holds.length_waiting (h : Holds capacity t) (hconsumer : t.queue.hasConsumer = true) :
    t.accepted.length = t.popped.length + t.queue.waiting.length := by
  rw [h.conserved hconsumer, List.length_append]

theorem Holds.room_iff (h : Holds capacity t) (hopen : t.queue.isOpen = true) :
    t.queue.waiting.length < t.queue.capacity ↔
      t.accepted.length < t.popped.length + max capacity 1 := by
  rw [h.length_waiting (isOpen_iff.mp hopen).2, h.size, Nat.add_lt_add_iff_left]

theorem Holds.waits_iff (h : Holds capacity t) :
    t.queue.capacity ≤ t.queue.waiting.length ↔ t.queue.waiting.length = max capacity 1 := by
  rw [← h.size]
  exact ⟨fun hfull => Nat.le_antisymm h.fits hfull, fun heq => heq.ge⟩

theorem Holds.full_iff (h : Holds capacity t) (hopen : t.queue.isOpen = true) :
    t.queue.capacity ≤ t.queue.waiting.length ↔
      t.accepted.length = t.popped.length + max capacity 1 := by
  rw [h.waits_iff, h.length_waiting (isOpen_iff.mp hopen).2, Nat.add_left_cancel_iff]

theorem Holds.drains (h : Holds capacity t) (hconsumer : t.queue.hasConsumer = true) :
    ∃ rest, t.accepted = t.popped ++ rest ∧ ∀ n, t.queue.fronts (rest.length + n) =
      rest.map .frame ++ List.replicate n t.queue.idle :=
  ⟨t.queue.waiting, h.conserved hconsumer, fun n => fronts_waiting _ n t.queue hconsumer rfl⟩

/-- What is true of a queue for so many frames after acts of its parties. -/
structure Fifo (capacity : Nat) (acts : List Act) (t : Traffic) : Prop where
  order : t.popped <+: t.accepted
  bound : t.accepted.length ≤ t.popped.length + max capacity 1
  accepts : ∀ frame, (∃ q, t.queue.push frame = .ok q) ↔
    .close ∉ acts ∧ .dropConsumer ∉ acts ∧
      t.accepted.length < t.popped.length + max capacity 1
  full : ∀ frame, t.queue.push frame = .error .sendBufferFull ↔
    .close ∉ acts ∧ .dropConsumer ∉ acts ∧
      t.accepted.length = t.popped.length + max capacity 1
  waits : ∀ frame, t.queue.push frame = .error .sendBufferFull →
    t.queue.waiting.length = max capacity 1
  refuses : ∀ frame, t.queue.push frame = .error .connectionClosed ↔
    .close ∈ acts ∨ .dropConsumer ∈ acts
  fails : ∀ frame e, t.queue.push frame = .error e →
    (e = .sendBufferFull ∨ e = .connectionClosed) ∧ t.after (.push frame) = t
  length : .close ∉ acts → .dropConsumer ∉ acts →
    t.queue.length = t.accepted.length - t.popped.length
  /-- All that was accepted can still be popped, and nothing else. -/
  drains : .dropConsumer ∉ acts → ∃ rest, t.accepted = t.popped ++ rest ∧
    ∀ n, t.queue.fronts (rest.length + n) =
      rest.map .frame ++ List.replicate n (if .close ∈ acts then .disconnected else .empty)

/-- The queue is a bounded channel that is first in, first out, whatever its size and whatever the
parties do in whatever order. -/
theorem fifo_run (capacity : Nat) (acts : List Act) :
    Fifo capacity acts ((start capacity).run acts) := by
  have hholds := holds_run capacity acts
  have hopen := isOpen_run capacity acts
  have haccepting := accepting_run capacity acts
  have hconsumer := hasConsumer_run capacity acts
  generalize (start capacity).run acts = t at hholds hopen haccepting hconsumer ⊢
  refine ⟨hholds.order, hholds.size ▸ hholds.bound, fun frame => ?_, fun frame => ?_,
    fun frame hfull => ?_, fun frame => ?_, fun frame e he => ?_, fun hclose hdrop => ?_,
    fun hdrop => ?_⟩
  · rw [push_isOk_iff, ← and_assoc, ← hopen]
    exact and_congr_right hholds.room_iff
  · rw [push_eq_full_iff, ← and_assoc, ← hopen]
    exact and_congr_right hholds.full_iff
  · exact hholds.waits_iff.mp (push_eq_full_iff.mp hfull).2
  · rw [push_eq_closed_iff, ← Bool.not_eq_true, hopen, ← not_or, not_not]
  · exact ⟨error_of_push he, after_push_of_error he⟩
  · rw [SendQueue.length, if_pos (haccepting.mpr hclose),
      hholds.length_waiting (hconsumer.mpr hdrop), Nat.add_sub_cancel_left]
  · have hidle : t.queue.idle = if .close ∈ acts then .disconnected else .empty := by
      by_cases hclose : Act.close ∈ acts
      · rw [idle, if_pos hclose, if_neg (fun ha => haccepting.mp ha hclose)]
      · rw [idle, if_neg hclose, if_pos (haccepting.mpr hclose)]
    exact hidle ▸ hholds.drains (hconsumer.mpr hdrop)

end Traffic
end SendQueue
end FrameEngine
