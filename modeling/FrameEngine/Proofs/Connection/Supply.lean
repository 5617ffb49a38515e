import FrameEngine.Proofs.Connection.Changes
import FrameEngine.Proofs.SendQueue

/-!
# FrameEngine.Proofs.Connection.Supply

A connection that is not closed can be given frames: its queue is not closed, and has its consumer
(`Supplied`). The queue is closed, and its consumer dropped, by the closing of the connection and by
the end of the write loop, which closes the connection first. So no step takes a side away from the
queue of a connection that it leaves open (`Upholds`, `upholds_step`).
-/

namespace FrameEngine
namespace Connection

/-- The queue of an open connection is open. -/
def Supplied (c : Connection) : Prop := c.isClosed = false → c.queue.isOpen = true

/-- If the connection is open after it, it was so before, and its queue has lost no side. -/
def Upholds (c c' : Connection) : Prop :=
  c'.isClosed = false → c.isClosed = false ∧ c'.queue.isOpen = c.queue.isOpen

variable {s : Setup} {c c' c'' : Connection} {ms : List Mark}

theorem supplied_new (s : Setup) : Supplied (new s) := fun _ => rfl

namespace Upholds

theorem supplied (h : Upholds c c') (hs : Supplied c) : Supplied c' := by
  intro hopen
  obtain ⟨hbefore, hqueue⟩ := h hopen
  exact hqueue.trans (hs hbefore)

theorem refl (c : Connection) : Upholds c c := fun h => ⟨h, rfl⟩

theorem trans (h : Upholds c c') (h' : Upholds c' c'') : Upholds c c'' := by
  intro hopen
  obtain ⟨hmiddle, hqueue'⟩ := h' hopen
  obtain ⟨hbefore, hqueue⟩ := h hmiddle
  exact ⟨hbefore, hqueue'.trans hqueue⟩

/-- What becomes of a connection that closes does not matter. -/
theorem of_closed (closed : c'.isClosed = true) : Upholds c c' :=
  fun hopen => absurd (closed.symm.trans hopen) nofun

theorem of_same (stage : c'.stage = c.stage) (queue : c'.queue.isOpen = c.queue.isOpen) :
    Upholds c c' := by
  intro hopen
  rw [isClosed, stage] at hopen
  exact ⟨hopen, queue⟩

theorem of_effect (h : Effect s c c') : Upholds c c' := by
  cases h with
  | note => exact .of_same rfl rfl
  | record => exact .of_same rfl rfl
  | queue packed pushed => exact .of_same rfl (SendQueue.isOpen_of_push pushed)
  | request => exact .of_same rfl rfl
  | beginClose => exact .of_closed rfl
  | tellClose => exact .of_same rfl rfl
  | endClose => exact .of_closed rfl

theorem of_change (h : Change s c ms c') : Upholds c c' := by
  cases h with
  | effect h => exact of_effect h
  | tell cb => exact .of_same rfl rfl
  | count t => exact .of_same rfl rfl
  | write data => exact .of_same rfl rfl
  | push pushed => exact .of_same rfl (SendQueue.isOpen_of_push pushed)
  | @pop frame queue popped =>
    have hqueue : queue.isOpen = c.queue.isOpen := by
      rw [← SendQueue.isOpen_pop c.queue, popped]
    exact .of_same rfl hqueue
  | strip closed => exact .of_closed closed
  | settle same =>
    exact .of_same (congrArg Core.stage same) (congrArg (fun core => core.queue.isOpen) same)

theorem of_changes (h : Changes s c ms c') : Upholds c c' := by
  induction h with
  | refl => exact refl c
  | tail _ last ih => exact ih.trans (of_change last)

end Upholds

/-- No step takes a side from the queue of a connection that it leaves open. -/
theorem upholds_step {l : Label} (h : c.step s l = some c') : Upholds c c' :=
  .of_changes (changes_step h)

end Connection
end FrameEngine
