import Mathlib.Data.List.TakeWhile

/-!
# FrameEngine.Proofs.Text.Runs

A run of characters or octets of one kind, up to the first of another, is what a scanner takes off
the front of a text.
-/

namespace FrameEngine

variable {α : Type} {p : α → Bool} {run rest : List α}

theorem takeWhile_run (h : ∀ x ∈ run, p x = true) (hr : ∀ x ∈ rest.head?, p x = false) :
    (run ++ rest).takeWhile p = run := by
  rw [List.takeWhile_append_of_pos h]
  cases rest with
  | nil => rw [List.takeWhile_nil, List.append_nil]
  | cons x rest => rw [List.takeWhile_cons, hr x rfl]; simp

theorem dropWhile_run (h : ∀ x ∈ run, p x = true) (hr : ∀ x ∈ rest.head?, p x = false) :
    (run ++ rest).dropWhile p = rest := by
  rw [List.dropWhile_append_of_pos h]
  cases rest with
  | nil => rfl
  | cons x rest => rw [List.dropWhile_cons, hr x rfl]; simp

end FrameEngine
