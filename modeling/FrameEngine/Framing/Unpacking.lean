import FrameEngine.EngineError
import FrameEngine.Message

/-!
# FrameEngine.Framing.Unpacking

What an attempt to take a frame off the front of a buffer comes to. A failed attempt says how much
of the buffer it has spoilt (`Discard`); one that only needs more octets spoils nothing.
-/

namespace FrameEngine

/-- How much of a buffer a failed attempt has spoilt. -/
inductive Discard where
  | none
  /-- This many octets at the front. -/
  | bytes (n : Nat)
  /-- All: where the next frame begins is unknown. -/
  | all
  deriving DecidableEq

namespace Discard

/-- Octets to drop from a buffer of `length` octets. -/
def amount (length : Nat) : Discard → Nat
  | none => 0
  | bytes n => min n length
  | all => length

def text : Discard → String
  | none => "None"
  | bytes n => s!"Bytes({n})"
  | all => "All"

/-- The instruction for one who has to drop something: all, where it says nothing. -/
def orAll : Discard → Discard
  | none => all
  | d => d

theorem amount_le (length : Nat) (d : Discard) : d.amount length ≤ length := by
  cases d with
  | none => exact Nat.zero_le _
  | bytes n => exact Nat.min_le_right ..
  | all => exact Nat.le_refl _

theorem amount_le_orAll (length : Nat) (d : Discard) :
    d.amount length ≤ d.orAll.amount length := by
  cases d with
  | none => exact Nat.zero_le _
  | bytes n => exact Nat.le_refl _
  | all => exact Nat.le_refl _

end Discard

/-- Why no frame came off a buffer, and what to drop before the next attempt. -/
structure UnpackFailure where
  error : EngineError
  discard : Discard
  deriving DecidableEq

namespace UnpackFailure

def short : UnpackFailure := ⟨.shortRead, .none⟩

def isShort (f : UnpackFailure) : Bool := f.error.isShortRead

/-- A frame of `size` above `max` that takes `extent` octets of a buffer of `length`. If it is there
wholly it is dropped; otherwise its extent is not to be trusted, and all goes. -/
def tooLarge (size max extent length : Nat) : UnpackFailure :=
  ⟨.messageTooLarge size max, if extent ≤ length then .bytes extent else .all⟩

def text (f : UnpackFailure) : String := f.error.message ++ " (discard: " ++ f.discard.text ++ ")"

@[simp] theorem isShort_short : short.isShort = true := rfl

@[simp] theorem isShort_tooLarge (size max extent length : Nat) :
    (tooLarge size max extent length).isShort = false := rfl

/-- A frame above the limit is dropped whole or with all behind it. -/
theorem amount_tooLarge_pos {size max extent length : Nat} (he : 0 < extent) (hl : 0 < length) :
    0 < (tooLarge size max extent length).discard.amount length := by
  unfold tooLarge
  split <;> simp only [Discard.amount] <;> omega

end UnpackFailure

/-- A message and the octets its frame took, or why there is none. -/
abbrev Unpacking (α : Type) := Except UnpackFailure (α × Nat)

end FrameEngine
