import FrameEngine.Framing.Unpacking

/-!
# FrameEngine.Accumulator

The buffer that reads are added to and frames are taken from.
-/

namespace FrameEngine

/-- The octets that have been read and not yet used. -/
structure Accumulator where
  held : Octets
  deriving DecidableEq

namespace Accumulator

def empty : Accumulator := ⟨[]⟩

def length (a : Accumulator) : Nat := a.held.length

def isEmpty (a : Accumulator) : Bool := a.held.isEmpty

def append (a : Accumulator) (more : Octets) : Accumulator := ⟨a.held ++ more⟩

/-- Without the first `n` octets, which have to be there. -/
def consume (a : Accumulator) (n : Nat) : Except EngineError Accumulator :=
  if a.length < n then .error (.bufferUnderflow n a.length) else .ok ⟨a.held.drop n⟩

/-- Without what a failed attempt has spoilt, and how much that was. -/
def discard (a : Accumulator) (d : Discard) : Nat × Accumulator :=
  (d.amount a.length, ⟨a.held.drop (d.amount a.length)⟩)

theorem length_consume_lt {a b : Accumulator} {n : Nat} (h : a.consume n = .ok b) (hn : 0 < n) :
    b.length < a.length := by
  unfold consume at h
  split at h
  · cases h
  · cases h; simp only [length, List.length_drop] at *; omega

theorem length_discard_lt {a : Accumulator} {d : Discard} (hd : 0 < d.amount a.length) :
    (a.discard d).2.length < a.length := by
  have := d.amount_le a.length
  simp only [discard, length, List.length_drop] at *
  omega

end Accumulator
end FrameEngine
