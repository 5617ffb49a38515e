/-!
# FrameEngine.Words

Powers of two and of ten, and the numbers that fit in signed words of 64 bits. The unsigned words
are counted by `UInt32.size` and `UInt64.size`.
-/

namespace FrameEngine

/-- The `n`-th power of two. -/
def twoTo (n : Nat) : Nat := 1 <<< n

/-- The `n`-th power of ten. -/
def tenTo (n : Nat) : Nat := Nat.pow 10 n

theorem twoTo_succ (n : Nat) : twoTo (n + 1) = 2 * twoTo n := Nat.shiftLeft_succ 1 n

theorem tenTo_zero : tenTo 0 = 1 := rfl

/-- Half of all words of 64 bits: a signed word lies below it, and not below its opposite. -/
def signedLimit : Nat := 9223372036854775808

theorem signedLimit_eq : 2 * signedLimit = UInt64.size := by decide

/-- Whether a number is a signed word of 64 bits. -/
def isSigned64 (n : Int) : Bool := -(signedLimit : Int) ≤ n ∧ n < (signedLimit : Int)

end FrameEngine
