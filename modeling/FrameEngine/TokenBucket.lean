import FrameEngine.Decimal.Binary64

/-!
# FrameEngine.TokenBucket

A limit on how often something is done. The bucket is kept as one number, the time at which it
will be full again: it lies ahead of now by one interval for each token that is out. Times are
nanoseconds in 64 bits, and additions stop at the last of them.
-/

namespace FrameEngine

structure TokenBucket where
  /-- Nanoseconds until a token comes back. -/
  interval : Nat
  /-- How far ahead of now the bucket's time may lie for one more token. -/
  tolerance : Nat
  /-- When the bucket is full again. -/
  fullAt : Nat
  /-- A bucket that is not enabled never runs out. -/
  enabled : Bool
  deriving DecidableEq

namespace TokenBucket

def lastTime : Nat := UInt64.size - 1

/-- A time, or the last one. -/
def saturate (n : Nat) : Nat := min n lastTime

/-- A full bucket of `burst` tokens, one at least, that gets one back in each interval. -/
def ofInterval (interval burst : Nat) : TokenBucket :=
  ⟨interval, saturate (interval * (max burst 1 - 1)), 0, true⟩

def nanosPerSecond : Binary64 := .ofNat 1000000000

def isLimit (rate : Binary64) : Bool := (Binary64.zero false).lt rate && rate.isFinite

/-- A full bucket of `burst` tokens that gets `rate` of them back in a second. -/
def ofRate (rate : Binary64) (burst : Nat) : TokenBucket :=
  if isLimit rate then
    ofInterval (max ((nanosPerSecond.div rate).wholePart lastTime) 1) burst
  else ⟨0, 0, 0, false⟩

def unlimited : TokenBucket := ofRate (.zero false) 1

/-- Takes a token at a time, if there is one. -/
def tryAcquire (b : TokenBucket) (now : Nat) : Bool × TokenBucket :=
  if b.enabled then
    let base := max b.fullAt now
    if b.tolerance < base - now then (false, b)
    else (true, { b with fullAt := saturate (base + b.interval) })
  else (true, b)

/-- What so many calls at one time are answered, in turn. -/
def answers (b : TokenBucket) (now : Nat) : Nat → List Bool
  | 0 => []
  | n + 1 => (b.tryAcquire now).1 :: answers (b.tryAcquire now).2 now n

end TokenBucket
end FrameEngine
