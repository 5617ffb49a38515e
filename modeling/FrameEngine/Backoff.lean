import FrameEngine.Decimal.Binary64
import FrameEngine.Span

/-!
# FrameEngine.Backoff

Delays before retries. Each delay is twice the one before, up to a longest one; the number of
retries is bounded; a success forgets the failures before it.
-/

namespace FrameEngine

structure RetryPolicy where
  /-- Retries before giving up. -/
  maxRetries : Nat
  /-- The delay before the first retry. -/
  baseDelay : Span
  /-- The longest delay. -/
  maxDelay : Span
  /-- How much a delay may be drawn out at random, as a fraction of it. -/
  jitter : Binary64
  deriving DecidableEq

namespace RetryPolicy

/-- Three retries after 1, 2 and 4 seconds. -/
def standard : RetryPolicy := ⟨3, .ofMillis 1000, .ofMillis 10000, .zero false⟩

end RetryPolicy

structure Backoff where
  base : Span
  /-- The next delay. -/
  current : Span
  max : Span
  maxRetries : Nat
  /-- Retries since the last success. -/
  attempts : Nat
  /-- The fraction by which delays may be drawn out, between zero and one. -/
  jitter : Binary64
  deriving DecidableEq

namespace Backoff

/-- A fraction between zero and one: what lies outside is moved to the nearer end. -/
def clampFraction (x : Binary64) : Binary64 :=
  if x.lt (.zero false) then .zero false else if Binary64.one.lt x then .one else x

def new (base max : Span) (maxRetries : Nat) (jitter : Binary64) : Backoff :=
  ⟨base, base, max, maxRetries, 0, clampFraction jitter⟩

/-- No failure yet, under a policy. -/
def ofPolicy (p : RetryPolicy) : Backoff := new p.baseDelay p.maxDelay p.maxRetries p.jitter

def isJittered (b : Backoff) : Bool := (Binary64.zero false).lt b.jitter

/-- The delay before the next retry, before it is drawn out; none when all retries are spent. -/
def next? (b : Backoff) : Option (Span × Backoff) :=
  if b.attempts < b.maxRetries then
    some (b.current, { b with attempts := b.attempts + 1, current := min b.current.double b.max })
  else none

def reset (b : Backoff) : Backoff := { b with current := b.base, attempts := 0 }

/-- The delays that so many failures in a row are given, none where the retries are spent. -/
def delays (b : Backoff) : Nat → List (Option Span)
  | 0 => []
  | n + 1 =>
    match b.next? with
    | none => none :: delays b n
    | some (d, b) => some d :: delays b n

end Backoff
end FrameEngine
