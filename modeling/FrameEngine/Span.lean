/-!
# FrameEngine.Span

Lengths of time in nanoseconds, up to a longest one.
-/

namespace FrameEngine

/-- A length of time, in nanoseconds. -/
abbrev Span := Nat

namespace Span

def ofMillis (n : Nat) : Span := n * 1000000

def ofParts (seconds nanos : Nat) : Span := seconds * 1000000000 + nanos

/-- The longest span: 64 bits of seconds and all but one nanosecond of another. -/
def longest : Span := ofParts (UInt64.size - 1) 999999999

def millis (s : Span) : Nat := s / 1000000

def micros (s : Span) : Nat := s / 1000

def seconds (s : Span) : Nat := s / 1000000000

def subseconds (s : Span) : Nat := s % 1000000000

/-- Twice a span, or the longest one. -/
def double (s : Span) : Span := min (2 * s) longest

theorem millis_ofMillis (n : Nat) : millis (ofMillis n) = n :=
  Nat.mul_div_cancel n (by decide)

theorem ofParts_parts (s : Span) : ofParts (seconds s) (subseconds s) = s :=
  Nat.div_add_mod' s _

end Span
end FrameEngine
