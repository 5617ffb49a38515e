import FrameEngine.Backoff
import Mathlib.Algebra.Group.Nat.Defs
import Mathlib.Data.List.Range
import Mathlib.Order.Lattice

/-!
# FrameEngine.Proofs.Backoff

The delays in closed form. A backoff doubles the delay that it gave last, and neither the doubling
nor the longest delay ever goes back. What it gives is still a function of how many delays there
have been since the last reset: `delayAfter`, with powers of two that are as large as they need to
be. The longest span is never seen, because the longest delay is a span itself.

An `Account` is a backoff in use, with what it has given since the last reset. `keeps_account` says
what every account keeps, whatever has been asked of it.
-/

namespace FrameEngine
namespace Backoff

/-- The delay that comes after so many others. -/
def delayAfter (base max : Span) : Nat → Span
  | 0 => base
  | i + 1 => min (base * 2 ^ (i + 1)) max

variable {base max : Span} {b : Backoff} {i j : Nat}

theorem delayAfter_le (h : base ≤ max) : delayAfter base max i ≤ max := by
  cases i with
  | zero => exact h
  | succ i => exact Nat.min_le_right _ _

theorem delayAfter_mono (h : base ≤ max) (hij : i ≤ j) :
    delayAfter base max i ≤ delayAfter base max j := by
  cases j with
  | zero => rw [Nat.le_zero.mp hij]
  | succ j =>
    refine Nat.le_min.mpr ⟨?_, delayAfter_le h⟩
    cases i with
    | zero => exact Nat.le_mul_of_pos_right _ (Nat.two_pow_pos _)
    | succ i =>
      calc min (base * 2 ^ (i + 1)) max ≤ base * 2 ^ (i + 1) := Nat.min_le_left _ _
        _ ≤ base * 2 ^ (j + 1) :=
          Nat.mul_le_mul_left _ (Nat.pow_le_pow_right Nat.two_pos hij)

/-- Whether the doubling stops at the longest span makes no difference below the longest delay. -/
theorem min_double (hmax : max ≤ Span.longest) (s : Span) :
    min s.double max = min (2 * s) max := by
  rw [Span.double, Nat.min_assoc, Nat.min_eq_right hmax]

theorem min_double_min (n m : Nat) : min (2 * min n m) m = min (2 * n) m := by
  omega

/-- One step of the running value. -/
theorem double_delayAfter (hmax : max ≤ Span.longest) :
    min (delayAfter base max i).double max = delayAfter base max (i + 1) := by
  rw [min_double hmax]
  cases i with
  | zero => rw [delayAfter, delayAfter, Nat.pow_one, Nat.mul_comm]
  | succ i =>
    rw [delayAfter, delayAfter, min_double_min, Nat.pow_succ 2 (i + 1), ← Nat.mul_assoc base,
      Nat.mul_comm 2 (base * _)]

/-- A backoff that has given so many delays. -/
def spent (b : Backoff) (i : Nat) : Backoff :=
  { b with current := delayAfter b.base b.max i, attempts := i }

theorem reset_spent : (b.spent i).reset = b.spent 0 := rfl

theorem next?_spent (hmax : b.max ≤ Span.longest) (h : i < b.maxRetries) :
    (b.spent i).next? = some (delayAfter b.base b.max i, b.spent (i + 1)) := by
  have hroom : (b.spent i).attempts < (b.spent i).maxRetries := h
  rw [next?, if_pos hroom]
  simp only [spent, double_delayAfter hmax]

theorem next?_spent_of_le (h : b.maxRetries ≤ i) : (b.spent i).next? = none :=
  if_neg (Nat.not_lt.mpr h)

/-- No jitter, whatever the sign of the zero. -/
theorem isJittered_new_zero (base max : Span) (budget : Nat) (negative : Bool) :
    (new base max budget (.zero negative)).isJittered = false := by
  have hclamp : clampFraction (.zero negative) = .zero negative := by
    cases negative <;> decide +kernel
  have hzero : (Binary64.zero false).lt (.zero negative) = false := by
    cases negative <;> decide
  rw [isJittered, new, hclamp, hzero]

/-- No jitter in the settings is no jitter in the backoff, however much of it is spent. -/
theorem isJittered_ofPolicy {policy : RetryPolicy} {negative : Bool}
    (h : policy.jitter = .zero negative) {i : Nat} :
    ((ofPolicy policy).spent i).isJittered = false := by
  have hnew := isJittered_new_zero policy.baseDelay policy.maxDelay policy.maxRetries negative
  rw [← h] at hnew
  exact hnew

/-! ## Backoffs in use -/

/-- What is asked of a backoff. -/
inductive Request where
  | delay
  | reset
  deriving DecidableEq

/-- A backoff with the delays that it has given since the last reset, in turn. -/
structure Account where
  backoff : Backoff
  granted : List Span
  deriving DecidableEq

namespace Account

def opened (b : Backoff) : Account := ⟨b, []⟩

def answer (a : Account) : Request → Account
  | .delay =>
    match a.backoff.next? with
    | some (delay, b) => ⟨b, a.granted ++ [delay]⟩
    | none => a
  | .reset => ⟨a.backoff.reset, []⟩

def answers (a : Account) (requests : List Request) : Account := requests.foldl answer a

/-- The account of a backoff that has given so many delays. -/
def after (b : Backoff) (i : Nat) : Account :=
  ⟨b.spent i, (List.range i).map (delayAfter b.base b.max)⟩

theorem answer_after (hmax : b.max ≤ Span.longest) (hi : i ≤ b.maxRetries) (r : Request) :
    ∃ j ≤ b.maxRetries, (after b i).answer r = after b j := by
  cases r with
  | reset => exact ⟨0, Nat.zero_le _, rfl⟩
  | delay =>
    obtain hlt | heq := Nat.lt_or_eq_of_le hi
    · refine ⟨i + 1, hlt, ?_⟩
      simp only [answer, after, next?_spent hmax hlt, List.range_succ, List.map_append,
        List.map_cons, List.map_nil]
    · refine ⟨i, hi, ?_⟩
      simp only [answer, after, next?_spent_of_le heq.ge]

theorem answers_after (hmax : b.max ≤ Span.longest) (requests : List Request) :
    ∀ i ≤ b.maxRetries, ∃ j ≤ b.maxRetries, (after b i).answers requests = after b j := by
  induction requests with
  | nil => exact fun i hi => ⟨i, hi, rfl⟩
  | cons r rest ih =>
    intro i hi
    obtain ⟨j, hj, hstep⟩ := answer_after hmax hi r
    rw [answers, List.foldl_cons, hstep]
    exact ih j hj

/-- What is true of a backoff and the delays that it has given since the last reset. -/
structure Keeps (base max : Span) (budget : Nat) (a : Account) : Prop where
  plain : a.backoff.isJittered = false
  counts : a.backoff.attempts = a.granted.length
  within : a.granted.length ≤ budget
  /-- There is no delay exactly when the budget is spent. -/
  refuses : a.backoff.next? = none ↔ a.granted.length = budget
  unmoved : a.granted.length = budget → a.answer .delay = a
  grants : a.granted.length < budget →
    ∃ b, a.backoff.next? = some (delayAfter base max a.granted.length, b) ∧
      b.attempts = a.granted.length + 1 ∧
      a.answer .delay = ⟨b, a.granted ++ [delayAfter base max a.granted.length]⟩
  formula : a.granted = (List.range a.granted.length).map (delayAfter base max)
  rises : base ≤ max → a.granted.Pairwise (· ≤ ·)

theorem keeps_after (hplain : b.isJittered = false) (hmax : b.max ≤ Span.longest)
    (hi : i ≤ b.maxRetries) : Keeps b.base b.max b.maxRetries (after b i) := by
  have hlength : (after b i).granted.length = i := by
    rw [after, List.length_map, List.length_range]
  refine ⟨hplain, ?_, ?_, ?_, ?_, ?_, ?_, ?_⟩
  · exact hlength.symm
  · exact hlength.trans_le hi
  · rw [hlength]
    refine ⟨fun hnone => ?_, fun heq => next?_spent_of_le heq.ge⟩
    by_contra hne
    have hsome := next?_spent hmax (Nat.lt_of_le_of_ne hi hne)
    exact Option.some_ne_none _ (hsome.symm.trans hnone)
  · intro heq
    rw [hlength] at heq
    simp only [answer, after, next?_spent_of_le heq.ge]
  · intro hlt
    rw [hlength] at hlt ⊢
    refine ⟨b.spent (i + 1), next?_spent hmax hlt, rfl, ?_⟩
    simp only [answer, after, next?_spent hmax hlt]
  · rw [hlength]
    rfl
  · intro hle
    refine List.pairwise_map.mpr (List.pairwise_lt_range.imp ?_)
    exact fun hlt => delayAfter_mono hle (Nat.le_of_lt hlt)

/-- Without jitter and for any base, any longest delay and any budget, an account keeps to the
formula whatever has been asked. -/
theorem keeps_account (base : Span) {max : Span} (hmax : max ≤ Span.longest) (budget : Nat)
    (negative : Bool) (requests : List Request) :
    Keeps base max budget
      ((opened (new base max budget (.zero negative))).answers requests) := by
  obtain ⟨i, hi, hafter⟩ :=
    answers_after (b := new base max budget (.zero negative)) hmax requests 0 (Nat.zero_le _)
  have hopened : opened (new base max budget (.zero negative)) =
      after (new base max budget (.zero negative)) 0 := rfl
  rw [hopened, hafter]
  exact keeps_after (isJittered_new_zero base max budget negative) hmax hi

/-- Next to the longest span, where the doubling is cut off: a spent budget, a reset, and again. -/
theorem keeps_account_of_longest :
    Span.longest ≤ Span.longest ∧
    Keeps (Span.longest - 1) Span.longest 2
      ((opened (new (Span.longest - 1) Span.longest 2 (.zero true))).answers
        [.delay, .delay, .delay, .reset, .delay, .delay]) ∧
    ((opened (new (Span.longest - 1) Span.longest 2 (.zero true))).answers
      [.delay, .delay, .delay, .reset, .delay, .delay]).granted =
        [Span.longest - 1, Span.longest] :=
  ⟨Nat.le_refl _, keeps_account _ (Nat.le_refl _) 2 true _, by decide +kernel⟩

example : ((opened (new (.ofMillis 1000) (.ofMillis 5000) 10 (.zero false))).answers
    (List.replicate 5 .delay)).granted.map Span.seconds = [1, 2, 4, 5, 5] := by
  decide +kernel

end Account
end Backoff
end FrameEngine
