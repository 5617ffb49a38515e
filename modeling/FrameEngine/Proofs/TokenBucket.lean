import FrameEngine.TokenBucket
import Mathlib.Data.Rat.Cast.Order
import Mathlib.Tactic.Linarith
import Mathlib.Tactic.Positivity
import Mathlib.Tactic.Ring

/-!
# FrameEngine.Proofs.TokenBucket

The bucket against the one that everybody has in mind. A `CountingBucket` counts its tokens: it
starts full, a token comes back bit by bit in each interval, and a call takes one if a whole one is
there. `TokenBucket` keeps a single time instead.

* `Mirrors`: the level is what is missing from the capacity for the time to have come.
* `counts_tokens`: the two give the same answers, whatever calls come at whatever times, and in no
  stretch of time are more calls admitted than the bucket holds and gets back.
* `answers_at_once`: what calls that all come at one time are answered, at any rate whatever. Times
  end with the last one of 64 bits, and a bucket whose tokens take longer than that is never empty.
-/

namespace FrameEngine

structure CountingBucket where
  interval : Nat
  capacity : Nat
  /-- The tokens that are there, the part of one included that has come back so far. -/
  level : Rat
  /-- When it was last looked at. -/
  seen : Nat

namespace CountingBucket

def full (interval capacity : Nat) : CountingBucket := ⟨interval, capacity, capacity, 0⟩

/-- The level at a time: one token more for each interval since, up to the capacity. -/
def levelAt (k : CountingBucket) (now : Nat) : Rat :=
  min k.capacity (k.level + ((now - k.seen : Nat) : Rat) / k.interval)

/-- Takes a token at a time, if a whole one is there. -/
def tryAcquire (k : CountingBucket) (now : Nat) : Bool × CountingBucket :=
  if 1 ≤ k.levelAt now then (true, { k with level := k.levelAt now - 1, seen := now })
  else (false, { k with level := k.levelAt now, seen := now })

/-- What calls at these times are answered, in turn. -/
def replies (k : CountingBucket) : List Nat → List Bool
  | [] => []
  | now :: later => (k.tryAcquire now).1 :: replies (k.tryAcquire now).2 later

end CountingBucket

namespace TokenBucket

variable {b b' : TokenBucket} {interval burst now : Nat}

/-- What calls at these times are answered, in turn. -/
def replies (b : TokenBucket) : List Nat → List Bool
  | [] => []
  | now :: later => (b.tryAcquire now).1 :: replies (b.tryAcquire now).2 later

/-- How many of the calls at these times are admitted at a time between two. -/
def admitted (b : TokenBucket) (first last : Nat) (times : List Nat) : Nat :=
  (times.zip (b.replies times)).countP fun call =>
    call.2 && decide (first ≤ call.1) && decide (call.1 ≤ last)

theorem saturate_of_lt {n : Nat} (h : n < UInt64.size) : saturate n = n :=
  Nat.min_eq_left (Nat.le_pred_of_lt h)

/-- A bucket of so many tokens, one at least, of which one comes back in each interval. -/
structure Holds (interval burst : Nat) (b : TokenBucket) : Prop where
  enabled : b.enabled = true
  spacing : b.interval = interval
  tolerance : b.tolerance = interval * (burst - 1)
  whole : 1 ≤ burst

theorem holds_ofInterval (hb : 1 ≤ burst) (hfits : burst * interval < UInt64.size) :
    Holds interval burst (ofInterval interval burst) := by
  refine ⟨rfl, rfl, ?_, hb⟩
  have hle : interval * (burst - 1) ≤ burst * interval := by
    rw [Nat.mul_comm burst]
    exact Nat.mul_le_mul_left _ (Nat.sub_le burst 1)
  simp only [ofInterval, Nat.max_eq_left hb]
  exact saturate_of_lt (Nat.lt_of_le_of_lt hle hfits)

/-- With less than all of its tokens out it gives one, which is then an interval longer out. -/
theorem tryAcquire_cases (h : Holds interval burst b)
    (hnow : now + burst * interval < UInt64.size) :
    (b.fullAt - now ≤ interval * (burst - 1) ∧
      b.tryAcquire now = (true, { b with fullAt := max b.fullAt now + interval })) ∨
    (interval * (burst - 1) < b.fullAt - now ∧ b.tryAcquire now = (false, b)) := by
  have hbase : max b.fullAt now - now = b.fullAt - now := by omega
  have hburst : interval * (burst - 1) + interval = burst * interval := by
    rw [← Nat.mul_succ, Nat.succ_eq_add_one, Nat.sub_add_cancel h.whole, Nat.mul_comm]
  simp only [tryAcquire, h.enabled, if_true, h.tolerance, h.spacing, hbase]
  split
  · rename_i hout
    exact .inr ⟨hout, rfl⟩
  · rename_i hin
    have hsat : saturate (max b.fullAt now + interval) = max b.fullAt now + interval :=
      saturate_of_lt (by omega)
    rw [hsat]
    exact .inl ⟨Nat.le_of_not_lt hin, rfl⟩

/-! ## The tokens at hand -/

/-- The whole tokens that are there at a time. -/
def available (b : TokenBucket) (now : Nat) : Nat :=
  (b.tolerance + b.interval - (b.fullAt - now)) / b.interval

theorem available_le (h : Holds interval burst b) : b.available now ≤ burst := by
  have hburst : interval * (burst - 1) + interval = burst * interval := by
    rw [← Nat.mul_succ, Nat.succ_eq_add_one, Nat.sub_add_cancel h.whole, Nat.mul_comm]
  rw [available, h.tolerance, h.spacing, hburst]
  exact Nat.div_le_of_le_mul (by rw [Nat.mul_comm interval]; exact Nat.sub_le _ _)

theorem Holds.tryAcquire (h : Holds interval burst b) (now : Nat) :
    Holds interval burst (b.tryAcquire now).2 := by
  unfold TokenBucket.tryAcquire
  split
  · dsimp only
    split
    · exact h
    · exact ⟨h.enabled, h.spacing, h.tolerance, h.whole⟩
  · exact h

/-- A call that is admitted takes one of them. -/
theorem available_tryAcquire (h : Holds interval burst b) (hi : 0 < interval)
    (hnow : now + burst * interval < UInt64.size) :
    (b.tryAcquire now).2.available now + (b.tryAcquire now).1.toNat = b.available now := by
  rcases tryAcquire_cases h hnow with ⟨hin, heq⟩ | ⟨hout, heq⟩
  · have hleft : max b.fullAt now + interval - now = b.fullAt - now + interval := by omega
    rw [heq]
    simp only [available, h.tolerance, h.spacing, hleft, Bool.toNat_true]
    rw [← Nat.add_div_right _ hi]
    congr 1
    omega
  · rw [heq]
    rfl

/-! ## The two buckets -/

/-- The tokens that the counting bucket lacks are those that are out of the other. -/
structure Mirrors (k : CountingBucket) (interval burst : Nat) (b : TokenBucket) : Prop where
  holds : Holds interval burst b
  spacing : k.interval = interval
  capacity : k.capacity = burst
  level : k.level = burst - ((b.fullAt - k.seen : Nat) : Rat) / interval

variable {k : CountingBucket}

theorem mirrors_full (h : Holds interval burst b) (hfull : b.fullAt = 0) :
    Mirrors (.full interval burst) interval burst b := by
  refine ⟨h, rfl, rfl, ?_⟩
  simp [CountingBucket.full, hfull]

/-- What comes back shortens what is out, until nothing is out. -/
theorem Mirrors.levelAt_eq (h : Mirrors k interval burst b) (hi : 0 < interval)
    (hnow : k.seen ≤ now) :
    k.levelAt now = burst - ((b.fullAt - now : Nat) : Rat) / interval := by
  have hpos : (0 : Rat) < interval := by exact_mod_cast hi
  rw [CountingBucket.levelAt, h.capacity, h.spacing, h.level]
  rcases Nat.le_total b.fullAt now with hback | hout
  · have hnone : b.fullAt - now = 0 := Nat.sub_eq_zero_of_le hback
    have hmore : ((b.fullAt - k.seen : Nat) : Rat) ≤ ((now - k.seen : Nat) : Rat) := by
      exact_mod_cast Nat.sub_le_sub_right hback _
    have hquot := (div_le_div_iff_of_pos_right hpos).2 hmore
    rw [hnone, Nat.cast_zero, zero_div, sub_zero]
    exact min_eq_left (by linarith)
  · have hsplit : ((b.fullAt - k.seen : Nat) : Rat) =
        ((b.fullAt - now : Nat) : Rat) + ((now - k.seen : Nat) : Rat) := by
      rw [← Nat.cast_add]
      congr 1
      omega
    have hnonneg : (0 : Rat) ≤ ((b.fullAt - now : Nat) : Rat) / interval := by positivity
    rw [hsplit, add_div]
    rw [min_eq_right (by linarith)]
    ring

theorem one_le_level_iff {out : Nat} (hi : 0 < interval) (hb : 1 ≤ burst) :
    (1 : Rat) ≤ burst - (out : Rat) / interval ↔ out ≤ interval * (burst - 1) := by
  have hpos : (0 : Rat) < interval := by exact_mod_cast hi
  rw [le_sub_comm, div_le_iff₀ hpos, mul_comm, ← Nat.cast_one, ← Nat.cast_sub hb, ← Nat.cast_mul,
    Nat.cast_le]

/-- One call: the same answer, and the buckets agree on what is left. -/
theorem Mirrors.tryAcquire (h : Mirrors k interval burst b) (hi : 0 < interval)
    (hseen : k.seen ≤ now) (hnow : now + burst * interval < UInt64.size) :
    (b.tryAcquire now).1 = (k.tryAcquire now).1 ∧ (k.tryAcquire now).2.seen = now ∧
      Mirrors (k.tryAcquire now).2 interval burst (b.tryAcquire now).2 := by
  have hpos : (0 : Rat) < interval := by exact_mod_cast hi
  have hlevel := h.levelAt_eq hi hseen
  have hiff : 1 ≤ k.levelAt now ↔ b.fullAt - now ≤ interval * (burst - 1) := by
    rw [hlevel]
    exact one_le_level_iff hi h.holds.whole
  rcases tryAcquire_cases h.holds hnow with ⟨hin, heq⟩ | ⟨hout, heq⟩
  · rw [heq, CountingBucket.tryAcquire, if_pos (hiff.2 hin)]
    refine ⟨rfl, rfl, ⟨h.holds.enabled, h.holds.spacing, h.holds.tolerance, h.holds.whole⟩,
      h.spacing, h.capacity, ?_⟩
    have hleft : max b.fullAt now + interval - now = b.fullAt - now + interval := by omega
    show k.levelAt now - 1 = _
    rw [hlevel, hleft, Nat.cast_add, add_div, div_self hpos.ne']
    ring
  · rw [heq, CountingBucket.tryAcquire, if_neg fun hone => Nat.not_lt.2 (hiff.1 hone) hout]
    exact ⟨rfl, rfl, h.holds, h.spacing, h.capacity, hlevel⟩

/-- By the calls, one after the other. -/
theorem Mirrors.replies_eq (hi : 0 < interval) {times : List Nat} :
    ∀ {b : TokenBucket} {k : CountingBucket}, Mirrors k interval burst b →
      times.Pairwise (· ≤ ·) → (∀ t ∈ times, k.seen ≤ t) →
      (∀ t ∈ times, t + burst * interval < UInt64.size) → b.replies times = k.replies times := by
  induction times with
  | nil => intro b k _ _ _ _; rfl
  | cons now later ih =>
    intro b k h sorted hseen hfits
    obtain ⟨hlater, hsorted⟩ := List.pairwise_cons.1 sorted
    obtain ⟨hreply, hnow, hnext⟩ := h.tryAcquire hi (hseen now List.mem_cons_self)
      (hfits now List.mem_cons_self)
    simp only [replies, CountingBucket.replies, hreply]
    congr 1
    refine ih hnext hsorted (fun t ht => ?_) fun t ht => hfits t (List.mem_cons_of_mem _ ht)
    rw [hnow]
    exact hlater t ht

/-! ## A stretch of time -/

theorem admitted_cons (b : TokenBucket) (first last now : Nat) (later : List Nat) :
    b.admitted first last (now :: later) = (b.tryAcquire now).2.admitted first last later +
      if ((b.tryAcquire now).1 && decide (first ≤ now) && decide (now ≤ last)) = true then 1
      else 0 := by
  simp only [admitted, replies, List.zip_cons_cons, List.countP_cons]

/-- Each token that is given out makes the bucket full an interval later, and the bucket is never
full later than its tokens take to come back. -/
theorem admitted_mul_le {first last : Nat} {times : List Nat} :
    ∀ {b : TokenBucket}, Holds interval burst b →
      (∀ t ∈ times, t + burst * interval < UInt64.size) →
      b.admitted first last times = 0 ∨
        b.admitted first last times * interval + max b.fullAt first ≤ last + burst * interval := by
  induction times with
  | nil => intro b _ _; exact .inl rfl
  | cons now later ih =>
    intro b h hfits
    have hfits' : ∀ t ∈ later, t + burst * interval < UInt64.size :=
      fun t ht => hfits t (List.mem_cons_of_mem _ ht)
    have hburst : interval * (burst - 1) + interval = burst * interval := by
      rw [← Nat.mul_succ, Nat.succ_eq_add_one, Nat.sub_add_cancel h.whole, Nat.mul_comm]
    rw [admitted_cons]
    rcases tryAcquire_cases h (hfits now List.mem_cons_self) with ⟨hin, heq⟩ | ⟨hout, heq⟩
    · have hnext : Holds interval burst { b with fullAt := max b.fullAt now + interval } :=
        ⟨h.enabled, h.spacing, h.tolerance, h.whole⟩
      have hrest := ih hnext hfits'
      rw [heq]
      generalize admitted _ first last later = n at hrest ⊢
      dsimp only at hrest ⊢
      by_cases hwithin : first ≤ now ∧ now ≤ last
      · right
        rw [if_pos (by simp [hwithin]), Nat.add_mul, Nat.one_mul]
        rcases hrest with rfl | hrest <;> omega
      · rw [if_neg (by simpa using hwithin), Nat.add_zero]
        exact hrest.imp_right fun hrest => by omega
    · rw [heq, if_neg (by simp)]
      exact ih h hfits'

theorem admitted_le {first length : Nat} {times : List Nat} (h : Holds interval burst b)
    (hi : 0 < interval) (hfits : ∀ t ∈ times, t + burst * interval < UInt64.size) :
    b.admitted first (first + length) times ≤ burst + length / interval := by
  have hcount : b.admitted first (first + length) times = 0 ∨
      b.admitted first (first + length) times * interval + max b.fullAt first ≤
        first + length + burst * interval := admitted_mul_le h hfits
  rcases hcount with hnone | hsome
  · rw [hnone]
    exact Nat.zero_le _
  · have hmul : b.admitted first (first + length) times * interval ≤
        length + burst * interval := by omega
    have hdiv := (Nat.le_div_iff_mul_le hi).2 hmul
    rwa [Nat.add_mul_div_right _ _ hi, Nat.add_comm (length / interval)] at hdiv

/-! ## What a bucket admits -/

theorem counts_tokens {times : List Nat} (hi : 1 ≤ interval) (hb : 1 ≤ burst)
    (sorted : times.Pairwise (· ≤ ·)) (hfits : ∀ t ∈ times, t + burst * interval < UInt64.size) :
    (ofInterval interval burst).replies times =
        (CountingBucket.full interval burst).replies times ∧
      ∀ first length, (ofInterval interval burst).admitted first (first + length) times ≤
        burst + length / interval := by
  cases times with
  | nil => exact ⟨rfl, fun first length => Nat.zero_le _⟩
  | cons now later =>
    have hfits₀ : burst * interval < UInt64.size :=
      Nat.lt_of_le_of_lt (Nat.le_add_left _ _) (hfits now List.mem_cons_self)
    have hholds := holds_ofInterval hb hfits₀
    refine ⟨(mirrors_full hholds rfl).replies_eq hi sorted (fun t _ => Nat.zero_le t) hfits, ?_⟩
    intro first length
    exact admitted_le hholds hi hfits

/-- Two tokens, ten nanoseconds for each: the third call finds none, the fifth just a whole one, and
a long pause brings no more than two. -/
theorem counts_tokens_of_pause :
    (ofInterval 10 2).replies [0, 3, 9, 10, 20, 29, 500, 500, 500] =
        [true, true, false, true, true, false, true, true, false] ∧
      (CountingBucket.full 10 2).replies [0, 3, 9, 10, 20, 29, 500, 500, 500] =
        [true, true, false, true, true, false, true, true, false] ∧
      (ofInterval 10 2).admitted 3 20 [0, 3, 9, 10, 20, 29, 500, 500, 500] ≤ 3 := by
  obtain ⟨hsame, hwindow⟩ := @counts_tokens 10 2 [0, 3, 9, 10, 20, 29, 500, 500, 500] (by decide)
    (by decide) (by decide) (by decide)
  have hreplies : (ofInterval 10 2).replies [0, 3, 9, 10, 20, 29, 500, 500, 500] =
      [true, true, false, true, true, false, true, true, false] := by decide
  exact ⟨hreplies, hsame.symm.trans hreplies, hwindow 3 17⟩

/-! ## At one instant -/

/-- So many tokens of a fresh bucket were given out at a time, and the bucket is full again an
interval later for each of them, or at the last time there is. -/
structure Taken (interval burst now out : Nat) (b : TokenBucket) : Prop where
  enabled : b.enabled = true
  spacing : b.interval = interval
  tolerance : b.tolerance = saturate (interval * (burst - 1))
  ahead : max b.fullAt now = saturate (now + out * interval)

variable {out calls : Nat}

theorem taken_ofInterval (hnow : now ≤ lastTime) :
    Taken interval (max burst 1) now 0 (ofInterval interval burst) := by
  refine ⟨rfl, rfl, rfl, ?_⟩
  simp [ofInterval, saturate, Nat.min_eq_left hnow]

/-- A call looks at how long the tokens that are out take to come back, as far as there is time. -/
theorem Taken.tryAcquire_cases (h : Taken interval burst now out b) (hnow : now ≤ lastTime) :
    (min (out * interval) (lastTime - now) ≤ saturate (interval * (burst - 1)) ∧
      (b.tryAcquire now).1 = true ∧ Taken interval burst now (out + 1) (b.tryAcquire now).2) ∨
    (saturate (interval * (burst - 1)) < min (out * interval) (lastTime - now) ∧
      b.tryAcquire now = (false, b)) := by
  have hbase : max b.fullAt now - now = min (out * interval) (lastTime - now) := by
    rw [h.ahead, saturate]
    omega
  simp only [TokenBucket.tryAcquire, h.enabled, if_true, h.tolerance, h.spacing, hbase]
  by_cases hout : saturate (interval * (burst - 1)) < min (out * interval) (lastTime - now)
  · rw [if_pos hout]
    exact .inr ⟨hout, rfl⟩
  · rw [if_neg hout]
    refine .inl ⟨Nat.le_of_not_lt hout, rfl, rfl, rfl, rfl, ?_⟩
    have hnext : (out + 1) * interval = out * interval + interval := Nat.succ_mul out interval
    simp only [h.ahead, saturate, hnext]
    omega

/-- Where the time at which the last token is back is not cut off, the bucket runs out. -/
theorem Taken.answers_of_lt (hi : 1 ≤ interval) (hnow : now ≤ lastTime)
    (hfits : now + interval * (burst - 1) < lastTime) :
    ∀ {calls out : Nat} {b : TokenBucket}, Taken interval burst now out b → out ≤ burst →
      1 ≤ burst → b.answers now calls =
        List.replicate (min calls (burst - out)) true ++
          List.replicate (calls - (burst - out)) false := by
  have htol : saturate (interval * (burst - 1)) = interval * (burst - 1) :=
    Nat.min_eq_left (by omega)
  intro calls
  induction calls with
  | zero =>
    intro out b _ _ _
    simp [answers]
  | succ calls ih =>
    intro out b h hout hb
    have hcases := h.tryAcquire_cases hnow
    rw [htol] at hcases
    rcases Nat.lt_or_eq_of_le hout with hleft | rfl
    · -- one of the burst is still there: its place in the bucket is within the tolerance
      have hin : out * interval ≤ interval * (burst - 1) := by
        rw [Nat.mul_comm]
        exact Nat.mul_le_mul_left _ (by omega)
      rcases hcases with ⟨-, hreply, hnext⟩ | ⟨hlate, -⟩
      · have hone : burst - out = burst - (out + 1) + 1 := by omega
        rw [answers, hreply, ih hnext hleft hb, hone, Nat.succ_min_succ, List.replicate_succ,
          Nat.add_sub_add_right, List.cons_append]
      · omega
    · have hlong : out * interval = interval * (out - 1) + interval := by
        rw [← Nat.mul_succ, Nat.succ_eq_add_one, Nat.sub_add_cancel hb, Nat.mul_comm]
      rcases hcases with ⟨hin, -, -⟩ | ⟨-, heq⟩
      · omega
      · rw [answers, heq, ih h le_rfl hb]
        simp [List.replicate_succ]

/-- Where it is cut off, the bucket is never further ahead of now than it may be. -/
theorem Taken.answers_of_le (hnow : now ≤ lastTime)
    (hfar : lastTime ≤ now + interval * (burst - 1)) :
    ∀ {calls out : Nat} {b : TokenBucket}, Taken interval burst now out b →
      b.answers now calls = List.replicate calls true := by
  intro calls
  induction calls with
  | zero => intro out b _; rfl
  | succ calls ih =>
    intro out b h
    rcases h.tryAcquire_cases hnow with ⟨-, hreply, hnext⟩ | ⟨hlate, -⟩
    · rw [answers, hreply, ih hnext, List.replicate_succ]
    · simp only [saturate] at hlate
      omega

/-- Calls at one time take the tokens there are and no more, and none is admitted after one that is
not; but if the last token would come back when the clock has run out, every one of them is
admitted. -/
theorem answers_at_once {rate : Binary64} (hrate : isLimit rate = true) (hnow : now ≤ lastTime) :
    (ofRate rate burst).answers now calls =
      if now + (ofRate rate burst).interval * (max burst 1 - 1) < lastTime then
        List.replicate (min calls (max burst 1)) true ++
          List.replicate (calls - max burst 1) false
      else List.replicate calls true := by
  simp only [ofRate, hrate, if_true]
  generalize hspacing : max ((nanosPerSecond.div rate).wholePart lastTime) 1 = interval
  have hi : 1 ≤ interval := hspacing ▸ Nat.le_max_right _ 1
  have htaken : Taken interval (max burst 1) now 0 (ofInterval interval burst) :=
    taken_ofInterval hnow
  have hsame : (ofInterval interval burst).interval = interval := rfl
  rw [hsame]
  split
  · rename_i hfits
    exact htaken.answers_of_lt hi hnow hfits (Nat.zero_le _) (Nat.le_max_right _ _)
  · rename_i hfar
    exact htaken.answers_of_le hnow (Nat.le_of_not_lt hfar)

/-- One token in a thousand seconds, with 50 of them to begin with. -/
theorem answers_at_once_of_slow :
    isLimit (.ofDecimal false 1 (-3)) = true ∧ 7 ≤ lastTime ∧
      (ofRate (.ofDecimal false 1 (-3)) 50).answers 7 60 =
        List.replicate 50 true ++ List.replicate 10 false := by
  have hrate : isLimit (.ofDecimal false 1 (-3)) = true := by decide +kernel
  have hnow : 7 ≤ lastTime := by decide
  have hspacing : (ofRate (.ofDecimal false 1 (-3)) 50).interval = 1000000000000 := by
    decide +kernel
  have hanswers := @answers_at_once 50 7 60 (.ofDecimal false 1 (-3)) hrate hnow
  rw [hspacing, if_pos (by decide)] at hanswers
  exact ⟨hrate, hnow, hanswers⟩

/-- One token in six hundred years, with two of them to begin with: the bucket would be full again
when the clock has run out, and a third call is admitted as well. -/
theorem third_of_two_tokens :
    isLimit (.ofDecimal false 5 (-11)) = true ∧
      (ofRate (.ofDecimal false 5 (-11)) 2).answers 0 9 = List.replicate 9 true := by
  decide +kernel

end TokenBucket
end FrameEngine
