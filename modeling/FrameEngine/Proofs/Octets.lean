import FrameEngine.Octets

/-!
# FrameEngine.Proofs.Octets

Octets by their places. `slice?`, `wordAt?` and `before?` answer only when every place they are asked
for exists, so an answer shows that nothing was read outside the sequence.

`AgreeOutside lo hi x y`: two sequences of one length that differ nowhere but from `lo` up to `hi`.
Such sequences have a common front and a common back (`exists_split_of_agreeOutside`), and read the
same wherever they agree (`slice?_congr`, `wordAt?_congr`).
-/

namespace FrameEngine
namespace Octets

/-- The octets from `lo` up to `hi`; none unless all of these places exist. -/
def slice? (buf : Octets) (lo hi : Nat) : Option Octets :=
  if lo ≤ hi ∧ hi ≤ buf.length then some ((buf.drop lo).take (hi - lo)) else none

/-- The place `n` before `place`; none unless it exists. -/
def before? (place n : Nat) : Option Nat :=
  if n ≤ place then some (place - n) else none

/-- The word whose first octet stands at `i`; none unless all four are there. -/
def wordAt? (buf : Octets) (i : Nat) : Option UInt32 :=
  match slice? buf i (i + 4) with
  | none => none
  | some octets => (word? octets).map Prod.fst

theorem ofWord_inj {v w : UInt32} (h : ofWord v = ofWord w) : v = w := by
  have hv := word?_ofWord v []
  rw [h, word?_ofWord] at hv
  cases hv; rfl

@[simp] theorem length_ofHalf (w : UInt16) : (ofHalf w).length = 2 := rfl

theorem ofHalf_half (a b : UInt8) : ofHalf (half a b) = [a, b] := by
  have := a.toNat_lt; have := b.toNat_lt
  simp only [ofHalf, half, UInt16.toNat_ofNat', List.cons.injEq, and_true]
  refine ⟨?_, ?_⟩ <;> apply UInt8.toNat_inj.1 <;> simp only [UInt8.toNat_ofNat'] <;> omega

theorem exists_word? (buf : Octets) (h : 4 ≤ buf.length) : ∃ w rest, word? buf = some (w, rest) := by
  cases hw : word? buf with
  | none => rw [word?_eq_none_iff] at hw; omega
  | some p => exact ⟨p.1, p.2, rfl⟩

theorem exists_cons_cons (buf : Octets) (h : 2 ≤ buf.length) : ∃ a b rest, buf = a :: b :: rest := by
  match buf, h with
  | a :: b :: rest, _ => exact ⟨a, b, rest, rfl⟩

theorem getElem?_of_drop {buf rest : Octets} {i : Nat} {a : UInt8} (h : buf.drop i = a :: rest) :
    buf[i]? = some a := by
  have hd : (buf.drop i)[0]? = buf[i + 0]? := List.getElem?_drop
  rw [h] at hd
  exact hd.symm

theorem before?_of_le {place n : Nat} (h : n ≤ place) : before? place n = some (place - n) := if_pos h

theorem slice?_of_le {buf : Octets} {lo hi : Nat} (h : lo ≤ hi) (hb : hi ≤ buf.length) :
    slice? buf lo hi = some ((buf.drop lo).take (hi - lo)) := if_pos ⟨h, hb⟩

theorem slice?_append {buf : Octets} {lo hi : Nat} (hb : hi ≤ buf.length) (more : Octets) :
    slice? (buf ++ more) lo hi = slice? buf lo hi := by
  by_cases h : lo ≤ hi
  · rw [slice?_of_le h hb, slice?_of_le h (by rw [List.length_append]; omega),
      List.drop_append_of_le_length (by omega),
      List.take_append_of_le_length (by rw [List.length_drop]; omega)]
  · simp [slice?, h]

theorem slice?_congr {x y : Octets} {lo hi : Nat} (hl : x.length = y.length)
    (h : ∀ i, lo ≤ i → i < hi → x[i]? = y[i]?) : slice? x lo hi = slice? y lo hi := by
  have : (x.drop lo).take (hi - lo) = (y.drop lo).take (hi - lo) := by
    apply List.ext_getElem?
    intro i
    rw [List.getElem?_take, List.getElem?_take]
    split
    · rw [List.getElem?_drop, List.getElem?_drop, h _ (by omega) (by omega)]
    · rfl
  rw [slice?, slice?, hl, this]

theorem wordAt?_eq_none_iff {buf : Octets} {i : Nat} :
    wordAt? buf i = none ↔ buf.length < i + 4 := by
  unfold wordAt?
  by_cases h : i + 4 ≤ buf.length
  · have hs := slice?_of_le (Nat.le_add_right i 4) h
    rw [hs]
    simp only [Option.map_eq_none_iff, word?_eq_none_iff, List.length_take, List.length_drop]
    omega
  · have hs : slice? buf i (i + 4) = none := by simp [slice?, h]
    rw [hs]
    simp only [true_iff]
    omega

theorem le_of_wordAt? {buf : Octets} {i : Nat} {w : UInt32} (h : wordAt? buf i = some w) :
    i + 4 ≤ buf.length := by
  rcases Nat.lt_or_ge buf.length (i + 4) with hlt | hge
  · rw [wordAt?_eq_none_iff.2 hlt] at h; cases h
  · exact hge

theorem wordAt?_of_drop {buf rest : Octets} {i : Nat} {w : UInt32}
    (h : buf.drop i = ofWord w ++ rest) : wordAt? buf i = some w := by
  have hl := congrArg List.length h
  rw [List.length_drop, List.length_append, length_ofWord] at hl
  have hs : slice? buf i (i + 4) = _ := slice?_of_le (Nat.le_add_right i 4) (by omega)
  have ht : (ofWord w ++ rest).take (i + 4 - i) = ofWord w ++ [] := by
    rw [Nat.add_sub_cancel_left]; rfl
  rw [h, ht] at hs
  rw [wordAt?, hs]
  simp only [word?_ofWord, Option.map_some]

theorem wordAt?_append {buf : Octets} {i : Nat} (h : i + 4 ≤ buf.length) (more : Octets) :
    wordAt? (buf ++ more) i = wordAt? buf i := by
  rw [wordAt?, slice?_append h, ← wordAt?]

theorem wordAt?_congr {x y : Octets} {i : Nat} (hl : x.length = y.length)
    (h : ∀ k, i ≤ k → k < i + 4 → x[k]? = y[k]?) : wordAt? x i = wordAt? y i := by
  rw [wordAt?, slice?_congr hl h, ← wordAt?]

/-! ## The first pair -/

/-- By the search, which goes on behind an octet that begins no pair. -/
theorem findPairFrom?_append {a b : UInt8} {buf : Octets} {before n : Nat}
    (h : findPairFrom? a b before buf = some n) (more : Octets) :
    findPairFrom? a b before (buf ++ more) = some n := by
  induction buf generalizing before with
  | nil => simp [findPairFrom?] at h
  | cons x rest ih =>
    cases rest with
    | nil => simp [findPairFrom?] at h
    | cons y rest =>
      simp only [findPairFrom?, List.cons_append] at h ⊢
      split at h
      · rw [if_pos ‹_›]; exact h
      · rw [if_neg ‹_›]; exact ih h

/-- As long as the pair is not there wholly, it is not found. -/
theorem findPairFrom?_take {a b : UInt8} {buf : Octets} {before n k : Nat}
    (h : findPairFrom? a b before buf = some n) (hk : before + k < n + 2) :
    findPairFrom? a b before (buf.take k) = none := by
  induction buf generalizing before k with
  | nil => simp [findPairFrom?] at h
  | cons x rest ih =>
    cases rest with
    | nil => simp [findPairFrom?] at h
    | cons y rest =>
      simp only [findPairFrom?] at h
      rcases k with _ | _ | k
      · rfl
      · rfl
      · split at h
        · cases h; omega
        · have hrest := ih (k := k + 1) h (by omega)
          simp only [List.take_succ_cons] at hrest ⊢
          rw [findPairFrom?, if_neg ‹_›]
          exact hrest

theorem findPair?_append {a b : UInt8} {buf : Octets} {n : Nat} (h : findPair? a b buf = some n)
    (more : Octets) : findPair? a b (buf ++ more) = some n := findPairFrom?_append h more

theorem findPair?_take {a b : UInt8} {buf : Octets} {n k : Nat} (h : findPair? a b buf = some n)
    (hk : k < n + 2) : findPair? a b (buf.take k) = none :=
  findPairFrom?_take h (by omega)

/-! ## Sequences that differ in a window -/

/-- Of one length, and the same at every place before `lo` and at every place from `hi` on. -/
def AgreeOutside (lo hi : Nat) (x y : Octets) : Prop :=
  x.length = y.length ∧ ∀ i, i < lo ∨ hi ≤ i → x[i]? = y[i]?

theorem agreeOutside_append (before : Octets) {u v : Octets} (behind : Octets)
    (h : u.length = v.length) : AgreeOutside before.length (before.length + u.length)
      (before ++ (u ++ behind)) (before ++ (v ++ behind)) := by
  refine ⟨by simp only [List.length_append, h], fun i hi => ?_⟩
  by_cases hlt : i < before.length
  · rw [List.getElem?_append_left hlt, List.getElem?_append_left hlt]
  · rw [List.getElem?_append_right (by omega), List.getElem?_append_right (by omega),
      List.getElem?_append_right (by omega), List.getElem?_append_right (by omega), h]

/-- What is common stands before and behind two parts no longer than the window. -/
theorem exists_split_of_agreeOutside {lo hi : Nat} {x y : Octets} (h : AgreeOutside lo hi x y) :
    ∃ before u v behind, x = before ++ (u ++ behind) ∧ y = before ++ (v ++ behind) ∧
      u.length = v.length ∧ u.length ≤ hi - lo := by
  obtain ⟨hl, he⟩ := h
  have hfront : x.take lo = y.take lo := by
    apply List.ext_getElem?
    intro i
    rw [List.getElem?_take, List.getElem?_take]
    split
    · exact he i (.inl ‹_›)
    · rfl
  have hback : (x.drop lo).drop (hi - lo) = (y.drop lo).drop (hi - lo) := by
    apply List.ext_getElem?
    intro i
    simp only [List.getElem?_drop]
    exact he _ (by omega)
  refine ⟨x.take lo, (x.drop lo).take (hi - lo), (y.drop lo).take (hi - lo),
    (x.drop lo).drop (hi - lo), ?_, ?_, ?_, ?_⟩
  · rw [List.take_append_drop, List.take_append_drop]
  · rw [hfront, hback, List.take_append_drop, List.take_append_drop]
  · rw [List.length_take, List.length_take, List.length_drop, List.length_drop, hl]
  · rw [List.length_take]; omega

theorem agreeOutside_left {lo hi : Nat} {x x' y y' : Octets}
    (h : AgreeOutside lo hi (x ++ y) (x' ++ y')) (hl : x.length = x'.length)
    (hx : hi ≤ x.length) : AgreeOutside lo hi x x' ∧ y = y' := by
  obtain ⟨_, he⟩ := h
  refine ⟨⟨hl, fun i hi' => ?_⟩, List.ext_getElem? fun i => ?_⟩
  · by_cases hlt : i < x.length
    · have := he i hi'
      rwa [List.getElem?_append_left hlt, List.getElem?_append_left (hl ▸ hlt)] at this
    · rw [List.getElem?_eq_none (by omega), List.getElem?_eq_none (by omega)]
  · have := he (x.length + i) (.inr (by omega))
    rwa [List.getElem?_append_right (by omega), List.getElem?_append_right (by omega), ← hl,
      Nat.add_sub_cancel_left] at this

theorem agreeOutside_right {lo hi : Nat} {x x' y y' : Octets}
    (h : AgreeOutside lo hi (x ++ y) (x' ++ y')) (hl : x.length = x'.length)
    (hx : x.length ≤ lo) : x = x' ∧ AgreeOutside (lo - x.length) (hi - x.length) y y' := by
  obtain ⟨hlen, he⟩ := h
  simp only [List.length_append] at hlen
  refine ⟨List.ext_getElem? fun i => ?_, by omega, fun i hi' => ?_⟩
  · by_cases hlt : i < x.length
    · have := he i (.inl (by omega))
      rwa [List.getElem?_append_left hlt, List.getElem?_append_left (hl ▸ hlt)] at this
    · rw [List.getElem?_eq_none (by omega), List.getElem?_eq_none (by omega)]
  · have := he (x.length + i) (by omega)
    rwa [List.getElem?_append_right (by omega), List.getElem?_append_right (by omega), ← hl,
      Nat.add_sub_cancel_left] at this

end Octets
end FrameEngine
