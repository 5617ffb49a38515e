/-!
# FrameEngine.Octets

Sequences of octets and the big-endian words in them.

* `Octets.ofWord` and `Octets.word?` write and read a 32-bit word; `word?_ofWord` and
  `word?_eq_some_iff` say that each undoes the other, whatever follows the word.
* `Octets.findPair?` finds the first place where two given octets stand side by side.
-/

namespace FrameEngine

/-- A sequence of octets: a frame, a payload, or what is buffered. -/
abbrev Octets := List UInt8

namespace Octets

/-- The word whose octets are given, most significant first. -/
def word (a b c d : UInt8) : UInt32 :=
  .ofNat (((a.toNat * 256 + b.toNat) * 256 + c.toNat) * 256 + d.toNat)

/-- The four octets of a word, most significant first. -/
def ofWord (w : UInt32) : Octets :=
  [.ofNat (w.toNat / (256 * 256 * 256)), .ofNat (w.toNat / (256 * 256)), .ofNat (w.toNat / 256),
    .ofNat w.toNat]

/-- The word at the front and what follows it; none when fewer than four octets are there. -/
def word? : Octets → Option (UInt32 × Octets)
  | a :: b :: c :: d :: rest => some (word a b c d, rest)
  | _ => none

/-- The half word whose octets are given, most significant first. -/
def half (a b : UInt8) : UInt16 := .ofNat (a.toNat * 256 + b.toNat)

/-- The two octets of a half word, most significant first. -/
def ofHalf (w : UInt16) : Octets := [.ofNat (w.toNat / 256), .ofNat w.toNat]

/-- The search of `findPair?` when `before` octets have been passed. -/
def findPairFrom? (a b : UInt8) (before : Nat) : Octets → Option Nat
  | x :: y :: rest =>
    if x = a ∧ y = b then some before else findPairFrom? a b (before + 1) (y :: rest)
  | _ => none

/-- How many octets stand before the first place where `a` is followed by `b`. -/
def findPair? (a b : UInt8) (buf : Octets) : Option Nat := findPairFrom? a b 0 buf

@[simp] theorem length_ofWord (w : UInt32) : (ofWord w).length = 4 := rfl

theorem word_ofWord (w : UInt32) :
    word (.ofNat (w.toNat / (256 * 256 * 256))) (.ofNat (w.toNat / (256 * 256)))
      (.ofNat (w.toNat / 256))
      (.ofNat w.toNat) = w := by
  apply UInt32.toNat_inj.1
  have := w.toNat_lt
  simp only [word, UInt32.toNat_ofNat', UInt8.toNat_ofNat']
  omega

theorem ofWord_word (a b c d : UInt8) : ofWord (word a b c d) = [a, b, c, d] := by
  have := a.toNat_lt; have := b.toNat_lt; have := c.toNat_lt; have := d.toNat_lt
  simp only [ofWord, word, UInt32.toNat_ofNat', List.cons.injEq, and_true]
  refine ⟨?_, ?_, ?_, ?_⟩ <;> apply UInt8.toNat_inj.1 <;>
    simp only [UInt8.toNat_ofNat'] <;> omega

theorem word?_ofWord (w : UInt32) (rest : Octets) : word? (ofWord w ++ rest) = some (w, rest) := by
  simp only [ofWord, List.cons_append, List.nil_append, word?, word_ofWord]

theorem word?_eq_some_iff {buf : Octets} {w : UInt32} {rest : Octets} :
    word? buf = some (w, rest) ↔ buf = ofWord w ++ rest := by
  constructor
  · intro h
    match buf, h with
    | a :: b :: c :: d :: r, h =>
      simp only [word?, Option.some.injEq, Prod.mk.injEq] at h
      obtain ⟨rfl, rfl⟩ := h
      simp [ofWord_word]
  · rintro rfl
    exact word?_ofWord w rest

theorem word?_eq_none_iff {buf : Octets} : word? buf = none ↔ buf.length < 4 := by
  match buf with
  | [] | [_] | [_, _] | [_, _, _] => simp [word?]
  | _ :: _ :: _ :: _ :: _ => simp [word?]

theorem findPairFrom?_lt {a b : UInt8} {buf : Octets} {before n : Nat}
    (h : findPairFrom? a b before buf = some n) : before ≤ n ∧ n + 2 ≤ before + buf.length := by
  induction buf generalizing before with
  | nil => simp [findPairFrom?] at h
  | cons x rest ih =>
    match rest with
    | [] => simp [findPairFrom?] at h
    | y :: rest =>
      simp only [findPairFrom?] at h
      split at h
      · simp only [Option.some.injEq] at h
        simp only [List.length_cons]; omega
      · have := ih h
        simp only [List.length_cons] at this ⊢; omega

theorem findPair?_lt {a b : UInt8} {buf : Octets} {n : Nat} (h : findPair? a b buf = some n) :
    n + 2 ≤ buf.length := by
  have := findPairFrom?_lt h; omega

theorem length_of_word? {buf : Octets} {w : UInt32} {rest : Octets}
    (h : word? buf = some (w, rest)) : buf.length = rest.length + 4 := by
  rw [word?_eq_some_iff.1 h]; simp; omega

end Octets
end FrameEngine
