import FrameEngine.Proofs.Framing.Progress
import FrameEngine.Proofs.Framing.RoundTrip
import Mathlib.Order.Bounds.Basic

/-!
# FrameEngine.Proofs.Framing.Search

What the search for the next frame drops. `pairPlaces` are the places where two octets stand side by
side inside a window; the search finds the least of them, and gives none only if there is none
(`findPair?_window_cases`, `resync_cases`).

* `discard_of_wrong_trailer`: a whole frame with a wrong trailer is reported with the two octets
  that stand there. All through the first magic pair of the window goes, or the window; so at least
  the bad frame goes, and what stands behind the pair is decoded next.
-/

namespace FrameEngine
namespace Octets

/-- The places from `lo` on where `a` is followed by `b`, both of them before `hi`. -/
def pairPlaces (a b : UInt8) (buf : Octets) (lo hi : Nat) : Set Nat :=
  {i | lo ≤ i ∧ i + 2 ≤ hi ∧ buf[i]? = some a ∧ buf[i + 1]? = some b}

variable {a b : UInt8}

theorem succ_mem_pairPlaces {x : UInt8} {buf : Octets} {i : Nat} :
    i + 1 ∈ pairPlaces a b (x :: buf) 0 (x :: buf).length ↔ i ∈ pairPlaces a b buf 0 buf.length := by
  constructor
  · rintro ⟨-, hi, ha, hb⟩
    exact ⟨Nat.zero_le _, Nat.le_of_succ_le_succ hi, ha, hb⟩
  · rintro ⟨-, hi, ha, hb⟩
    exact ⟨Nat.zero_le _, Nat.succ_le_succ hi, ha, hb⟩

theorem zero_mem_pairPlaces {x y : UInt8} {buf : Octets} :
    0 ∈ pairPlaces a b (x :: y :: buf) 0 (x :: y :: buf).length ↔ x = a ∧ y = b := by
  simp [pairPlaces]

theorem pairPlaces_of_length_lt {buf : Octets} (h : buf.length < 2) :
    pairPlaces a b buf 0 buf.length = ∅ := by
  refine Set.eq_empty_iff_forall_notMem.2 ?_
  rintro i ⟨-, hi, -⟩
  omega

/-- By the search, which goes on behind an octet that begins no pair. -/
theorem findPairFrom?_cases (before : Nat) (buf : Octets) :
    (∃ i, findPairFrom? a b before buf = some (before + i) ∧
      IsLeast (pairPlaces a b buf 0 buf.length) i) ∨
    findPairFrom? a b before buf = none ∧ pairPlaces a b buf 0 buf.length = ∅ := by
  induction buf generalizing before with
  | nil => exact .inr ⟨rfl, pairPlaces_of_length_lt (by simp)⟩
  | cons x rest ih =>
    cases rest with
    | nil => exact .inr ⟨rfl, pairPlaces_of_length_lt (by simp)⟩
    | cons y rest =>
      by_cases hxy : x = a ∧ y = b
      · exact .inl ⟨0, if_pos hxy, zero_mem_pairPlaces.2 hxy, fun _ _ => Nat.zero_le _⟩
      · rw [findPairFrom?, if_neg hxy]
        rcases ih (before + 1) with ⟨i, hfound, hmem, hleast⟩ | ⟨hnone, hempty⟩
        · refine .inl ⟨i + 1, by rw [hfound, Nat.add_right_comm, Nat.add_assoc],
            succ_mem_pairPlaces.2 hmem, ?_⟩
          rintro (_ | j) hj
          · exact absurd (zero_mem_pairPlaces.1 hj) hxy
          · exact Nat.succ_le_succ (hleast (succ_mem_pairPlaces.1 hj))
        · refine .inr ⟨hnone, Set.eq_empty_iff_forall_notMem.2 ?_⟩
          rintro (_ | j) hj
          · exact hxy (zero_mem_pairPlaces.1 hj)
          · exact Set.eq_empty_iff_forall_notMem.1 hempty j (succ_mem_pairPlaces.1 hj)

/-- The window of a buffer holds the pairs that stand wholly inside it. -/
theorem mem_pairPlaces_window {buf : Octets} {lo hi i : Nat} (hhi : hi ≤ buf.length) :
    i ∈ pairPlaces a b ((buf.drop lo).take (hi - lo)) 0 ((buf.drop lo).take (hi - lo)).length ↔
      lo + i ∈ pairPlaces a b buf lo hi := by
  have hlen : ((buf.drop lo).take (hi - lo)).length = hi - lo := by
    rw [List.length_take, List.length_drop]; omega
  constructor
  · rintro ⟨-, hle, ha, hb⟩
    rw [hlen] at hle
    rw [List.getElem?_take_of_lt (by omega), List.getElem?_drop] at ha hb
    exact ⟨by omega, by omega, ha, hb⟩
  · rintro ⟨-, hle, ha, hb⟩
    refine ⟨Nat.zero_le _, by omega, ?_, ?_⟩
    · rw [List.getElem?_take_of_lt (by omega), List.getElem?_drop, ha]
    · rw [List.getElem?_take_of_lt (by omega), List.getElem?_drop]; exact hb

/-- The search of a window finds the first pair that stands wholly inside it. -/
theorem findPair?_window_cases {buf : Octets} {lo hi : Nat} (hhi : hi ≤ buf.length) :
    (∃ i, findPair? a b ((buf.drop lo).take (hi - lo)) = some i ∧
      IsLeast (pairPlaces a b buf lo hi) (lo + i)) ∨
    findPair? a b ((buf.drop lo).take (hi - lo)) = none ∧ pairPlaces a b buf lo hi = ∅ := by
  have hback : ∀ j, j ∈ pairPlaces a b buf lo hi → ∃ k, j = lo + k ∧
      k ∈ pairPlaces a b ((buf.drop lo).take (hi - lo)) 0 ((buf.drop lo).take (hi - lo)).length := by
    intro j hj
    obtain ⟨k, rfl⟩ := Nat.exists_eq_add_of_le hj.1
    exact ⟨k, rfl, (mem_pairPlaces_window hhi).2 hj⟩
  rcases findPairFrom?_cases 0 ((buf.drop lo).take (hi - lo)) with
    ⟨i, hfound, hmem, hleast⟩ | ⟨hnone, hempty⟩
  · refine .inl ⟨i, by rw [findPair?, hfound, Nat.zero_add], (mem_pairPlaces_window hhi).1 hmem, ?_⟩
    intro j hj
    obtain ⟨k, rfl, hk⟩ := hback j hj
    exact Nat.add_le_add_left (hleast hk) lo
  · refine .inr ⟨hnone, Set.eq_empty_iff_forall_notMem.2 fun j hj => ?_⟩
    obtain ⟨k, rfl, hk⟩ := hback j hj
    exact Set.eq_empty_iff_forall_notMem.1 hempty k hk

end Octets

namespace Framing

open Octets (pairPlaces)

/-- A checksummed framing as it can be built under a limit, and how far it searches: as far as the
limit, or as far as was asked for. -/
inductive Searches (max : Nat) : Framing → Nat → Prop where
  | limit : Searches max (ofKind .binary max) max
  | asked (bytes : Nat) :
      Searches max ((ofKind .binary max).withScan bytes) (Nat.max bytes Binary.magicSize)

theorem Searches.eq_binary {max scan : Nat} {f : Framing} (h : Searches max f scan) :
    f = binary max scan ∧ (scan = max ∨ Binary.magicSize ≤ scan) := by
  cases h with
  | limit => exact ⟨rfl, .inl rfl⟩
  | asked bytes => exact ⟨rfl, .inr (Nat.le_max_right ..)⟩

/-- The places of the magic pair in the window that is searched from `place` on. -/
def magicPlaces (scan : Nat) (buf : Octets) (place : Nat) : Set Nat :=
  pairPlaces 0xCA 0xFE buf place (min buf.length (place + scan))

theorem Binary.resync_cases (scan : Nat) (buf : Octets) (place : Nat) :
    (∃ i, IsLeast (magicPlaces scan buf place) i ∧
      Binary.resync scan buf place = .bytes (i + Binary.magicSize)) ∨
    magicPlaces scan buf place = ∅ ∧
      Binary.resync scan buf place = if min buf.length (place + scan) = buf.length then .all
        else .bytes (min buf.length (place + scan)) := by
  unfold Binary.resync
  dsimp only
  have hle : min buf.length (place + scan) ≤ buf.length := Nat.min_le_left ..
  rcases Octets.findPair?_window_cases hle with ⟨i, hfound, hleast⟩ | ⟨hnone, hempty⟩
  · rw [hfound]
    exact .inl ⟨place + i, hleast, rfl⟩
  · rw [hnone]
    exact .inr ⟨hempty, rfl⟩

/-- A wrong trailer does not begin a magic pair. -/
theorem lt_of_mem_magicPlaces {scan place i : Nat} {buf : Octets} {a b : UInt8}
    (ha : buf[place]? = some a) (hb : buf[place + 1]? = some b)
    (wrong : Octets.half a b ≠ Binary.magic) (hi : i ∈ magicPlaces scan buf place) : place < i := by
  obtain ⟨hle, -, hca, hfe⟩ := hi
  rcases Nat.lt_or_eq_of_le hle with hlt | rfl
  · exact hlt
  · cases ha.symm.trans hca
    cases hb.symm.trans hfe
    exact absurd rfl wrong

/-- A whole frame with a wrong trailer is found bad, whatever its check says. -/
theorem unpack_of_wrong_trailer {max scan total : Nat} {buf : Octets} {a b : UInt8}
    (told : (binary max scan).frameLength buf = .ok total) (held : total ≤ buf.length)
    (ha : buf[total - Binary.magicSize]? = some a)
    (hb : buf[total - Binary.magicSize + 1]? = some b)
    (wrong : Octets.half a b ≠ Binary.magic) :
    (binary max scan).unpack buf = .error ⟨.invalidMagic (Octets.half a b),
      Binary.resync scan buf (total - Binary.magicSize)⟩ := by
  obtain ⟨m, check, a', b', tail, hbuf, hw, rfl⟩ := Binary.exists_parts told held
  obtain ⟨-, hmax⟩ := Binary.frameLength_bounds told
  obtain ⟨-, -, -, -, -, -, ha', hb'⟩ := Binary.places_of_parts hbuf
  rw [Binary.sub_magicSize] at ha hb ⊢
  cases ha.symm.trans ha'
  cases hb.symm.trans hb'
  rw [unpack, Binary.unpack_parts hbuf hmax hw, if_pos wrong]
  rfl

/-- What is dropped reaches behind the bad frame and not behind the window. -/
theorem amount_resync_bounds {scan total : Nat} {buf : Octets} {a b : UInt8}
    (hscan : Binary.magicSize ≤ scan) (htotal : Binary.magicSize ≤ total) (held : total ≤ buf.length)
    (ha : buf[total - Binary.magicSize]? = some a)
    (hb : buf[total - Binary.magicSize + 1]? = some b) (wrong : Octets.half a b ≠ Binary.magic) :
    total ≤ (Binary.resync scan buf (total - Binary.magicSize)).amount buf.length ∧
      (Binary.resync scan buf (total - Binary.magicSize)).amount buf.length ≤
        total - Binary.magicSize + scan := by
  rcases Binary.resync_cases scan buf (total - Binary.magicSize) with ⟨i, hleast, hr⟩ | ⟨-, hr⟩
  · have hlt := lt_of_mem_magicPlaces ha hb wrong hleast.1
    have hstop := hleast.1.2.1
    rw [hr]
    simp only [Discard.amount, Binary.magicSize] at *
    omega
  · rw [hr]
    split <;> simp only [Discard.amount, Binary.magicSize] at * <;> omega

/-- A whole frame within the limit that does not end with the magic octets is reported with the
octets that stand there. If the window from there on holds a magic pair, all through the first one
goes, and a frame behind it is decoded next; if not, the window goes. Either way the bad frame goes
and nothing behind the window does. -/
theorem discard_of_wrong_trailer {f : Framing} {max scan total : Nat} {buf : Octets} {a b : UInt8}
    (hf : Searches max f scan) (told : f.frameLength buf = .ok total) (held : total ≤ buf.length)
    (ha : buf[total - Binary.magicSize]? = some a)
    (hb : buf[total - Binary.magicSize + 1]? = some b)
    (wrong : Octets.half a b ≠ Binary.magic) :
    ∃ discard, f.unpack buf = .error ⟨.invalidMagic (Octets.half a b), discard⟩ ∧
      ((∃ i, IsLeast (magicPlaces scan buf (total - Binary.magicSize)) i ∧
          discard = .bytes (i + Binary.magicSize) ∧ total < i + Binary.magicSize) ∨
        magicPlaces scan buf (total - Binary.magicSize) = ∅ ∧
          discard = if min buf.length (total - Binary.magicSize + scan) = buf.length then .all
            else .bytes (min buf.length (total - Binary.magicSize + scan))) ∧
      total ≤ discard.amount buf.length ∧
      discard.amount buf.length ≤ total - Binary.magicSize + scan ∧
      ∀ i m n, IsLeast (magicPlaces scan buf (total - Binary.magicSize)) i →
        f.unpack (buf.drop (i + Binary.magicSize)) = .ok (m, n) →
          (Codec.decode f buf).1 = .error (.invalidMagic (Octets.half a b)) ∧
          (Codec.decode f (Codec.decode f buf).2).1 = .ok (some m) := by
  obtain ⟨rfl, hscan⟩ := hf.eq_binary
  have hunpack := unpack_of_wrong_trailer told held ha hb wrong
  have hbounds := Binary.frameLength_bounds told
  have htotal : Binary.magicSize ≤ total := by
    simp only [Binary.headerSize, Binary.footerSize, Binary.magicSize] at hbounds ⊢; omega
  have hscan : Binary.magicSize ≤ scan := by omega
  obtain ⟨hle, hge⟩ := amount_resync_bounds hscan htotal held ha hb wrong
  have hplaces := Binary.resync_cases scan buf (total - Binary.magicSize)
  refine ⟨_, hunpack, ?_, hle, hge, ?_⟩
  · rcases hplaces with ⟨i, hleast, hr⟩ | hnone
    · have hlt := lt_of_mem_magicPlaces ha hb wrong hleast.1
      exact .inl ⟨i, hleast, hr, by omega⟩
    · exact .inr hnone
  · intro i m n hleast hnext
    rcases hplaces with ⟨j, hj, hr⟩ | ⟨hempty, -⟩
    · cases hj.unique hleast
      have hin : i + Binary.magicSize ≤ buf.length :=
        Nat.le_trans hleast.1.2.1 (Nat.min_le_left ..)
      have hdecode := Codec.decode_of_error (hr ▸ hunpack) rfl hin
      rw [hdecode]
      exact ⟨rfl, by simp only [Codec.decode, hnext]⟩
    · exact absurd hleast.1 (hempty ▸ Set.notMem_empty i)

/-- The trailer is the front of a magic pair, after one more octet like it. -/
theorem discard_of_wrong_trailer_of_overlap :
    let f := (ofKind .binary 64).withScan 3
    let good : Octets :=
      [1, 0, 0, 0, 2, 0, 0, 0, 3, 0, 0, 0, 2, 0xCA, 0xFE, 111, 56, 79, 226, 0xCA, 0xFE]
    let buf : Octets :=
      [1, 0, 0, 0, 1, 0, 0, 0, 1, 0, 0, 0, 0, 9, 9, 9, 9, 0xCA, 0xCA, 0xFE] ++ good
    (Codec.decode f buf).1 = .error (.invalidMagic 0xCACA) ∧
      (Codec.decode f (Codec.decode f buf).2).1 = .ok (some (.binary ⟨1, 2, 3, [0xCA, 0xFE]⟩)) := by
  intro f good buf
  have told : f.frameLength buf = .ok 19 := by decide
  have hfirst : buf[17]? = some 0xCA := by decide
  have hsecond : buf[18]? = some 0xCA := by decide
  obtain ⟨_, _, hcases, -, -, hnext⟩ :=
    discard_of_wrong_trailer (.asked 3) told (by decide) hfirst hsecond (by decide)
  have hpair : 18 ∈ magicPlaces 3 buf 17 := ⟨by decide, by decide, by decide, by decide⟩
  rcases hcases with ⟨i, hi, -, hlt⟩ | ⟨hempty, -⟩
  · have : i = 18 := Nat.le_antisymm (hi.2 hpair) (by simp only [Binary.magicSize] at hlt; omega)
    subst this
    have hgood : buf.drop 20 = Binary.frame ⟨1, 2, 3, [0xCA, 0xFE]⟩ ++ [] := by decide +kernel
    refine hnext 18 _ 21 hi ?_
    change lift .binary (Binary.unpack 64 3 (buf.drop 20)) = _
    rw [hgood, Binary.unpack_frame 3 [] (by decide) (by decide)]
    rfl
  · exact absurd hpair (hempty ▸ Set.notMem_empty 18)

end Framing
end FrameEngine
