import FrameEngine.Proofs.Json.RoundTrip
import FrameEngine.Proofs.Json.Written

/-!
# FrameEngine.Proofs.Json.Reading

The reader keeps to the grammar: a value that is written somehow is read as what it means
(`Written.value_octets`).

The proof follows the reader, one theorem for each of its functions, by recursion over what is
written. Blanks cost nothing: each function sees through those in front of it. The members of an
object are taken in one by one and put in order on the way, so that only their set counts
(`insertAll_of_perm`).
-/

namespace FrameEngine
namespace Json

/-! ## Blanks -/

theorem isBlank_octet (b : Blank) : isBlank b.octet = true := by cases b <;> decide

theorem skipBlank_blanks (g : Blanks) (rest : Octets) :
    skipBlank (Blanks.octets g ++ rest) = skipBlank rest := by
  induction g with
  | nil => rfl
  | cons b g ih =>
    show skipBlank (b.octet :: (Blanks.octets g ++ rest)) = _
    rw [skipBlank, if_pos (isBlank_octet b), ih]

/-! ## Strings -/

theorem hexDigit?_octet (d : HexDigit) : hexDigit? d.octet = some d.value.val := by
  have h : ∀ (value : Fin 16) (upper : Bool),
      hexDigit? (HexDigit.octet ⟨value, upper⟩) = some value.val := by decide
  exact h d.value d.upper

/-- The four digits of a unit, the last of which decides what becomes of it. -/
theorem scanTextOnto_unit {a b c d : HexDigit} {high : Option Nat} {next : TextMode}
    {added : Octets} (h : closeHex (unitValue a b c d) high = .ok (next, added))
    (done rest : Octets) :
    scanTextOnto (.hex 4 0 high) done (a.octet :: b.octet :: c.octet :: d.octet :: rest) =
      scanTextOnto next (added.reverse ++ done) rest := by
  have hvalue : (((0 * 16 + a.value.val) * 16 + b.value.val) * 16 + c.value.val) * 16 +
      d.value.val = unitValue a b c d := by
    rw [unitValue, Nat.zero_mul, Nat.zero_add]
  rw [scanTextOnto, hexDigit?_octet]
  dsimp only
  rw [if_neg (by decide), scanTextOnto, hexDigit?_octet]
  dsimp only
  rw [if_neg (by decide), scanTextOnto, hexDigit?_octet]
  dsimp only
  rw [if_neg (by decide), scanTextOnto, hexDigit?_octet]
  dsimp only
  rw [if_pos (by decide), hvalue, h]

theorem scanTextOnto_escape (e : Escape) (done rest : Octets) :
    scanTextOnto .plain done ((Piece.escape e).octets ++ rest) =
      scanTextOnto .plain ((Utf8.ofChar e.char).reverse ++ done) rest := by
  cases e <;> simp [Piece.octets, Escape.letter, Escape.char, scanTextOnto, simpleEscape?,
    Utf8.ofChar]

/-- Behind a reverse solidus and the letter of a unit. -/
theorem scanTextOnto_openUnit (a b c d : HexDigit) (done rest : Octets) :
    scanTextOnto .plain done ((Piece.unit a b c d).octets ++ rest) =
      scanTextOnto (.hex 4 0 none) done
        (a.octet :: b.octet :: c.octet :: d.octet :: rest) := by
  have hlen : ¬ ((a.octet :: b.octet :: c.octet :: d.octet :: rest).take 4).length < 4 := by simp
  simp only [Piece.octets, List.cons_append, List.nil_append]
  rw [scanTextOnto, if_neg (by decide), if_pos rfl, scanTextOnto, if_pos rfl, if_neg hlen]

/-- Behind a high surrogate. -/
theorem scanTextOnto_openLow (high : Nat) (a b c d : HexDigit) (done rest : Octets) :
    scanTextOnto (.wantSolidus high) done ((Piece.unit a b c d).octets ++ rest) =
      scanTextOnto (.hex 4 0 (some high)) done
        (a.octet :: b.octet :: c.octet :: d.octet :: rest) := by
  have hlen : ¬ ((a.octet :: b.octet :: c.octet :: d.octet :: rest).take 4).length < 4 := by simp
  simp only [Piece.octets, List.cons_append, List.nil_append]
  conv_lhs => rw [scanTextOnto, if_pos rfl, scanTextOnto, if_pos rfl, if_neg hlen]

theorem closeHex_char {n : Nat} (h : n < 0xD800 ∨ 0xE000 ≤ n) :
    closeHex n none = .ok (.plain, Utf8.ofChar (Char.ofNat n)) := by
  have h1 : isHighSurrogate n = false := by simp [isHighSurrogate]; omega
  have h2 : isLowSurrogate n = false := by simp [isLowSurrogate]; omega
  simp only [closeHex, h1, h2, Bool.false_eq_true, if_false]

theorem closeHex_high {n : Nat} (h : 0xD800 ≤ n ∧ n < 0xDC00) :
    closeHex n none = .ok (.wantSolidus n, []) := by
  have h1 : isHighSurrogate n = true := by simp [isHighSurrogate]; omega
  simp only [closeHex, h1, if_true]

theorem closeHex_low {high n : Nat} (h : 0xDC00 ≤ n ∧ n < 0xE000) :
    closeHex n (some high) = .ok (.plain, Utf8.ofChar (pairChar high n)) := by
  have h1 : isLowSurrogate n = true := by simp [isLowSurrogate]; omega
  simp only [closeHex, h1, if_true]
  rfl

theorem piecesOctets_cons (p : Piece) (s : List Piece) (rest : Octets) :
    piecesOctets (p :: s) ++ rest = p.octets ++ (piecesOctets s ++ rest) := by
  rw [piecesOctets, List.flatMap_cons, List.append_assoc]
  rfl

/-- The characters of a string that begins with a unit. -/
theorem chars?_unit (a b c d : HexDigit) (s : List Piece) :
    chars? (.unit a b c d :: s) =
      if unitValue a b c d < 0xD800 ∨ 0xE000 ≤ unitValue a b c d then
        (chars? s).map (Char.ofNat (unitValue a b c d) :: ·)
      else if unitValue a b c d < 0xDC00 then
        match s with
        | .unit a' b' c' d' :: s =>
          if 0xDC00 ≤ unitValue a' b' c' d' ∧ unitValue a' b' c' d' < 0xE000 then
            (chars? s).map (pairChar (unitValue a b c d) (unitValue a' b' c' d') :: ·)
          else none
        | _ => none
      else none := by
  exact chars?.eq_def _

theorem scanTextOnto_pieces {s : List Piece} {cs : List Char} (h : chars? s = some cs)
    (done rest : Octets) :
    scanTextOnto .plain done (piecesOctets s ++ rest) =
      scanTextOnto .plain ((Utf8.encode cs).reverse ++ done) rest := by
  have cons (c : Char) (cs : List Char) (done : Octets) :
      (Utf8.encode (c :: cs)).reverse ++ done =
        (Utf8.encode cs).reverse ++ ((Utf8.ofChar c).reverse ++ done) := by
    simp [Utf8.encode]
  induction s using chars?.induct generalizing cs done with
  | case1 => cases h; rfl
  | case2 c h1 h2 h3 s ih =>
    rw [chars?] at h
    obtain ⟨cs, hcs, rfl⟩ := Option.map_eq_some_iff.1 h
    rw [piecesOctets_cons, Piece.octets, scanTextOnto_plain (isPlain_ofChar h1 h2 h3), ih hcs, cons]
  | case3 e s ih =>
    rw [chars?] at h
    obtain ⟨cs, hcs, rfl⟩ := Option.map_eq_some_iff.1 h
    rw [piecesOctets_cons, scanTextOnto_escape, ih hcs, cons]
  | case4 a b c d s hhigh ih =>
    rw [chars?_unit, if_pos hhigh] at h
    obtain ⟨cs, hcs, rfl⟩ := Option.map_eq_some_iff.1 h
    rw [piecesOctets_cons, scanTextOnto_openUnit, scanTextOnto_unit (closeHex_char hhigh), ih hcs,
      cons]
  | case5 a b c d hhigh hhigh' a' b' c' d' s hlow ih =>
    rw [chars?_unit, if_neg hhigh, if_pos hhigh'] at h
    dsimp only at h
    rw [if_pos hlow] at h
    obtain ⟨cs, hcs, rfl⟩ := Option.map_eq_some_iff.1 h
    have hsurrogate : 0xD800 ≤ unitValue a b c d ∧ unitValue a b c d < 0xDC00 := by
      omega
    rw [piecesOctets_cons, scanTextOnto_openUnit, scanTextOnto_unit (closeHex_high hsurrogate),
      piecesOctets_cons, scanTextOnto_openLow, scanTextOnto_unit (closeHex_low hlow), ih hcs, cons]
    rfl
  -- a surrogate that has no other one
  | case6 a b c d hhigh hhigh' a' b' c' d' s hlow =>
    rw [chars?_unit, if_neg hhigh, if_pos hhigh'] at h
    dsimp only at h
    rw [if_neg hlow] at h
    cases h
  | case7 a b c d s hhigh hhigh' halone =>
    rw [chars?_unit, if_neg hhigh, if_pos hhigh'] at h
    split at h
    · exact (halone _ _ _ _ _ rfl).elim
    · cases h
  | case8 a b c d s hhigh hhigh' =>
    rw [chars?_unit, if_neg hhigh, if_neg hhigh'] at h
    cases h

theorem chars?_spell (cs : List Char) : chars? (cs.map Piece.ofChar) = some cs := by
  induction cs with
  | nil => rfl
  | cons c cs ih =>
    rw [List.map_cons, Piece.ofChar]
    split
    · rw [chars?, ih]
      rfl
    · rename_i hplain
      have hsmall : c.toNat < 0x80 := by
        by_contra hlarge
        refine hplain ⟨?_, ?_, by omega⟩ <;> rintro rfl <;> exact hlarge (by decide)
      have hunit : unitValue ⟨0, false⟩ ⟨0, false⟩ ⟨.ofNat 16 (c.toNat / 16), false⟩
          ⟨.ofNat 16 c.toNat, false⟩ = c.toNat := by
        simp only [unitValue, Fin.val_ofNat, Fin.val_zero]
        omega
      rw [chars?_unit, hunit, if_pos (by omega), ih, Char.ofNat_toNat]
      rfl

@[simp] theorem text?_spell (t : String) : text? (spell t) = some t := by
  simp [text?, spell, chars?_spell]

/-- A string that means a text is read as that text. -/
theorem scanText_pieces {s : List Piece} {t : String} (h : text? s = some t) (rest : Octets) :
    scanText (piecesOctets s ++ 0x22 :: rest) = .ok (t, rest) := by
  obtain ⟨cs, hcs, rfl⟩ := Option.map_eq_some_iff.1 h
  have hend (done : Octets) :
      scanTextOnto .plain done (0x22 :: rest) = .ok (done.reverse, rest) := by
    simp [scanTextOnto]
  simp [scanText, scanTextOnto_pieces hcs, hend, Utf8.string?_encode]

/-! ## Numbers -/

theorem isDigit_of_mem_digitsOctets (ds : List Digit) :
    ∀ b ∈ digitsOctets ds, isDigit b = true := by
  intro b hb
  obtain ⟨d, _, rfl⟩ := List.mem_map.1 hb
  exact isDigit_octet d.isLt

theorem runValue_digitsOctets (ds : List Digit) :
    runValue 0 (digitsOctets ds) = digitsValue ds := by
  have h (v : Nat) : runValue v (digitsOctets ds) =
      ds.foldl (fun (n : Nat) (d : Digit) => n * 10 + d) v := by
    induction ds generalizing v with
    | nil => rfl
    | cons d ds ih =>
      have hd : runValue v (digitsOctets (d :: ds)) =
          runValue (v * 10 + digitOf (.ofNat (0x30 + d))) (digitsOctets ds) := rfl
      rw [hd, ih, digitOf_octet d.isLt]
      rfl
  exact h 0

theorem whole_magnitude (m : Magnitude) : Whole (digitsOctets m.all) := by
  cases m with
  | zero => exact .zero
  | digits lead nonzero rest =>
    have hlead : ∀ d : Digit, d ≠ 0 → UInt8.ofNat (0x30 + d) ≠ 0x30 := by decide
    exact .leading (hlead lead nonzero) (isDigit_of_mem_digitsOctets (lead :: rest))

/-- An integer is read as it is written, whether its digits are needed in full or its sign is. -/
theorem readValue_number {n : Number} {i : Int} (h : n.integer? = some i) (steps d : Nat)
    {rest : Octets} (hr : EndsNumber rest) :
    readValue (steps + 1) d (n.octets ++ rest) = .ok (.integer i, rest) := by
  have hsize := signedLimit_eq
  have hmax : maxSignificand = UInt64.size - 1 := rfl
  have hw := whole_magnitude n.whole
  obtain ⟨negative, whole, fraction, exponent⟩ := n
  unfold Number.integer? at h
  dsimp only at h hw
  split at h
  · simp only [Number.octets, Number.magnitudeOctets, fractionPart, exponentPart, List.append_nil]
    cases negative with
    | true =>
      simp only [if_true] at h ⊢
      split at h
      · cases h
        have hv : runValue 0 (digitsOctets whole.all) ≤ maxSignificand := by
          rw [runValue_digitsOctets]; omega
        rw [List.cons_append, readValue_minus, scanNumber_whole false hw (endsNumber_head hr) hv,
          scanFraction_integer hr, runValue_digitsOctets]
        simp only [Bool.false_eq_true, if_false]
        rw [if_neg (by omega)]
      · cases h
    | false =>
      simp only [Bool.false_eq_true, if_false] at h ⊢
      split at h
      · cases h
        have hv : runValue 0 (digitsOctets whole.all) ≤ maxSignificand := by
          rw [runValue_digitsOctets]; omega
        rw [readValue_run steps d hw, scanNumber_whole true hw (endsNumber_head hr) hv,
          scanFraction_integer hr, runValue_digitsOctets, if_pos rfl]
      · cases h
  · cases h

/-! ## Members in any order -/

/-- Members taken in one by one, behind those there are. -/
def insertAll (done ms : Members) : Members := ms.foldl (fun done p => insert p.1 p.2 done) done

theorem insert_perm {k : String} {done : Members} (h : k ∉ done.map Prod.fst) (v : Json) :
    (insert k v done).Perm ((k, v) :: done) := by
  induction done with
  | nil => exact .refl _
  | cons p done ih =>
    obtain ⟨k', v'⟩ := p
    simp only [List.map_cons, List.mem_cons, not_or] at h
    rw [insert]
    split
    · exact .refl _
    · rw [if_neg h.1]
      exact ((ih h.2).cons (k', v')).trans (.swap _ _ _)

theorem eq_or_mem_of_mem_insert {k a : String} {v : Json} {done : Members}
    (h : a ∈ (insert k v done).map Prod.fst) : a = k ∨ a ∈ done.map Prod.fst := by
  induction done with
  | nil => exact .inl (by simpa [insert] using h)
  | cons p done ih =>
    obtain ⟨k', v'⟩ := p
    rw [insert] at h
    split at h
    · exact List.mem_cons.1 h
    split at h
    · rcases List.mem_cons.1 h with h | h
      · exact .inl h
      · exact .inr (List.mem_cons_of_mem _ h)
    · rcases List.mem_cons.1 h with h | h
      · exact .inr (List.mem_cons.2 (.inl h))
      · exact (ih h).imp_right (List.mem_cons_of_mem _)

theorem insert_sorted {done : Members} (h : (done.map Prod.fst).Pairwise (· < ·)) (k : String)
    (v : Json) : ((insert k v done).map Prod.fst).Pairwise (· < ·) := by
  induction done with
  | nil => simp [insert]
  | cons p done ih =>
    obtain ⟨k', v'⟩ := p
    obtain ⟨hfirst, hdone⟩ := List.pairwise_cons.1 h
    rw [insert]
    split
    · rename_i hlt
      refine List.pairwise_cons.2 ⟨fun a ha => ?_, h⟩
      rcases List.mem_cons.1 ha with rfl | ha
      · exact hlt
      · exact String.lt_trans hlt (hfirst a ha)
    split
    · rename_i heq
      subst heq
      exact h
    · rename_i hnot hne
      have hlt : k' < k := Std.lt_of_le_of_ne (String.not_lt.1 hnot) (Ne.symm hne)
      refine List.pairwise_cons.2 ⟨fun a ha => ?_, ih hdone⟩
      rcases eq_or_mem_of_mem_insert ha with rfl | ha
      · exact hlt
      · exact hfirst a ha

theorem insertAll_spec {done ms : Members} (hsorted : (done.map Prod.fst).Pairwise (· < ·))
    (hnodup : ((done ++ ms).map Prod.fst).Nodup) :
    (insertAll done ms).Perm (done ++ ms) ∧
      ((insertAll done ms).map Prod.fst).Pairwise (· < ·) := by
  induction ms generalizing done with
  | nil => rw [List.append_nil]; exact ⟨.refl _, hsorted⟩
  | cons p ms ih =>
    obtain ⟨k, v⟩ := p
    have hnew : k ∉ done.map Prod.fst := by
      rw [List.map_append] at hnodup
      intro hk
      exact (List.nodup_append.1 hnodup).2.2 k hk k List.mem_cons_self rfl
    have hperm : (insert k v done ++ ms).Perm (done ++ (k, v) :: ms) :=
      ((insert_perm hnew v).append_right ms).trans List.perm_middle.symm
    have hih := ih (insert_sorted hsorted k v) ((hperm.map Prod.fst).nodup_iff.2 hnodup)
    exact ⟨hih.1.trans hperm, hih.2⟩

/-- Whatever the order in which the members of an object are taken in, they end up in order. -/
theorem insertAll_of_perm {ms data : Members} (h : ms.Perm data)
    (hdata : Increasing (data.map Prod.fst)) : insertAll [] ms = data := by
  have hpairs := increasing_iff_pairwise.1 hdata
  have hdistinct : (data.map Prod.fst).Nodup := by
    refine hpairs.imp ?_
    rintro a _ hlt rfl
    exact String.lt_irrefl a hlt
  have hnodup : (ms.map Prod.fst).Nodup := (h.map Prod.fst).nodup_iff.2 hdistinct
  obtain ⟨hperm, hsorted⟩ := @insertAll_spec [] ms .nil hnodup
  refine @List.Perm.eq_of_pairwise _ (fun p q : String × Json => p.1 < q.1) _ _
    (fun p q _ _ hpq hqp => (String.lt_asymm hpq hqp).elim) ?_ ?_ (hperm.trans h)
  · exact List.pairwise_map.1 hsorted
  · exact List.pairwise_map.1 hpairs

/-- The depth of members does not depend on their order. -/
theorem depthMembers_le_iff {ms : Members} {d : Nat} :
    depthMembers ms ≤ d ↔ ∀ p ∈ ms, p.2.depth ≤ d := by
  induction ms with
  | nil => simp [depthMembers]
  | cons p ms ih =>
    obtain ⟨k, v⟩ := p
    rw [depthMembers, Nat.max_le, ih]
    simp

/-! ## Values -/

theorem endsNumber_blanks (g : Blanks) {rest : Octets} (h : EndsNumber rest) :
    EndsNumber (Blanks.octets g ++ rest) := by
  cases g with
  | nil => exact h
  | cons b g => cases b <;> exact endsNumber_cons _ (by decide) (by decide) (by decide) (by decide)

namespace Written

theorem exists_head_octets (w : Written) :
    ∃ b tail, w.octets = b :: tail ∧ opensValue b = true := by
  cases w with
  | null => exact ⟨_, _, rfl, by decide⟩
  | bool b => cases b <;> exact ⟨_, _, rfl, by decide⟩
  | number n =>
    obtain ⟨b, more, hb, hd⟩ := exists_digit_of_whole (whole_magnitude n.whole)
    rw [octets, Number.octets]
    split
    · exact ⟨0x2D, _, rfl, by decide⟩
    · rw [Number.magnitudeOctets, hb]
      exact ⟨b, _, rfl, opensValue_of_isDigit hd⟩
  | string s => exact ⟨_, _, rfl, by decide⟩
  | array gap items => exact ⟨_, _, rfl, by decide⟩
  | object gap members => exact ⟨_, _, rfl, by decide⟩

theorem endsNumber_moreItems (items : List (Blanks × Written × Blanks)) (rest : Octets) :
    EndsNumber (moreItemsOctets items ++ 0x5D :: rest) := by
  cases items with
  | nil => exact endsNumber_cons _ (by decide) (by decide) (by decide) (by decide)
  | cons v items =>
    rw [moreItemsOctets]
    exact endsNumber_cons _ (by decide) (by decide) (by decide) (by decide)

theorem endsNumber_moreMembers (members : List (MemberName × Written × Blanks)) (rest : Octets) :
    EndsNumber (moreMembersOctets members ++ 0x7D :: rest) := by
  cases members with
  | nil => exact endsNumber_cons _ (by decide) (by decide) (by decide) (by decide)
  | cons p members =>
    rw [moreMembersOctets]
    exact endsNumber_cons _ (by decide) (by decide) (by decide) (by decide)

end Written

theorem readValue_blanks (g : Blanks) (steps d : Nat) (text : Octets) :
    readValue steps d (Blanks.octets g ++ text) = readValue steps d text := by
  cases steps with
  | zero => rw [readValue, readValue]
  | succ steps => simp only [readValue, skipBlank_blanks]

theorem readMoreItems_blanks (g : Blanks) (steps d : Nat) (done : List Json) (text : Octets) :
    readMoreItems steps d done (Blanks.octets g ++ text) = readMoreItems steps d done text := by
  cases steps with
  | zero => rw [readMoreItems, readMoreItems]
  | succ steps => simp only [readMoreItems, skipBlank_blanks]

theorem readMoreMembers_blanks (g : Blanks) (steps d : Nat) (done : Members) (text : Octets) :
    readMoreMembers steps d done (Blanks.octets g ++ text) = readMoreMembers steps d done text := by
  cases steps with
  | zero => rw [readMoreMembers, readMoreMembers]
  | succ steps => simp only [readMoreMembers, skipBlank_blanks]

theorem expectColon_blanks (g : Blanks) (rest : Octets) :
    expectColon (Blanks.octets g ++ 0x3A :: rest) = .ok rest := by
  rw [expectColon, skipBlank_blanks, skipBlank_cons (by decide)]
  rfl

theorem length_name (l : MemberName) : 3 ≤ l.octets.length := by
  simp only [MemberName.octets, List.length_append, List.length_cons]
  omega

/-- Behind the blanks, a name begins with a quotation mark. -/
theorem skipBlank_name (l : MemberName) (tail : Octets) :
    skipBlank (l.octets ++ tail) = 0x22 :: (piecesOctets l.name ++ 0x22 ::
      (Blanks.octets l.behind ++ 0x3A :: (Blanks.octets l.after ++ tail))) := by
  simp only [MemberName.octets, List.append_assoc, List.cons_append]
  rw [skipBlank_blanks, skipBlank_cons (by decide)]

/-- A name, and the value behind it. -/
theorem readMember_name {l : MemberName} {k : String} (h : text? l.name = some k) (steps d : Nat)
    (done : Members) (tail : Octets) :
    readMember (steps + 1) d done (l.octets ++ tail) = (do
      let (v, rest) ← readValue steps d tail
      readMoreMembers steps d (insert k v done) rest) := by
  rw [readMember, skipBlank_name]
  simp [scanText_pieces h, expectColon_blanks, readValue_blanks, bind, Except.bind]

theorem readMembers_name (gap : Blanks) {l : MemberName} {k : String} (h : text? l.name = some k)
    (steps d : Nat) (tail : Octets) :
    readMembers (steps + 2) d (Blanks.octets gap ++ (l.octets ++ tail)) =
      readMember (steps + 1) d [] (l.octets ++ tail) := by
  rw [readMember_name h, readMembers, skipBlank_blanks, skipBlank_name]
  dsimp only
  rw [if_neg (by decide), readMember, skipBlank_cons (by decide)]
  simp [scanText_pieces h, expectColon_blanks, readValue_blanks, bind, Except.bind]

namespace Written

mutual

/-- A value is read as what it means. -/
theorem readValue_octets : ∀ (w : Written) (v : Json) (steps d : Nat) (rest : Octets), w.Means v →
    w.octets.length ≤ steps → v.depth ≤ d → EndsNumber rest →
    readValue steps d (w.octets ++ rest) = .ok (v, rest)
  | .null, v, steps + 1, d, rest, hv, _, _, _ => by
    subst hv
    show readValue (steps + 1) d (0x6E :: 0x75 :: 0x6C :: 0x6C :: rest) = _
    rw [readValue, skipBlank_cons (by decide)]
    simp [expect, bind, Except.bind, pure, Except.pure]
  | .bool true, v, steps + 1, d, rest, hv, _, _, _ => by
    subst hv
    show readValue (steps + 1) d (0x74 :: 0x72 :: 0x75 :: 0x65 :: rest) = _
    rw [readValue, skipBlank_cons (by decide)]
    simp [expect, bind, Except.bind, pure, Except.pure]
  | .bool false, v, steps + 1, d, rest, hv, _, _, _ => by
    subst hv
    show readValue (steps + 1) d (0x66 :: 0x61 :: 0x6C :: 0x73 :: 0x65 :: rest) = _
    rw [readValue, skipBlank_cons (by decide)]
    simp [expect, bind, Except.bind, pure, Except.pure]
  | .number n, v, steps + 1, d, rest, hv, _, _, hr => by
    obtain ⟨i, hi, rfl⟩ := hv
    rw [octets, readValue_number hi steps d hr]
  | .string s, v, steps + 1, d, rest, hv, _, _, _ => by
    obtain ⟨t, ht, rfl⟩ := hv
    have hd : isDigit 0x22 = false := by decide
    rw [octets, List.cons_append, List.append_assoc, readValue, skipBlank_cons (by decide)]
    simp [hd, scanText_pieces ht, bind, Except.bind, pure, Except.pure]
  | .array gap items, v, steps + 1, d, rest, hv, hs, hdeep, _ => by
    obtain ⟨vs, hvs, rfl⟩ := hv
    rw [depth] at hdeep
    simp only [octets, List.length_cons, List.length_append, List.length_nil] at hs
    have hi := readItems_octets gap items vs steps (d - 1) rest hvs (by omega) (by omega)
    simp only [octets, List.cons_append, List.append_assoc, List.nil_append]
    rw [readValue_bracket, if_neg (by omega), hi]
    rfl
  | .object gap members, v, steps + 1, d, rest, hv, hs, hdeep, _ => by
    obtain ⟨ms, data, hms, hperm, hdata, rfl⟩ := hv
    rw [depth] at hdeep
    simp only [octets, List.length_cons, List.length_append, List.length_nil] at hs
    have hdeep' : depthMembers ms ≤ d - 1 := by
      refine depthMembers_le_iff.2 fun p hp => ?_
      exact depthMembers_le_iff.1 (show depthMembers data ≤ d - 1 by omega) p (hperm.mem_iff.1 hp)
    have hm := readMembers_octets gap members ms steps (d - 1) rest hms (by omega) hdeep'
    simp only [octets, List.cons_append, List.append_assoc, List.nil_append]
    rw [readValue_brace, if_neg (by omega), hm, insertAll_of_perm hperm hdata]
    rfl
  | w, _, 0, _, _, _, hs, _, _ => by
    obtain ⟨b, tail, hb, _⟩ := exists_head_octets w
    rw [hb] at hs
    cases hs

theorem readItems_octets (gap : Blanks) : ∀ (items : List (Blanks × Written × Blanks))
    (vs : List Json) (steps d : Nat) (rest : Octets), ItemsMean items vs →
    (itemsOctets items).length < steps → depthItems vs ≤ d →
    readItems steps d (Blanks.octets gap ++ (itemsOctets items ++ 0x5D :: rest)) = .ok (vs, rest)
  | [], vs, steps + 1, d, rest, hvs, _, _ => by
    cases hvs
    rw [readItems, skipBlank_blanks]
    rfl
  | (before, w, behind) :: items, vs, steps + 1, d, rest, hvs, hs, hdeep => by
    obtain ⟨v, vs, hv, hvs, rfl⟩ := hvs
    obtain ⟨b, tail, hb, hopen⟩ := exists_head_octets w
    simp only [opensValue, Bool.and_eq_true, Bool.not_eq_true', decide_eq_true_eq] at hopen
    simp only [itemsOctets, List.length_append] at hs
    rw [depthItems, Nat.max_le] at hdeep
    have hpos : 0 < w.octets.length := by rw [hb]; exact Nat.succ_pos _
    have hhead := readValue_octets w v steps d
      (Blanks.octets behind ++ (moreItemsOctets items ++ 0x5D :: rest)) hv (by omega) hdeep.1
      (endsNumber_blanks behind (endsNumber_moreItems items rest))
    have htail := readMoreItems_octets items vs steps d [v] rest hvs (by omega) hdeep.2
    simp only [itemsOctets, List.append_assoc]
    rw [readItems, skipBlank_blanks, skipBlank_blanks]
    rw [hb, List.cons_append] at hhead ⊢
    rw [skipBlank_cons hopen.1]
    simp only [hopen.2, if_false]
    rw [hhead]
    exact (readMoreItems_blanks behind steps d [v] _).trans htail

theorem readMoreItems_octets : ∀ (items : List (Blanks × Written × Blanks)) (vs : List Json)
    (steps d : Nat) (done : List Json) (rest : Octets), ItemsMean items vs →
    (moreItemsOctets items).length < steps → depthItems vs ≤ d →
    readMoreItems steps d done (moreItemsOctets items ++ 0x5D :: rest) =
      .ok (done.reverse ++ vs, rest)
  | [], vs, steps + 1, d, done, rest, hvs, _, _ => by
    cases hvs
    rw [moreItemsOctets, List.nil_append, readMoreItems, skipBlank_cons (by decide)]
    simp
  | (before, w, behind) :: items, vs, steps + 1, d, done, rest, hvs, hs, hdeep => by
    obtain ⟨v, vs, hv, hvs, rfl⟩ := hvs
    simp only [moreItemsOctets, List.length_cons, List.length_append] at hs
    rw [depthItems, Nat.max_le] at hdeep
    have hhead := readValue_octets w v steps d
      (Blanks.octets behind ++ (moreItemsOctets items ++ 0x5D :: rest)) hv (by omega) hdeep.1
      (endsNumber_blanks behind (endsNumber_moreItems items rest))
    have htail := readMoreItems_octets items vs steps d (v :: done) rest hvs (by omega) hdeep.2
    simp only [moreItemsOctets, List.cons_append, List.append_assoc]
    rw [readMoreItems, skipBlank_cons (by decide)]
    simp only [if_true]
    rw [if_neg (by decide), readValue_blanks, hhead]
    refine (readMoreItems_blanks behind steps d (v :: done) _).trans ?_
    rw [htail]
    simp

theorem readMembers_octets (gap : Blanks) : ∀ (members : List (MemberName × Written × Blanks))
    (ms : Members) (steps d : Nat) (rest : Octets), MembersMean members ms →
    (membersOctets members).length < steps → depthMembers ms ≤ d →
    readMembers steps d (Blanks.octets gap ++ (membersOctets members ++ 0x7D :: rest)) =
      .ok (insertAll [] ms, rest)
  | [], ms, steps + 1, d, rest, hms, _, _ => by
    cases hms
    rw [readMembers, skipBlank_blanks]
    rfl
  | (l, w, behind) :: members, _, 1, _, _, _, hs, _ => by
    have hl := length_name l
    simp only [membersOctets, List.length_append] at hs
    omega
  | (l, w, behind) :: members, ms, steps + 2, d, rest, hms, hs, hdeep => by
    obtain ⟨k, v, ms, hk, hv, hms, rfl⟩ := hms
    have hl := length_name l
    simp only [membersOctets, List.length_append] at hs
    rw [depthMembers, Nat.max_le] at hdeep
    have hhead := readValue_octets w v steps d
      (Blanks.octets behind ++ (moreMembersOctets members ++ 0x7D :: rest)) hv (by omega) hdeep.1
      (endsNumber_blanks behind (endsNumber_moreMembers members rest))
    have htail := readMoreMembers_octets members ms steps d (insert k v []) rest hms (by omega)
      hdeep.2
    simp only [membersOctets, List.append_assoc]
    rw [readMembers_name gap hk, readMember_name hk, hhead]
    exact (readMoreMembers_blanks behind steps d _ _).trans htail

theorem readMoreMembers_octets : ∀ (members : List (MemberName × Written × Blanks)) (ms : Members)
    (steps d : Nat) (done : Members) (rest : Octets), MembersMean members ms →
    (moreMembersOctets members).length < steps → depthMembers ms ≤ d →
    readMoreMembers steps d done (moreMembersOctets members ++ 0x7D :: rest) =
      .ok (insertAll done ms, rest)
  | [], ms, steps + 1, d, done, rest, hms, _, _ => by
    cases hms
    rw [moreMembersOctets, List.nil_append, readMoreMembers, skipBlank_cons (by decide)]
    rfl
  | (l, w, behind) :: members, _, 1, _, _, _, _, hs, _ => by
    simp only [moreMembersOctets, List.length_cons] at hs
    omega
  | (l, w, behind) :: members, ms, steps + 2, d, done, rest, hms, hs, hdeep => by
    obtain ⟨k, v, ms, hk, hv, hms, rfl⟩ := hms
    have hl := length_name l
    simp only [moreMembersOctets, List.length_cons, List.length_append] at hs
    rw [depthMembers, Nat.max_le] at hdeep
    have hhead := readValue_octets w v steps d
      (Blanks.octets behind ++ (moreMembersOctets members ++ 0x7D :: rest)) hv (by omega) hdeep.1
      (endsNumber_blanks behind (endsNumber_moreMembers members rest))
    have htail := readMoreMembers_octets members ms steps d (insert k v done) rest hms (by omega)
      hdeep.2
    simp only [moreMembersOctets, List.cons_append, List.append_assoc]
    rw [readMoreMembers, skipBlank_cons (by decide)]
    simp only [if_true]
    rw [if_neg (by decide), readMember_name hk, hhead]
    exact (readMoreMembers_blanks behind steps d _ _).trans htail

end

theorem value_octets {w : Written} {v : Json} (h : w.Means v) {d : Nat} (hd : v.depth ≤ d)
    {rest : Octets} (hr : EndsNumber rest) : value d (w.octets ++ rest) = .ok (v, rest) :=
  readValue_octets w v _ d rest h (Nat.le_of_lt (length_le_stepsFor rfl)) hd hr

theorem members_octets (gap : Blanks) {members : List (MemberName × Written × Blanks)}
    {data : Members} (h : (object gap members).Means (.object data)) {d : Nat}
    (hd : depthMembers data ≤ d) (rest : Octets) :
    Json.members d (Blanks.octets gap ++ (membersOctets members ++ 0x7D :: rest)) =
      .ok (data, rest) := by
  obtain ⟨ms, data', hms, hperm, hdata, heq⟩ := h
  cases heq
  have hdeep : depthMembers ms ≤ d :=
    depthMembers_le_iff.2 fun p hp => depthMembers_le_iff.1 hd p (hperm.mem_iff.1 hp)
  rw [Json.members, readMembers_octets gap members ms _ d rest hms _ hdeep,
    insertAll_of_perm hperm hdata]
  simp only [stepsFor, List.length_append]
  omega

end Written
end Json
end FrameEngine
