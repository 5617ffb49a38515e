import FrameEngine.Proofs.Json.Reading

/-!
# FrameEngine.Proofs.Json.Skipping

A value that is not wanted is passed over, whatever it is (`Written.skip_octets`): no depth is too
deep, no number too large, and a string need not mean a text. The proof follows that of reading.
-/

namespace FrameEngine
namespace Json

/-! ## Strings -/

theorem skipTextIn_plain {octets : Octets} (h : ∀ b ∈ octets, isPlain b = true) (rest : Octets) :
    skipTextIn .plain (octets ++ rest) = skipTextIn .plain rest := by
  induction octets with
  | nil => rfl
  | cons b octets ih =>
    have hb := h b List.mem_cons_self
    simp only [isPlain, Bool.and_eq_true, decide_eq_true_eq] at hb
    obtain ⟨⟨h1, h2⟩, h3⟩ := hb
    have h4 : ¬ b < 0x20 := UInt8.not_lt.2 h3
    simp only [List.cons_append, skipTextIn, h1, h2, h4, if_false]
    exact ih fun x hx => h x (List.mem_cons_of_mem _ hx)

/-- Any part of a string is passed over, surrogates that stand alone among them. -/
theorem skipTextIn_piece (p : Piece) (rest : Octets) :
    skipTextIn .plain (p.octets ++ rest) = skipTextIn .plain rest := by
  cases p with
  | plain c h1 h2 h3 => exact skipTextIn_plain (isPlain_ofChar h1 h2 h3) rest
  | escape e =>
    cases e <;> simp [Piece.octets, Escape.letter, skipTextIn, simpleEscape?]
  | unit a b c d =>
    simp [Piece.octets, skipTextIn, hexDigit?_octet]

theorem skipText_pieces (s : List Piece) (rest : Octets) :
    skipText (piecesOctets s ++ 0x22 :: rest) = .ok rest := by
  induction s with
  | nil => rfl
  | cons p s ih => rw [piecesOctets_cons, skipText, skipTextIn_piece]; exact ih

/-! ## Numbers -/

theorem skipNumber_whole {run rest : Octets} (h : Whole run)
    (hr : ∀ b ∈ rest.head?, isDigit b = false) : skipNumber (run ++ rest) = skipFraction rest := by
  have hd := isDigit_of_mem_whole h
  have hw := dropWhile_run hd hr
  cases h with
  | zero =>
    cases rest with
    | nil => rfl
    | cons b rest =>
      show (if isDigit b = true then _ else _) = _
      rw [hr b rfl]; rfl
  | @leading b run lead digits =>
    rw [List.cons_append] at hw ⊢
    rw [skipNumber]
    · rw [if_pos (hd b List.mem_cons_self), hw]
    · intro h; exact absurd h lead

theorem skipExponent_run {b : UInt8} {run rest : Octets} (sign : Option Bool)
    (h : ∀ x ∈ b :: run, isDigit x = true) (hr : ∀ x ∈ rest.head?, isDigit x = false) :
    skipExponent (signPart sign ++ (b :: run ++ rest)) = .ok rest := by
  have hb : isDigit b = true := h b List.mem_cons_self
  have hdrop := dropWhile_run (fun x hx => h x (List.mem_cons_of_mem b hx)) hr
  cases sign with
  | none =>
    rw [signPart, List.nil_append, List.cons_append, skipExponent]
    · simp only [hb, hdrop, if_true]
    · intro tail h; cases h; exact absurd hb (by decide)
    · intro tail h; cases h; exact absurd hb (by decide)
  | some minus => cases minus <;> simp [signPart, skipExponent, hb, hdrop]

theorem skipFraction_exponent (e : Option Exponent) {rest : Octets} (hr : EndsNumber rest) :
    skipFraction (exponentPart e ++ rest) = .ok rest := by
  cases e with
  | none =>
    rw [exponentPart, List.nil_append]
    unfold skipFraction
    split
    · exact absurd rfl (hr _ rfl).2.1
    · exact absurd rfl (hr _ rfl).2.2.1
    · exact absurd rfl (hr _ rfl).2.2.2
    · rfl
  | some e =>
    have hskip := skipExponent_run e.sign
      (isDigit_of_mem_digitsOctets (e.first :: e.rest)) (endsNumber_head hr)
    rw [exponentPart, Exponent.octets, List.cons_append, List.append_assoc]
    cases e.upper <;> exact hskip

theorem exponentPart_head (e : Option Exponent) {rest : Octets} (hr : EndsNumber rest) :
    ∀ b ∈ (exponentPart e ++ rest).head?, isDigit b = false := by
  cases e with
  | none => exact endsNumber_head hr
  | some e =>
    intro b hb
    cases hb
    cases e.upper <;> decide

theorem skipFraction_parts (f : Option (Digit × List Digit)) (e : Option Exponent) {rest : Octets}
    (hr : EndsNumber rest) :
    skipFraction (fractionPart f ++ (exponentPart e ++ rest)) = .ok rest := by
  have hexponent := skipFraction_exponent e hr
  have hhead := exponentPart_head e hr
  cases f with
  | none => exact hexponent
  | some f =>
    obtain ⟨first, more⟩ := f
    have hd := isDigit_of_mem_digitsOctets (first :: more)
    have htake := takeWhile_run hd hhead
    have hdrop := dropWhile_run hd hhead
    rw [fractionPart, List.cons_append, skipFraction]
    rw [htake, if_neg (by simp [digitsOctets]), hdrop]
    cases e with
    | none =>
      rw [exponentPart, List.nil_append]
      split
      · exact absurd rfl (hr _ rfl).2.2.1
      · exact absurd rfl (hr _ rfl).2.2.2
      · rfl
    | some e =>
      revert hexponent
      rw [exponentPart, Exponent.octets]
      cases e.upper <;> exact id

/-- Any number is passed over behind its sign, be it of any size. -/
theorem skipNumber_magnitude (n : Number) {rest : Octets} (hr : EndsNumber rest) :
    skipNumber (n.magnitudeOctets ++ rest) = .ok rest := by
  have hhead : ∀ b ∈ (fractionPart n.fraction ++ (exponentPart n.exponent ++ rest)).head?,
      isDigit b = false := by
    cases n.fraction with
    | some f => intro b hb; cases hb; decide
    | none => exact exponentPart_head n.exponent hr
  rw [Number.magnitudeOctets, List.append_assoc, List.append_assoc,
    skipNumber_whole (whole_magnitude n.whole) hhead]
  exact skipFraction_parts n.fraction n.exponent hr

/-! ## Values -/

theorem skipValueIn_blanks (g : Blanks) (steps : Nat) (text : Octets) :
    skipValueIn steps (Blanks.octets g ++ text) = skipValueIn steps text := by
  cases steps with
  | zero => rw [skipValueIn, skipValueIn]
  | succ steps => simp only [skipValueIn, skipBlank_blanks]

theorem skipMoreItems_blanks (g : Blanks) (steps : Nat) (text : Octets) :
    skipMoreItems steps (Blanks.octets g ++ text) = skipMoreItems steps text := by
  cases steps with
  | zero => rw [skipMoreItems, skipMoreItems]
  | succ steps => simp only [skipMoreItems, skipBlank_blanks]

theorem skipMoreMembers_blanks (g : Blanks) (steps : Nat) (text : Octets) :
    skipMoreMembers steps (Blanks.octets g ++ text) = skipMoreMembers steps text := by
  cases steps with
  | zero => rw [skipMoreMembers, skipMoreMembers]
  | succ steps => simp only [skipMoreMembers, skipBlank_blanks]

theorem skipMember_name (l : MemberName) (steps : Nat) (tail : Octets) :
    skipMember (steps + 1) (l.octets ++ tail) = (do
      skipMoreMembers steps (← skipValueIn steps tail)) := by
  rw [skipMember, skipBlank_name]
  simp [skipText_pieces, expectColon_blanks, skipValueIn_blanks, bind, Except.bind]

theorem skipMembers_name (gap : Blanks) (l : MemberName) (steps : Nat) (tail : Octets) :
    skipMembers (steps + 2) (Blanks.octets gap ++ (l.octets ++ tail)) =
      skipMember (steps + 1) (l.octets ++ tail) := by
  rw [skipMember_name, skipMembers, skipBlank_blanks, skipBlank_name]
  dsimp only
  rw [if_neg (by decide), skipMember, skipBlank_cons (by decide)]
  simp [skipText_pieces, expectColon_blanks, skipValueIn_blanks, bind, Except.bind]

theorem skipValueIn_number (n : Number) (steps : Nat) {rest : Octets} (hr : EndsNumber rest) :
    skipValueIn (steps + 1) (n.octets ++ rest) = .ok rest := by
  have hskip := skipNumber_magnitude n hr
  rw [Number.octets]
  split
  · rw [List.cons_append, skipValueIn, skipBlank_cons (by decide)]
    simpa using hskip
  · obtain ⟨b, more, hb, hd⟩ := exists_digit_of_whole (whole_magnitude n.whole)
    have hn : n.magnitudeOctets ++ rest = b :: (more ++
        (fractionPart n.fraction ++ exponentPart n.exponent) ++ rest) := by
      rw [Number.magnitudeOctets, hb]; rfl
    rw [hn] at hskip ⊢
    rw [skipValueIn, skipBlank_cons (isBlank_of_isDigit hd)]
    simp only [ne_of_isDigit hd (show isDigit 0x6E = false by decide),
      ne_of_isDigit hd (show isDigit 0x74 = false by decide),
      ne_of_isDigit hd (show isDigit 0x66 = false by decide),
      ne_of_isDigit hd (show isDigit 0x2D = false by decide), hd, if_false, if_true]
    exact hskip

namespace Written

mutual

theorem skipValueIn_octets : ∀ (w : Written) (steps : Nat) (rest : Octets),
    w.octets.length ≤ steps → EndsNumber rest → skipValueIn steps (w.octets ++ rest) = .ok rest
  | .null, steps + 1, rest, _, _ => by
    show skipValueIn (steps + 1) (0x6E :: 0x75 :: 0x6C :: 0x6C :: rest) = _
    rw [skipValueIn, skipBlank_cons (by decide)]
    simp [expect]
  | .bool true, steps + 1, rest, _, _ => by
    show skipValueIn (steps + 1) (0x74 :: 0x72 :: 0x75 :: 0x65 :: rest) = _
    rw [skipValueIn, skipBlank_cons (by decide)]
    simp [expect]
  | .bool false, steps + 1, rest, _, _ => by
    show skipValueIn (steps + 1) (0x66 :: 0x61 :: 0x6C :: 0x73 :: 0x65 :: rest) = _
    rw [skipValueIn, skipBlank_cons (by decide)]
    simp [expect]
  | .number n, steps + 1, rest, _, hr => by
    rw [octets, skipValueIn_number n steps hr]
  | .string s, steps + 1, rest, _, _ => by
    have hd : isDigit 0x22 = false := by decide
    rw [octets, List.cons_append, List.append_assoc, skipValueIn, skipBlank_cons (by decide)]
    simp [hd, skipText_pieces]
  | .array gap items, steps + 1, rest, hs, _ => by
    have hd : isDigit 0x5B = false := by decide
    simp only [octets, List.length_cons, List.length_append, List.length_nil] at hs
    have hi := skipItems_octets gap items steps rest (by omega)
    simp only [octets, List.cons_append, List.append_assoc, List.nil_append]
    rw [skipValueIn, skipBlank_cons (by decide)]
    simp [hd, hi]
  | .object gap members, steps + 1, rest, hs, _ => by
    have hd : isDigit 0x7B = false := by decide
    simp only [octets, List.length_cons, List.length_append, List.length_nil] at hs
    have hm := skipMembers_octets gap members steps rest (by omega)
    simp only [octets, List.cons_append, List.append_assoc, List.nil_append]
    rw [skipValueIn, skipBlank_cons (by decide)]
    simp [hd, hm]
  | w, 0, _, hs, _ => by
    obtain ⟨b, tail, hb, _⟩ := exists_head_octets w
    rw [hb] at hs
    cases hs

theorem skipItems_octets (gap : Blanks) : ∀ (items : List (Blanks × Written × Blanks)) (steps : Nat)
    (rest : Octets), (itemsOctets items).length < steps →
    skipItems steps (Blanks.octets gap ++ (itemsOctets items ++ 0x5D :: rest)) = .ok rest
  | [], steps + 1, rest, _ => by
    rw [skipItems, skipBlank_blanks]
    rfl
  | (before, w, behind) :: items, steps + 1, rest, hs => by
    obtain ⟨b, tail, hb, hopen⟩ := exists_head_octets w
    simp only [opensValue, Bool.and_eq_true, Bool.not_eq_true', decide_eq_true_eq] at hopen
    simp only [itemsOctets, List.length_append] at hs
    have hpos : 0 < w.octets.length := by rw [hb]; exact Nat.succ_pos _
    have hhead := skipValueIn_octets w steps
      (Blanks.octets behind ++ (moreItemsOctets items ++ 0x5D :: rest)) (by omega)
      (endsNumber_blanks behind (endsNumber_moreItems items rest))
    have htail := skipMoreItems_octets items steps rest (by omega)
    simp only [itemsOctets, List.append_assoc]
    rw [skipItems, skipBlank_blanks, skipBlank_blanks]
    rw [hb, List.cons_append] at hhead ⊢
    rw [skipBlank_cons hopen.1]
    simp only [hopen.2, if_false]
    rw [hhead]
    exact (skipMoreItems_blanks behind steps _).trans htail

theorem skipMoreItems_octets : ∀ (items : List (Blanks × Written × Blanks)) (steps : Nat)
    (rest : Octets), (moreItemsOctets items).length < steps →
    skipMoreItems steps (moreItemsOctets items ++ 0x5D :: rest) = .ok rest
  | [], steps + 1, rest, _ => by
    rw [moreItemsOctets, List.nil_append, skipMoreItems, skipBlank_cons (by decide)]
    rfl
  | (before, w, behind) :: items, steps + 1, rest, hs => by
    simp only [moreItemsOctets, List.length_cons, List.length_append] at hs
    have hhead := skipValueIn_octets w steps
      (Blanks.octets behind ++ (moreItemsOctets items ++ 0x5D :: rest)) (by omega)
      (endsNumber_blanks behind (endsNumber_moreItems items rest))
    have htail := skipMoreItems_octets items steps rest (by omega)
    simp only [moreItemsOctets, List.cons_append, List.append_assoc]
    rw [skipMoreItems, skipBlank_cons (by decide)]
    simp only [if_true]
    rw [if_neg (by decide), skipValueIn_blanks, hhead]
    exact (skipMoreItems_blanks behind steps _).trans htail

theorem skipMembers_octets (gap : Blanks) : ∀ (members : List (MemberName × Written × Blanks))
    (steps : Nat) (rest : Octets), (membersOctets members).length < steps →
    skipMembers steps (Blanks.octets gap ++ (membersOctets members ++ 0x7D :: rest)) = .ok rest
  | [], steps + 1, rest, _ => by
    rw [skipMembers, skipBlank_blanks]
    rfl
  | (l, w, behind) :: members, 1, _, hs => by
    have hl := length_name l
    simp only [membersOctets, List.length_append] at hs
    omega
  | (l, w, behind) :: members, steps + 2, rest, hs => by
    have hl := length_name l
    simp only [membersOctets, List.length_append] at hs
    have hhead := skipValueIn_octets w steps
      (Blanks.octets behind ++ (moreMembersOctets members ++ 0x7D :: rest)) (by omega)
      (endsNumber_blanks behind (endsNumber_moreMembers members rest))
    have htail := skipMoreMembers_octets members steps rest (by omega)
    simp only [membersOctets, List.append_assoc]
    rw [skipMembers_name, skipMember_name, hhead]
    exact (skipMoreMembers_blanks behind steps _).trans htail

theorem skipMoreMembers_octets : ∀ (members : List (MemberName × Written × Blanks)) (steps : Nat)
    (rest : Octets), (moreMembersOctets members).length < steps →
    skipMoreMembers steps (moreMembersOctets members ++ 0x7D :: rest) = .ok rest
  | [], steps + 1, rest, _ => by
    rw [moreMembersOctets, List.nil_append, skipMoreMembers, skipBlank_cons (by decide)]
    rfl
  | (l, w, behind) :: members, 1, _, hs => by
    simp only [moreMembersOctets, List.length_cons] at hs
    omega
  | (l, w, behind) :: members, steps + 2, rest, hs => by
    have hl := length_name l
    simp only [moreMembersOctets, List.length_cons, List.length_append] at hs
    have hhead := skipValueIn_octets w steps
      (Blanks.octets behind ++ (moreMembersOctets members ++ 0x7D :: rest)) (by omega)
      (endsNumber_blanks behind (endsNumber_moreMembers members rest))
    have htail := skipMoreMembers_octets members steps rest (by omega)
    simp only [moreMembersOctets, List.cons_append, List.append_assoc]
    rw [skipMoreMembers, skipBlank_cons (by decide)]
    simp only [if_true]
    rw [if_neg (by decide), skipMember_name, hhead]
    exact (skipMoreMembers_blanks behind steps _).trans htail

end

/-- A value behind blanks is passed over. -/
theorem skip_octets (g : Blanks) (w : Written) {rest : Octets} (hr : EndsNumber rest) :
    skip (Blanks.octets g ++ (w.octets ++ rest)) = .ok rest := by
  rw [skip, skipValueIn_blanks]
  refine skipValueIn_octets w _ rest ?_ hr
  simp only [stepsFor, List.length_append]
  omega

end Written
end Json
end FrameEngine
