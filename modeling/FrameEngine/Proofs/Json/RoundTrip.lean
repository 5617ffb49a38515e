import FrameEngine.Json.Reader
import FrameEngine.Proofs.Json.Reals

/-!
# FrameEngine.Proofs.Json.RoundTrip

A value that is written is read back (`value_render`). What comes back is the value itself, but for
numbers that are not integers (`reread`), and only if no more containers lie within each other than
are allowed: a deeper value is refused as malformed, wherever the depth is in it.

The proof follows the reader: one theorem for each of its functions, by recursion over the value.
The steps that a function is given are at least the octets it will pass over, and the keys of an
object come in order, so that each is put behind those before it.
-/

namespace FrameEngine
namespace Json

mutual

/-- What becomes of a value that is written and read: a number that is not an integer may lose its
last digits, and all else stays the same. -/
def reread : Json → Json
  | .real x =>
    match value 0 (render (.real x)) with
    | .ok (v, _) => v
    | .error _ => .real x
  | .array items => .array (rereadItems items)
  | .object members => .object (rereadMembers members)
  | v => v

def rereadItems : List Json → List Json
  | [] => []
  | v :: rest => reread v :: rereadItems rest

def rereadMembers : List (String × Json) → List (String × Json)
  | [] => []
  | (k, v) :: rest => (k, reread v) :: rereadMembers rest

end

mutual

/-- All numbers in a value are integers. -/
def WithoutReals : Json → Prop
  | .real _ => False
  | .array items => WithoutRealsItems items
  | .object members => WithoutRealsMembers members
  | _ => True

def WithoutRealsItems : List Json → Prop
  | [] => True
  | v :: rest => WithoutReals v ∧ WithoutRealsItems rest

def WithoutRealsMembers : List (String × Json) → Prop
  | [] => True
  | (_, v) :: rest => WithoutReals v ∧ WithoutRealsMembers rest

end

mutual

theorem reread_of_withoutReals : ∀ {v : Json}, v.WithoutReals → reread v = v
  | .null, _ | .bool _, _ | .integer _, _ | .string _, _ => by simp [reread]
  | .real _, h => h.elim
  | .array items, h => by rw [reread, rereadItems_of_withoutReals h]
  | .object members, h => by rw [reread, rereadMembers_of_withoutReals h]

theorem rereadItems_of_withoutReals : ∀ {items : List Json},
    WithoutRealsItems items → rereadItems items = items
  | [], _ => rfl
  | v :: rest, h => by
    rw [rereadItems, reread_of_withoutReals h.1, rereadItems_of_withoutReals h.2]

theorem rereadMembers_of_withoutReals : ∀ {members : List (String × Json)},
    WithoutRealsMembers members → rereadMembers members = members
  | [], _ => rfl
  | (k, v) :: rest, h => by
    rw [rereadMembers, reread_of_withoutReals h.1, rereadMembers_of_withoutReals h.2]

end

/-! ## Dispatch -/

theorem ne_of_isDigit {b c : UInt8} (h : isDigit b = true) (hc : isDigit c = false) : b ≠ c := by
  rintro rfl
  rw [h] at hc; cases hc

theorem isBlank_of_isDigit {b : UInt8} (h : isDigit b = true) : isBlank b = false := by
  simp [isBlank, ne_of_isDigit h (c := 0x20) (by decide), ne_of_isDigit h (c := 0x09) (by decide),
    ne_of_isDigit h (c := 0x0A) (by decide), ne_of_isDigit h (c := 0x0D) (by decide)]

theorem readValue_digit {b : UInt8} (steps d : Nat) (rest : Octets) (h : isDigit b = true) :
    readValue (steps + 1) d (b :: rest) = scanNumber true (b :: rest) := by
  rw [readValue, skipBlank_cons (isBlank_of_isDigit h)]
  simp only [ne_of_isDigit h (c := 0x6E) (by decide), ne_of_isDigit h (c := 0x74) (by decide),
    ne_of_isDigit h (c := 0x66) (by decide), ne_of_isDigit h (c := 0x2D) (by decide), h, if_false,
    if_true]

theorem readValue_minus (steps d : Nat) (rest : Octets) :
    readValue (steps + 1) d (0x2D :: rest) = scanNumber false rest := by
  rw [readValue, skipBlank_cons (by decide)]
  simp

/-- A number that begins with a digit. -/
theorem readValue_run {run tail : Octets} (steps d : Nat) (h : Whole run) :
    readValue (steps + 1) d (run ++ tail) = scanNumber true (run ++ tail) := by
  obtain ⟨b, more, rfl, hb⟩ := exists_digit_of_whole h
  exact readValue_digit steps d _ hb

theorem readValue_integer {n : Int} (hn : inRange n) (steps d : Nat) {rest : Octets}
    (hr : EndsNumber rest) :
    readValue (steps + 1) d (render (.integer n) ++ rest) = .ok (.integer n, rest) := by
  have hsize := signedLimit_eq
  have hmax : maxSignificand = UInt64.size - 1 := rfl
  obtain ⟨hlow, hhigh⟩ := hn
  have hv : runValue 0 (digitOctets n.natAbs) ≤ maxSignificand := by
    rw [runValue_digitOctets]; omega
  have hw := whole_digitOctets n.natAbs
  rw [render, ascii_integerText]
  split
  · rw [List.cons_append, readValue_minus, scanNumber_whole false hw (endsNumber_head hr) hv,
      scanFraction_integer hr, runValue_digitOctets]
    have hneg : -(n.natAbs : Int) = n := by omega
    simp only [Bool.false_eq_true, if_false, hneg]
    rw [if_neg (by omega)]
  · rw [readValue_run steps d hw, scanNumber_whole true hw (endsNumber_head hr) hv,
      scanFraction_integer hr, runValue_digitOctets]
    have hpos : (n.natAbs : Int) = n := by omega
    simp only [if_true, hpos]

theorem exists_digit_of_scanNumber {positive : Bool} {text : Octets} {r : Json × Octets}
    (h : scanNumber positive text = .ok r) : ∃ b more, text = b :: more ∧ isDigit b = true := by
  unfold scanNumber at h
  split at h
  · cases h
  · exact ⟨_, _, rfl, by decide⟩
  · rename_i b more _
    split at h
    · rename_i hd
      exact ⟨b, more, rfl, hd⟩
    · cases h

theorem exists_readValue_real {x : Binary64} (hx : x.isFinite = true) :
    ∃ y, ∀ steps d rest, EndsNumber rest →
      readValue (steps + 1) d (render (.real x) ++ rest) = .ok (.real y, rest) := by
  have hnan : x.isNaN = false := by
    have := (Binary64.isFinite_iff x).1 hx
    exact decide_eq_false (by omega)
  obtain ⟨y, hy⟩ := scanNumber_magnitude (!x.isNegative) hx
  refine ⟨y, fun steps d rest hrest => ?_⟩
  rw [← hy rest hrest]
  simp only [render, Decimal.Layout.text, hnan, hx, Bool.false_eq_true, if_false, if_true,
    ascii_append, ascii_ofList]
  cases x.isNegative with
  | true => exact readValue_minus steps d _
  | false =>
    obtain ⟨b, more, hb, hd⟩ := exists_digit_of_scanNumber (hy rest hrest)
    have := readValue_digit steps d more hd
    rw [← hb] at this
    exact this

theorem readValue_real {x : Binary64} (hx : x.isFinite = true) (steps d : Nat) {rest : Octets}
    (hr : EndsNumber rest) :
    readValue (steps + 1) d (render (.real x) ++ rest) = .ok (reread (.real x), rest) := by
  obtain ⟨y, hy⟩ := exists_readValue_real hx
  have hnil := hy (3 * (render (.real x)).length + 2) 0 [] (by intro b hb; cases hb)
  rw [List.append_nil] at hnil
  have hv : value 0 (render (.real x)) = .ok (.real y, []) := hnil
  rw [hy steps d rest hr, reread, hv]

theorem readValue_string (s : String) (steps d : Nat) (rest : Octets) :
    readValue (steps + 1) d (render (.string s) ++ rest) = .ok (.string s, rest) := by
  have ht : render (.string s) ++ rest = 0x22 :: (s.toList.flatMap escapeChar ++ 0x22 :: rest) := by
    simp [render, renderText]
  rw [ht, readValue, skipBlank_cons (by decide)]
  have hd : isDigit 0x22 = false := by decide
  simp [hd, scanText_escaped, bind, Except.bind, pure, Except.pure]

/-! ## Items and members behind the first -/

def renderMoreItems : List Json → Octets
  | [] => []
  | v :: rest => 0x2C :: (render v ++ renderMoreItems rest)

def renderMoreMembers : List (String × Json) → Octets
  | [] => []
  | (k, v) :: rest => 0x2C :: (renderText k ++ 0x3A :: (render v ++ renderMoreMembers rest))

theorem renderItems_cons (v : Json) (rest : List Json) :
    renderItems (v :: rest) = render v ++ renderMoreItems rest := by
  induction rest generalizing v with
  | nil => rw [renderItems, renderMoreItems, List.append_nil]
  | cons w rest ih => rw [renderItems, ih, renderMoreItems]

theorem renderMembers_cons (k : String) (v : Json) (rest : List (String × Json)) :
    renderMembers ((k, v) :: rest) =
      renderText k ++ 0x3A :: (render v ++ renderMoreMembers rest) := by
  induction rest generalizing k v with
  | nil => rw [renderMembers, renderMoreMembers, List.append_nil]
  | cons p rest ih =>
    obtain ⟨k', v'⟩ := p
    rw [renderMembers, ih, renderMoreMembers]

theorem endsNumber_cons {b : UInt8} (rest : Octets) (h : isDigit b = false) (h1 : b ≠ 0x2E)
    (h2 : b ≠ 0x65) (h3 : b ≠ 0x45) : EndsNumber (b :: rest) := by
  intro c hc
  cases hc
  exact ⟨h, h1, h2, h3⟩

theorem endsNumber_moreItems (items : List Json) (rest : Octets) :
    EndsNumber (renderMoreItems items ++ 0x5D :: rest) := by
  cases items with
  | nil => exact endsNumber_cons _ (by decide) (by decide) (by decide) (by decide)
  | cons v items => exact endsNumber_cons _ (by decide) (by decide) (by decide) (by decide)

theorem endsNumber_moreMembers (members : List (String × Json)) (rest : Octets) :
    EndsNumber (renderMoreMembers members ++ 0x7D :: rest) := by
  cases members with
  | nil => exact endsNumber_cons _ (by decide) (by decide) (by decide) (by decide)
  | cons p members => exact endsNumber_cons _ (by decide) (by decide) (by decide) (by decide)

/-- An octet that a value can begin with: no blank and no closing bracket. -/
def opensValue (b : UInt8) : Bool := !isBlank b && b ≠ 0x5D

theorem opensValue_of_isDigit {b : UInt8} (h : isDigit b = true) : opensValue b = true := by
  simp [opensValue, isBlank_of_isDigit h, ne_of_isDigit h (c := 0x5D) (by decide)]

theorem exists_head_real {x : Binary64} (hx : x.isFinite = true) :
    ∃ b tail, render (.real x) = b :: tail ∧ opensValue b = true := by
  have hnan : x.isNaN = false := by
    have := (Binary64.isFinite_iff x).1 hx
    exact decide_eq_false (by omega)
  obtain ⟨y, hy⟩ := scanNumber_magnitude true hx
  obtain ⟨b, more, hb, hd⟩ := exists_digit_of_scanNumber (hy [] (by intro b hb; cases hb))
  rw [List.append_nil] at hb
  simp only [render, Decimal.Layout.text, hnan, hx, Bool.false_eq_true, if_false, if_true,
    ascii_append, ascii_ofList]
  cases x.isNegative with
  | true => exact ⟨0x2D, _, rfl, by decide⟩
  | false => exact ⟨b, more, hb, opensValue_of_isDigit hd⟩

theorem exists_head_render {v : Json} (h : v.WellFormed) :
    ∃ b tail, render v = b :: tail ∧ opensValue b = true := by
  cases v with
  | null => exact ⟨_, _, rfl, by decide⟩
  | bool b => cases b <;> exact ⟨_, _, rfl, by decide⟩
  | integer n =>
    obtain ⟨b, more, hb, hd⟩ := exists_digit_of_whole (whole_digitOctets n.natAbs)
    rw [render, ascii_integerText]
    split
    · exact ⟨0x2D, _, rfl, by decide⟩
    · exact ⟨b, more, hb, opensValue_of_isDigit hd⟩
  | real x => exact exists_head_real h
  | string s => exact ⟨_, _, rfl, by decide⟩
  | array items => exact ⟨_, _, rfl, by decide⟩
  | object members => exact ⟨_, _, rfl, by decide⟩

theorem insert_of_forall_lt {k : String} {v : Json} {done : Members}
    (h : ∀ p ∈ done, p.1 < k) : insert k v done = done ++ [(k, v)] := by
  induction done with
  | nil => rfl
  | cons p done ih =>
    obtain ⟨k', v'⟩ := p
    have hk : k' < k := h _ List.mem_cons_self
    have hne : k ≠ k' := by
      rintro rfl
      exact String.lt_irrefl k hk
    rw [insert, if_neg (String.lt_asymm hk), if_neg hne,
      ih fun q hq => h q (List.mem_cons_of_mem _ hq), List.cons_append]

theorem increasing_iff_pairwise {keys : List String} :
    Increasing keys ↔ keys.Pairwise (· < ·) := by
  induction keys with
  | nil => simp [Increasing]
  | cons a keys ih =>
    cases keys with
    | nil => simp [Increasing]
    | cons b rest =>
      rw [Increasing, ih, List.pairwise_cons (a := a)]
      constructor
      · rintro ⟨hab, hrest⟩
        refine ⟨fun c hc => ?_, hrest⟩
        rcases List.mem_cons.1 hc with rfl | hc
        · exact hab
        · exact String.lt_trans hab ((List.pairwise_cons.1 hrest).1 c hc)
      · rintro ⟨ha, hrest⟩
        exact ⟨ha b List.mem_cons_self, hrest⟩

/-- A member whose key stands behind all keys so far. -/
theorem readMember_render (steps d : Nat) (k : String) (done : Members) (tail : Octets) :
    readMember (steps + 1) d done (renderText k ++ 0x3A :: tail) = (do
      let (v, rest) ← readValue steps d tail
      readMoreMembers steps d (insert k v done) rest) := by
  have ht : renderText k ++ 0x3A :: tail =
      0x22 :: (k.toList.flatMap escapeChar ++ 0x22 :: 0x3A :: tail) := by
    simp [renderText]
  have hc : expectColon (0x3A :: tail) = .ok tail := by
    rw [expectColon, skipBlank_cons (by decide)]; rfl
  rw [ht, readMember, skipBlank_cons (by decide)]
  simp [scanText_escaped, hc, bind, Except.bind]

/-! ## Values -/

/-- What reading gives of a part that holds so many containers within each other, where so many
are allowed. -/
def bounded {α : Type} (deep allowed : Nat) (a : α) (rest : Octets) : Except Fault (α × Octets) :=
  if deep ≤ allowed then .ok (a, rest) else .error .malformed

/-- A part, and then what stands behind it. -/
theorem bounded_bind {α β : Type} {deep deep' allowed : Nat} {a : α} {b : β} {rest rest' : Octets}
    {f : α × Octets → Except Fault (β × Octets)} (h : f (a, rest) = bounded deep' allowed b rest') :
    (bounded deep allowed a rest >>= f) = bounded (max deep deep') allowed b rest' := by
  unfold bounded at *
  by_cases hd : deep ≤ allowed
  · rw [if_pos hd]
    refine Eq.trans h ?_
    by_cases hd' : deep' ≤ allowed
    · rw [if_pos hd', if_pos (Nat.max_le.2 ⟨hd, hd'⟩)]
    · rw [if_neg hd', if_neg fun hm => hd' (Nat.max_le.1 hm).2]
  · rw [if_neg hd, if_neg fun hm => hd (Nat.max_le.1 hm).1]; rfl

/-- A container around a part. -/
theorem bounded_succ {α β : Type} (deep allowed : Nat) (f : α → β) (a : α) (rest : Octets) :
    (if allowed = 0 then .error .malformed
      else (bounded deep (allowed - 1) a rest >>= fun r => .ok (f r.1, r.2))) =
      bounded (1 + deep) allowed (f a) rest := by
  unfold bounded
  by_cases h0 : allowed = 0
  · rw [if_pos h0, if_neg (by omega)]
  · rw [if_neg h0]
    by_cases h : deep ≤ allowed - 1
    · rw [if_pos h, if_pos (by omega)]; rfl
    · rw [if_neg h, if_neg (by omega)]; rfl

theorem readValue_bracket (steps d : Nat) (tail : Octets) :
    readValue (steps + 1) d (0x5B :: tail) =
      if d = 0 then .error .malformed
      else (readItems steps (d - 1) tail >>= fun r => .ok (.array r.1, r.2)) := by
  have hd : isDigit 0x5B = false := by decide
  rw [readValue, skipBlank_cons (by decide)]
  simp only [hd]
  rfl

theorem readValue_brace (steps d : Nat) (tail : Octets) :
    readValue (steps + 1) d (0x7B :: tail) =
      if d = 0 then .error .malformed
      else (readMembers steps (d - 1) tail >>= fun r => .ok (.object r.1, r.2)) := by
  have hd : isDigit 0x7B = false := by decide
  rw [readValue, skipBlank_cons (by decide)]
  simp only [hd]
  rfl

mutual

theorem readValue_render : ∀ (v : Json) (steps d : Nat) (rest : Octets), v.WellFormed →
    (render v).length ≤ steps → EndsNumber rest →
    readValue steps d (render v ++ rest) = bounded (depth v) d (reread v) rest
  | .null, steps + 1, d, rest, _, _, _ => by
    show readValue (steps + 1) d (0x6E :: 0x75 :: 0x6C :: 0x6C :: rest) = _
    rw [readValue, skipBlank_cons (by decide)]
    simp [expect, bounded, depth, reread, bind, Except.bind, pure, Except.pure]
  | .bool true, steps + 1, d, rest, _, _, _ => by
    show readValue (steps + 1) d (0x74 :: 0x72 :: 0x75 :: 0x65 :: rest) = _
    rw [readValue, skipBlank_cons (by decide)]
    simp [expect, bounded, depth, reread, bind, Except.bind, pure, Except.pure]
  | .bool false, steps + 1, d, rest, _, _, _ => by
    show readValue (steps + 1) d (0x66 :: 0x61 :: 0x6C :: 0x73 :: 0x65 :: rest) = _
    rw [readValue, skipBlank_cons (by decide)]
    simp [expect, bounded, depth, reread, bind, Except.bind, pure, Except.pure]
  | .integer n, steps + 1, d, rest, hv, _, hr => by
    rw [readValue_integer hv steps d hr]; simp [bounded, depth, reread]
  | .real x, steps + 1, d, rest, hv, _, hr => by
    rw [readValue_real hv steps d hr]; simp [bounded, depth]
  | .string s, steps + 1, d, rest, _, _, _ => by
    rw [readValue_string]; simp [bounded, depth, reread]
  | .array items, steps + 1, d, rest, hv, hs, _ => by
    simp only [render, List.length_cons, List.length_append, List.length_nil] at hs
    have hi := readItems_render items steps (d - 1) rest hv (by omega)
    rw [render, List.cons_append, List.append_assoc, readValue_bracket]
    rw [List.singleton_append, hi]
    exact bounded_succ _ d Json.array _ rest
  | .object members, steps + 1, d, rest, hv, hs, _ => by
    simp only [render, List.length_cons, List.length_append, List.length_nil] at hs
    have hm := readMembers_render members steps (d - 1) rest hv.2 (by omega)
      (increasing_iff_pairwise.1 hv.1)
    rw [render, List.cons_append, List.append_assoc, readValue_brace]
    rw [List.singleton_append, hm]
    exact bounded_succ _ d Json.object _ rest
  | v, 0, _, _, hv, hs, _ => by
    obtain ⟨b, tail, hb, _⟩ := exists_head_render hv
    rw [hb] at hs
    cases hs

theorem readItems_render : ∀ (items : List Json) (steps d : Nat) (rest : Octets),
    WellFormedItems items → (renderItems items).length < steps →
    readItems steps d (renderItems items ++ 0x5D :: rest) =
      bounded (depthItems items) d (rereadItems items) rest
  | [], steps + 1, d, rest, _, _ => by
    show readItems (steps + 1) d (0x5D :: rest) = _
    rw [readItems, skipBlank_cons (by decide)]
    simp [bounded, depthItems, rereadItems]
  | v :: items, steps + 1, d, rest, h, hs => by
    obtain ⟨hv, hitems⟩ := h
    obtain ⟨b, tail, hb, hopen⟩ := exists_head_render hv
    simp only [opensValue, Bool.and_eq_true, Bool.not_eq_true', decide_eq_true_eq] at hopen
    simp only [renderItems_cons, List.length_append] at hs
    have hpos : 0 < (render v).length := by rw [hb]; exact Nat.succ_pos _
    have hhead := readValue_render v steps d (renderMoreItems items ++ 0x5D :: rest) hv
      (by omega) (endsNumber_moreItems items rest)
    have htail := readMoreItems_render items steps d [reread v] rest hitems (by omega)
    rw [renderItems_cons, List.append_assoc]
    rw [hb, List.cons_append] at hhead ⊢
    rw [readItems, skipBlank_cons hopen.1]
    simp only [hopen.2, if_false]
    rw [hhead, depthItems, rereadItems]
    exact bounded_bind htail

theorem readMoreItems_render : ∀ (items : List Json) (steps d : Nat) (done : List Json)
    (rest : Octets), WellFormedItems items → (renderMoreItems items).length < steps →
    readMoreItems steps d done (renderMoreItems items ++ 0x5D :: rest) =
      bounded (depthItems items) d (done.reverse ++ rereadItems items) rest
  | [], steps + 1, d, done, rest, _, _ => by
    show readMoreItems (steps + 1) d done (0x5D :: rest) = _
    rw [readMoreItems, skipBlank_cons (by decide)]
    simp [bounded, depthItems, rereadItems]
  | v :: items, steps + 1, d, done, rest, h, hs => by
    obtain ⟨hv, hitems⟩ := h
    simp only [renderMoreItems, List.length_cons, List.length_append] at hs
    have hhead := readValue_render v steps d (renderMoreItems items ++ 0x5D :: rest) hv (by omega)
      (endsNumber_moreItems items rest)
    have htail := readMoreItems_render items steps d (reread v :: done) rest hitems (by omega)
    rw [renderMoreItems, List.cons_append, List.append_assoc, readMoreItems,
      skipBlank_cons (by decide)]
    simp only [if_true]
    rw [if_neg (by decide), hhead, depthItems, rereadItems]
    refine bounded_bind ?_
    rw [htail]
    simp

theorem readMembers_render : ∀ (members : List (String × Json)) (steps d : Nat) (rest : Octets),
    WellFormedMembers members → (renderMembers members).length < steps →
    (members.map Prod.fst).Pairwise (· < ·) →
    readMembers steps d (renderMembers members ++ 0x7D :: rest) =
      bounded (depthMembers members) d (rereadMembers members) rest
  | [], steps + 1, d, rest, _, _, _ => by
    show readMembers (steps + 1) d (0x7D :: rest) = _
    rw [readMembers, skipBlank_cons (by decide)]
    simp [bounded, depthMembers, rereadMembers]
  | (k, v) :: members, 1, _, _, _, hs, _ => by simp [renderMembers_cons] at hs
  | (k, v) :: members, steps + 2, d, rest, h, hs, hk => by
    obtain ⟨hv, hmembers⟩ := h
    simp only [renderMembers_cons, List.length_append, List.length_cons] at hs
    have hpos : 2 ≤ (renderText k).length := by simp [renderText]
    have hhead := readValue_render v steps d (renderMoreMembers members ++ 0x7D :: rest) hv
      (by omega) (endsNumber_moreMembers members rest)
    have htail := readMoreMembers_render members steps d [(k, reread v)] rest hmembers (by omega) hk
    have hm := readMember_render steps d k []
      (render v ++ (renderMoreMembers members ++ 0x7D :: rest))
    rw [renderMembers_cons, List.append_assoc, List.cons_append, List.append_assoc]
    rw [renderText, List.cons_append] at hm ⊢
    rw [readMembers, skipBlank_cons (by decide)]
    simp only []
    rw [if_neg (by decide), hm, hhead, depthMembers, rereadMembers]
    exact bounded_bind htail

theorem readMoreMembers_render : ∀ (members : List (String × Json)) (steps d : Nat)
    (done : Members) (rest : Octets), WellFormedMembers members →
    (renderMoreMembers members).length < steps →
    (done.map Prod.fst ++ members.map Prod.fst).Pairwise (· < ·) →
    readMoreMembers steps d done (renderMoreMembers members ++ 0x7D :: rest) =
      bounded (depthMembers members) d (done ++ rereadMembers members) rest
  | [], steps + 1, d, done, rest, _, _, _ => by
    show readMoreMembers (steps + 1) d done (0x7D :: rest) = _
    rw [readMoreMembers, skipBlank_cons (by decide)]
    simp [bounded, depthMembers, rereadMembers]
  | (k, v) :: members, 1, _, _, _, _, hs, _ => by simp [renderMoreMembers] at hs
  | (k, v) :: members, steps + 2, d, done, rest, h, hs, hk => by
    obtain ⟨hv, hmembers⟩ := h
    simp only [renderMoreMembers, List.length_cons, List.length_append] at hs
    have hlast : ∀ p ∈ done, p.1 < k := fun p hp =>
      (List.pairwise_append.1 hk).2.2 p.1 (List.mem_map_of_mem hp) k List.mem_cons_self
    have hk' : ((done ++ [(k, reread v)]).map Prod.fst ++ members.map Prod.fst).Pairwise
        (· < ·) := by
      simpa using hk
    have hhead := readValue_render v steps d (renderMoreMembers members ++ 0x7D :: rest) hv
      (by omega) (endsNumber_moreMembers members rest)
    have htail := readMoreMembers_render members steps d (done ++ [(k, reread v)]) rest hmembers
      (by omega) hk'
    rw [renderMoreMembers, List.cons_append, List.append_assoc, List.cons_append,
      List.append_assoc, readMoreMembers, skipBlank_cons (by decide)]
    simp only [if_true]
    rw [if_neg (by decide), readMember_render, hhead, depthMembers, rereadMembers]
    refine bounded_bind ?_
    dsimp only
    rw [insert_of_forall_lt hlast, htail, List.append_assoc]
    rfl

end

theorem length_le_stepsFor {text front : Octets} {rest : Octets} (h : text = front ++ rest) :
    front.length < stepsFor text := by
  rw [h, stepsFor, List.length_append]; omega

/-- A written value is read back off the front of a text, and refused if its containers lie too
deep within each other. -/
theorem value_render {v : Json} (h : v.WellFormed) (d : Nat) {rest : Octets}
    (hr : EndsNumber rest) :
    value d (render v ++ rest) = bounded (depth v) d (reread v) rest :=
  readValue_render v _ d rest h (Nat.le_of_lt (length_le_stepsFor rfl)) hr

theorem members_render {data : Members} (h : (object data).WellFormed) (d : Nat) (rest : Octets) :
    members d (renderMembers data ++ 0x7D :: rest) =
      bounded (depthMembers data) d (rereadMembers data) rest :=
  readMembers_render data _ d rest h.2 (length_le_stepsFor rfl) (increasing_iff_pairwise.1 h.1)

end Json
end FrameEngine
