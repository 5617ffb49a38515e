import FrameEngine.Proofs.Framing.Acceptance
import FrameEngine.Proofs.Json.Skipping

/-!
# FrameEngine.Proofs.Framing.Spelling

The texts that spell a message (`Spells`): its members in any order, with any blanks and among
others, and without the data or the timestamp if that is what their absence means. All of them are
read as that message (`unpack_of_spells`).

The reader takes the members one by one into its fields. What carries it is that the fields so far
and the members to come make up the message, each value in one of the two places (`Completes`).
-/

namespace FrameEngine
namespace Framing

open Json (Members EndsNumber Blanks MemberName Written text? skipBlank)

namespace Body

/-- The values under a key. -/
def named (key : Key) (members : List (MemberName × Written × Blanks)) : List Written :=
  members.filterMap fun p => if text? p.1.name = some key.name then some p.2.1 else none

/-- A value that stands for that of a message; for no data there are two. -/
def Gives (m : JsonMessage) : Key → Written → Prop
  | .type, w => w.Means (.integer m.type.toNat)
  | .sequence, w => w.Means (.integer m.sequence.toNat)
  | .data, w => w.Means (.object m.data) ∨ (w = .null ∧ m.data = [])
  | .timestamp, w => w.Means (.integer m.timestamp.toInt)

/-- A key that need not be there. -/
def Spares (m : JsonMessage) : Key → Prop
  | .type => False
  | .sequence => False
  | .data => m.data = []
  | .timestamp => m.timestamp = 0

/-- A key is there once, or not at all if it need not be. -/
def Supplies (m : JsonMessage) (key : Key) (values : List Written) : Prop :=
  (∃ w, values = [w] ∧ Gives m key w) ∨ (values = [] ∧ Spares m key)

/-- The members of an object that stands for a message. Under other names than its own there may be
anything. -/
structure Spells (members : List (MemberName × Written × Blanks)) (m : JsonMessage) : Prop where
  names : ∀ p ∈ members, ∃ t, text? p.1.name = some t
  values : ∀ key, Supplies m key (named key members)

/-- The text of an object, with blanks around it. -/
def objectText (before gap : Blanks) (members : List (MemberName × Written × Blanks))
    (behind : Blanks) : Octets :=
  Blanks.octets before ++ ((Written.object gap members).octets ++ Blanks.octets behind)

/-! ## A value -/

theorem readField_blanks (f : Fields) (key : Key) (g : Blanks) (text : Octets) :
    readField f key (Blanks.octets g ++ text) = readField f key text := by
  cases key <;> simp only [readField, readWord, readTimestamp, readInteger, readData,
    Json.skipBlank_blanks]

theorem exists_head_number (n : Json.Number) :
    ∃ b tail, n.octets = b :: tail ∧ (b = 0x2D ∨ Json.isDigit b = true) := by
  obtain ⟨b, more, hb, hd⟩ := Json.exists_digit_of_whole (Json.whole_magnitude n.whole)
  rw [Json.Number.octets]
  split
  · exact ⟨0x2D, _, rfl, .inl rfl⟩
  · rw [Json.Number.magnitudeOctets, hb]
    exact ⟨b, _, rfl, .inr hd⟩

theorem readInteger_octets {w : Written} {i : Int} (h : w.Means (.integer i)) {rest : Octets}
    (hr : EndsNumber rest) : readInteger (w.octets ++ rest) = .ok (i, rest) := by
  have hv := Written.value_octets h (Nat.zero_le 0) hr
  have hnumber : ∃ n, w = .number n := by
    cases w with
    | number n => exact ⟨n, rfl⟩
    | null => cases h
    | bool b => cases h
    | string s => obtain ⟨_, _, heq⟩ := h; cases heq
    | array gap items => obtain ⟨_, _, heq⟩ := h; cases heq
    | object gap members => obtain ⟨_, _, _, _, _, heq⟩ := h; cases heq
  obtain ⟨n, rfl⟩ := hnumber
  obtain ⟨b, tail, hb, hhead⟩ := exists_head_number n
  have hblank : Json.isBlank b = false := by
    rcases hhead with rfl | hd
    · decide
    · exact Json.isBlank_of_isDigit hd
  rw [Written.octets, hb, List.cons_append] at hv ⊢
  rw [readInteger, Json.skipBlank_cons hblank]
  simp only [hhead, if_true, hv]

theorem readData_octets {w : Written} {data : Members} (h : w.Means (.object data))
    (hd : (Json.object data).depth ≤ maxNesting) (rest : Octets) :
    readData (w.octets ++ rest) = .ok (data, rest) := by
  have hdeep : Json.depthMembers data ≤ Json.maxDepth - 2 := by
    rw [Json.depth, maxNesting, Json.maxDepth] at hd
    rw [Json.maxDepth]
    omega
  cases w with
  | object gap members =>
    simp only [Written.octets, List.cons_append, List.append_assoc, List.nil_append]
    rw [readData, Json.skipBlank_cons (by decide)]
    exact Written.members_octets gap h hdeep rest
  | null => cases h
  | bool b => cases h
  | number n => obtain ⟨_, _, heq⟩ := h; cases heq
  | string s => obtain ⟨_, _, heq⟩ := h; cases heq
  | array gap items => obtain ⟨_, _, heq⟩ := h; cases heq

theorem readData_null (rest : Octets) :
    readData (Written.null.octets ++ rest) = .ok ([], rest) := by
  show readData (0x6E :: 0x75 :: 0x6C :: 0x6C :: rest) = _
  rw [readData, Json.skipBlank_cons (by decide)]
  rfl

namespace Fields

/-- The value of a message under a key, put into the fields. -/
def put (f : Fields) (m : JsonMessage) : Key → Fields
  | .type => { f with type := some m.type }
  | .sequence => { f with sequence := some m.sequence }
  | .data => { f with data := some m.data }
  | .timestamp => { f with timestamp := some m.timestamp }

/-- The field of a key holds the value of a message. -/
def Holds (f : Fields) (m : JsonMessage) : Key → Prop
  | .type => f.type = some m.type
  | .sequence => f.sequence = some m.sequence
  | .data => f.data = some m.data
  | .timestamp => f.timestamp = some m.timestamp

theorem holds_put (f : Fields) (m : JsonMessage) (key : Key) : (f.put m key).Holds m key := by
  cases key <;> rfl

theorem holds_put_of_ne (f : Fields) (m : JsonMessage) {key key' : Key} (h : key' ≠ key) :
    (f.put m key).Holds m key' ↔ f.Holds m key' := by
  cases key <;> cases key' <;> first | exact .rfl | exact absurd rfl h

theorem has_put_of_ne (f : Fields) (m : JsonMessage) {key key' : Key} (h : key' ≠ key) :
    (f.put m key).has key' = f.has key' := by
  cases key <;> cases key' <;> first | rfl | exact absurd rfl h

end Fields

/-- A value that stands for that of a message is read as it, for every key. -/
theorem readField_gives {m : JsonMessage} {key : Key} {w : Written} (h : Gives m key w)
    (hd : (Json.object m.data).depth ≤ maxNesting) (f : Fields) {rest : Octets}
    (hr : EndsNumber rest) : readField f key (w.octets ++ rest) = .ok (f.put m key, rest) := by
  cases key with
  | type => rw [readField, readWord_of_readInteger (readInteger_octets h hr)]; rfl
  | sequence => rw [readField, readWord_of_readInteger (readInteger_octets h hr)]; rfl
  | timestamp => rw [readField, readTimestamp_of_readInteger (readInteger_octets h hr)]; rfl
  | data =>
    rcases h with h | ⟨rfl, h⟩
    · rw [readField, readData_octets h hd]; rfl
    · rw [readField, readData_null, Fields.put, h]; rfl

/-! ## The members -/

/-- The fields so far and the members to come make up a message. -/
structure Completes (f : Fields) (members : List (MemberName × Written × Blanks))
    (m : JsonMessage) : Prop where
  names : ∀ p ∈ members, ∃ t, text? p.1.name = some t
  values : ∀ key, (f.Holds m key ∧ named key members = []) ∨
    (f.has key = false ∧ Supplies m key (named key members))

theorem completes_empty {members : List (MemberName × Written × Blanks)} {m : JsonMessage}
    (h : Spells members m) : Completes .empty members m :=
  ⟨h.names, fun key => .inr ⟨by cases key <;> rfl, h.values key⟩⟩

theorem close_of_completes {f : Fields} {m : JsonMessage} (h : Completes f [] m) :
    f.close = .ok m := by
  have hheld (key : Key) : f.Holds m key ∨ (f.has key = false ∧ Spares m key) := by
    rcases h.values key with ⟨hholds, _⟩ | ⟨hnone, ⟨_, hempty, _⟩ | ⟨_, hspares⟩⟩
    · exact .inl hholds
    · cases hempty
    · exact .inr ⟨hnone, hspares⟩
  have htype : f.type = some m.type := (hheld .type).elim id fun h => h.2.elim
  have hsequence : f.sequence = some m.sequence := (hheld .sequence).elim id fun h => h.2.elim
  have hdata : f.data.getD [] = m.data := by
    rcases hheld .data with hdata | ⟨hnone, hspares⟩
    · rw [show f.data = some m.data from hdata, Option.getD_some]
    · have hnone : f.data = none := by simpa [Fields.has] using hnone
      rw [hnone]
      exact hspares.symm
  have htimestamp : f.timestamp.getD 0 = m.timestamp := by
    rcases hheld .timestamp with htimestamp | ⟨hnone, hspares⟩
    · rw [show f.timestamp = some m.timestamp from htimestamp, Option.getD_some]
    · have hnone : f.timestamp = none := by simpa [Fields.has] using hnone
      rw [hnone]
      exact hspares.symm
  rw [Fields.close, htype, hsequence, hdata, htimestamp]

theorem ofName?_eq_some_iff {t : String} {key : Key} :
    Key.ofName? t = some key ↔ t = key.name := by
  constructor
  · intro h
    unfold Key.ofName? at h
    split at h
    · cases h; assumption
    split at h
    · cases h; assumption
    split at h
    · cases h; assumption
    split at h
    · cases h; assumption
    · cases h
  · rintro rfl
    exact ofName?_name key

/-- A name that is one of the keys, and what stands behind it. -/
theorem readMember_name {l : MemberName} {key : Key} {f : Fields} (h : text? l.name = some key.name)
    (hf : f.has key = false) (steps : Nat) (tail : Octets) :
    readMember (steps + 1) f (l.octets ++ tail) =
      (readField f key tail >>= fun r => readMoreMembers steps r.1 r.2) := by
  rw [readMember, Json.skipBlank_name]
  simp [Json.scanText_pieces h, ofName?_name, hf, Json.expectColon_blanks, readField_blanks, bind,
    Except.bind]

theorem readMember_other {l : MemberName} {t : String} (h : text? l.name = some t)
    (ht : Key.ofName? t = none) (steps : Nat) (f : Fields) (w : Written) {rest : Octets}
    (hr : EndsNumber rest) :
    readMember (steps + 1) f (l.octets ++ (w.octets ++ rest)) = readMoreMembers steps f rest := by
  rw [readMember, Json.skipBlank_name]
  simp [Json.scanText_pieces h, ht, Json.expectColon_blanks, Written.skip_octets l.after w hr, bind,
    Except.bind]

theorem named_cons {l : MemberName} {t : String} (h : text? l.name = some t) (key : Key)
    (w : Written) (behind : Blanks) (members : List (MemberName × Written × Blanks)) :
    named key ((l, w, behind) :: members) =
      if t = key.name then w :: named key members else named key members := by
  by_cases ht : t = key.name
  · subst ht
    simp [named, h]
  · simp [named, h, ht]

section

variable {f : Fields} {l : MemberName} {w : Written} {behind : Blanks}
  {members : List (MemberName × Written × Blanks)} {m : JsonMessage}

/-- A member under one of the keys: its value is that of the message, and moves to the fields. -/
theorem Completes.put {key : Key} (h : Completes f ((l, w, behind) :: members) m)
    (hname : text? l.name = some key.name) :
    f.has key = false ∧ Gives m key w ∧ Completes (f.put m key) members m := by
  have hvalues := h.values
  simp only [named_cons hname] at hvalues
  have hne {key' : Key} (hk : key' ≠ key) : key.name ≠ key'.name := by
    intro heq
    have hsame := ofName?_name key
    rw [heq, ofName?_name] at hsame
    exact hk (Option.some.inj hsame)
  have hthis := hvalues key
  rw [if_pos rfl] at hthis
  rcases hthis with ⟨_, hempty⟩ | ⟨hnone, ⟨w', hw, hgives⟩ | ⟨hempty, _⟩⟩
  · cases hempty
  · obtain ⟨rfl, hempty⟩ := List.cons.inj hw
    refine ⟨hnone, hgives, fun p hp => h.names p (List.mem_cons_of_mem _ hp), fun key' => ?_⟩
    by_cases hk : key' = key
    · subst hk
      exact .inl ⟨Fields.holds_put f m key', hempty⟩
    · have hother := hvalues key'
      rw [if_neg (hne hk)] at hother
      rwa [Fields.holds_put_of_ne f m hk, Fields.has_put_of_ne f m hk]
  · cases hempty

/-- A member under another name leaves the fields as they are. -/
theorem Completes.pass {t : String} (h : Completes f ((l, w, behind) :: members) m)
    (hname : text? l.name = some t) (ht : Key.ofName? t = none) : Completes f members m := by
  have hvalues := h.values
  have hne (key : Key) : t ≠ key.name := by
    rintro rfl
    rw [ofName?_name] at ht
    cases ht
  simp only [named_cons hname, hne, if_false] at hvalues
  exact ⟨fun p hp => h.names p (List.mem_cons_of_mem _ hp), hvalues⟩

/-- A member at the front is taken, and the fields go on to make up the message with the rest. -/
theorem readMember_completes (h : Completes f ((l, w, behind) :: members) m)
    (hd : (Json.object m.data).depth ≤ maxNesting) (steps : Nat) {rest : Octets}
    (hr : EndsNumber rest) :
    ∃ f', Completes f' members m ∧
      readMember (steps + 1) f (l.octets ++ (w.octets ++ rest)) =
        readMoreMembers steps f' rest := by
  obtain ⟨t, ht⟩ := h.names _ List.mem_cons_self
  cases hkey : Key.ofName? t with
  | none => exact ⟨f, h.pass ht hkey, readMember_other ht hkey steps f w hr⟩
  | some key =>
    have hname := ofName?_eq_some_iff.1 hkey
    subst hname
    obtain ⟨hnone, hgives, hrest⟩ := h.put ht
    refine ⟨f.put m key, hrest, ?_⟩
    rw [readMember_name ht hnone, readField_gives hgives hd f hr]
    rfl

end

theorem readMoreMembers_blanks (g : Blanks) (steps : Nat) (f : Fields) (text : Octets) :
    readMoreMembers steps f (Blanks.octets g ++ text) = readMoreMembers steps f text := by
  cases steps with
  | zero => rw [readMoreMembers, readMoreMembers]
  | succ steps => simp only [readMoreMembers, Json.skipBlank_blanks]

theorem readMoreMembers_completes {members : List (MemberName × Written × Blanks)} {f : Fields}
    {m : JsonMessage} (h : Completes f members m) (hd : (Json.object m.data).depth ≤ maxNesting)
    {steps : Nat} (hs : (Written.moreMembersOctets members).length < steps) (rest : Octets) :
    readMoreMembers steps f (Written.moreMembersOctets members ++ 0x7D :: rest) =
      .ok (m, rest) := by
  induction members generalizing f steps with
  | nil =>
    obtain ⟨steps, rfl⟩ := Nat.exists_eq_add_one_of_ne_zero (Nat.ne_of_gt (Nat.zero_lt_of_lt hs))
    rw [Written.moreMembersOctets, List.nil_append, readMoreMembers,
      Json.skipBlank_cons (by decide)]
    simp [close_of_completes h, bind, Except.bind, pure, Except.pure]
  | cons p members ih =>
    obtain ⟨l, w, behind⟩ := p
    have hl := Json.length_name l
    simp only [Written.moreMembersOctets, List.length_cons, List.length_append] at hs
    obtain ⟨steps, rfl⟩ : ∃ n, steps = n + 2 := ⟨steps - 2, by omega⟩
    obtain ⟨f', hf', hmember⟩ := readMember_completes h hd steps
      (Json.endsNumber_blanks behind (Written.endsNumber_moreMembers members rest))
    simp only [Written.moreMembersOctets, List.cons_append, List.append_assoc]
    rw [readMoreMembers, Json.skipBlank_cons (by decide)]
    simp only [if_true]
    rw [if_neg (by decide), hmember, readMoreMembers_blanks]
    exact ih hf' (by omega)

/-! ## The text -/

/-- An object that stands for a message has members. -/
theorem ne_nil_of_spells {members : List (MemberName × Written × Blanks)} {m : JsonMessage}
    (h : Spells members m) : members ≠ [] := by
  rintro rfl
  rcases h.values .type with ⟨_, hempty, _⟩ | ⟨_, hspares⟩
  · cases hempty
  · exact hspares

theorem readMember_blank (steps : Nat) (f : Fields) (text : Octets) :
    readMember steps f (skipBlank text) = readMember steps f text := by
  have hblank : skipBlank (skipBlank text) = skipBlank text := by
    induction text with
    | nil => rfl
    | cons b text ih =>
      by_cases hb : Json.isBlank b = true
      · rw [skipBlank, if_pos hb, ih]
      · have hstays : skipBlank (b :: text) = b :: text :=
          Json.skipBlank_cons (Bool.eq_false_iff.2 hb)
        rw [hstays, hstays]
  cases steps with
  | zero => rw [readMember, readMember]
  | succ steps => simp only [readMember, hblank]

theorem readMembers_of_spells {members : List (MemberName × Written × Blanks)} {m : JsonMessage}
    (h : Spells members m) (hd : (Json.object m.data).depth ≤ maxNesting) (gap : Blanks)
    (rest : Octets) :
    readMembers (Blanks.octets gap ++ (Written.membersOctets members ++ 0x7D :: rest)) =
      .ok (m, rest) := by
  obtain ⟨⟨l, w, behind⟩, members, rfl⟩ := List.exists_cons_of_ne_nil (ne_nil_of_spells h)
  have hhead := Json.skipBlank_name l (w.octets ++
    (Blanks.octets behind ++ (Written.moreMembersOctets members ++ 0x7D :: rest)))
  have hsteps : ∃ n, Json.stepsFor (skipBlank (l.octets ++ (w.octets ++
      (Blanks.octets behind ++ (Written.moreMembersOctets members ++ 0x7D :: rest))))) = n + 1 ∧
      (Written.moreMembersOctets members).length < n := by
    refine ⟨_, rfl, ?_⟩
    rw [hhead]
    simp only [List.length_cons, List.length_append]
    omega
  obtain ⟨steps, hsteps, hlength⟩ := hsteps
  obtain ⟨f, hf, hmember⟩ := readMember_completes (completes_empty h) hd steps
    (Json.endsNumber_blanks behind (Written.endsNumber_moreMembers members rest))
  have hrest := readMoreMembers_completes hf hd hlength rest
  have hread : readMembers (Blanks.octets gap ++
      (Written.membersOctets ((l, w, behind) :: members) ++ 0x7D :: rest)) =
        readMember (steps + 1) .empty (l.octets ++ (w.octets ++
          (Blanks.octets behind ++ (Written.moreMembersOctets members ++ 0x7D :: rest)))) := by
    simp only [Written.membersOctets, List.append_assoc]
    rw [← readMember_blank, ← hsteps, readMembers, Json.skipBlank_blanks, hhead]
    rfl
  rw [hread, hmember, readMoreMembers_blanks, hrest]

/-- Every text that spells a message is read as it. -/
theorem read_of_spells {members : List (MemberName × Written × Blanks)} {m : JsonMessage}
    (h : Spells members m) (hd : (Json.object m.data).depth ≤ maxNesting)
    (before gap behind : Blanks) :
    read (objectText before gap members behind) = .ok m := by
  have hend : skipBlank (Blanks.octets behind) = [] := by
    have := Json.skipBlank_blanks behind []
    rwa [List.append_nil] at this
  simp only [objectText, Written.octets, List.cons_append, List.append_assoc, List.nil_append]
  rw [read, Json.skipBlank_blanks, Json.skipBlank_cons (by decide)]
  simp [readMembers_of_spells h hd, Json.expectEnd, hend, bind, Except.bind, pure, Except.pure]

end Body

/-- A JSON message whose data nests no deeper than the reader goes is read from every text that
spells it, in a frame within the limit and whatever follows that. -/
theorem unpack_of_spells {max : Nat} {m : JsonMessage}
    {members : List (MemberName × Written × Blanks)} (h : Body.Spells members m)
    (hd : (Json.object m.data).depth ≤ 126) {before gap behind : Blanks} {text : Octets}
    (ht : text = Body.objectText before gap members behind) (hmax : text.length ≤ max)
    (hw : text.length < UInt32.size) (tail : Octets) :
    (json max).unpack (JsonText.frame text ++ tail) =
      .ok (.json m, (JsonText.frame text).length) := by
  have hread : Body.read text = .ok m := by
    rw [ht]
    exact Body.read_of_spells h hd before gap behind
  refine lift_eq_ok_iff.2 ⟨m, ?_, rfl⟩
  rw [JsonText.unpack_frame tail hmax hw, hread]

/-- The data first and its members out of order, a name with an escape, a member that is not known
with half a pair of surrogates and a fraction in it, and no timestamp. -/
theorem unpack_of_spells_out_of_order :
    let name (t : String) : MemberName := ⟨[.lineFeed], Json.spell t, [.tab], [.space]⟩
    let sequence : MemberName :=
      ⟨[], Json.spell "seq" ++ [.unit ⟨0, false⟩ ⟨0, false⟩ ⟨7, false⟩ ⟨5, false⟩] ++
        Json.spell "ence", [], []⟩
    let half : Written := .string [.unit ⟨13, true⟩ ⟨8, false⟩ ⟨0, false⟩ ⟨0, false⟩]
    let fraction : Written := .number ⟨true, .zero, some (5, []), some ⟨true, some true, 1, []⟩⟩
    let data : Written := .object [] [(name "b", .array [] [([], .null, [])], []),
      (name "a", .object [.space] [], [])]
    let zero : Written := .number ⟨false, .zero, none, none⟩
    let seven : Written := .number ⟨false, .digits 7 (by decide) [], none, none⟩
    let members : List (MemberName × Written × Blanks) :=
      [(name "data", data, []),
        (name "unknown", .array [.space] [([], half, []), ([], fraction, [.space])], []),
        (sequence, seven, [.carriageReturn]), (name "type", zero, [])]
    let m : JsonMessage := ⟨0, 7, [("a", .object []), ("b", .array [.null])], 0⟩
    let text := Body.objectText [.space] [] members [.lineFeed]
    Body.Spells members m ∧ (Json.object m.data).depth ≤ 126 ∧ text.length ≤ 200 ∧
      text.length < UInt32.size ∧
      (json 200).unpack (JsonText.frame text ++ [0]) =
        .ok (.json m, (JsonText.frame text).length) := by
  intro name sequence half fraction data zero seven members m text
  have hname (t : String) : text? (name t).name = some t := Json.text?_spell t
  have hsequence : text? sequence.name = some "sequence" := by decide +kernel
  have hdata : data.Means (.object m.data) := by
    refine ⟨[("b", .array [.null]), ("a", .object [])], m.data, ?_, .swap _ _ _,
      ⟨by decide, trivial⟩, rfl⟩
    exact ⟨"b", _, _, hname "b", ⟨_, ⟨_, _, rfl, rfl, rfl⟩, rfl⟩, ⟨"a", _, _, hname "a",
      ⟨[], [], rfl, .nil, trivial, rfl⟩, rfl, rfl⟩, rfl⟩
  have hm : Body.Spells members m := by
    constructor
    · simp [members, hname, hsequence]
    · intro key
      cases key with
      | type =>
        refine .inl ⟨zero, ?_, 0, rfl, rfl⟩
        simp [Body.named, members, hname, hsequence, Body.Key.name]
      | sequence =>
        refine .inl ⟨seven, ?_, 7, rfl, rfl⟩
        simp [Body.named, members, hname, hsequence, Body.Key.name]
      | data =>
        refine .inl ⟨data, ?_, .inl hdata⟩
        simp [Body.named, members, hname, hsequence, Body.Key.name]
      | timestamp =>
        refine .inr ⟨?_, rfl⟩
        simp [Body.named, members, hname, hsequence, Body.Key.name]
  have hd : (Json.object m.data).depth ≤ 126 := by decide
  have hlength : text.length ≤ 200 := by decide +kernel
  have hw : text.length < UInt32.size := by decide +kernel
  exact ⟨hm, hd, hlength, hw, unpack_of_spells hm hd rfl hlength hw [0]⟩

end Framing
end FrameEngine
