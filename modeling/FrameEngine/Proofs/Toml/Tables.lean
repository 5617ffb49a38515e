import FrameEngine.Proofs.Toml.Documents

/-!
# FrameEngine.Proofs.Toml.Tables

What the statements of a section make. The tables that are open lie within each other, each behind
the members that were there before it (`nest`); a section puts one more table there, with the
members that its entries write (`buildOn_statements`).
-/

namespace FrameEngine
namespace Toml

/-! ## Members -/

@[simp] theorem find?_nil (key : String) : find? key [] = none := rfl

theorem find?_append (key : String) (xs ys : Members) :
    find? key (xs ++ ys) = (find? key xs).or (find? key ys) := by
  induction xs with
  | nil => simp
  | cons x xs ih =>
    obtain ⟨k, v⟩ := x
    by_cases hk : k = key
    · simp [find?, hk]
    · simp [find?, hk, ih]

theorem find?_singleton (key k : String) (v : Toml) :
    find? key [(k, v)] = if k = key then some v else none := rfl

theorem find?_last {key : String} {before : Members} (h : find? key before = none) (v : Toml) :
    find? key (before ++ [(key, v)]) = some v := by
  simp [find?_append, h, find?_singleton]

theorem replace_last {key : String} {before : Members} (h : find? key before = none)
    (v w : Toml) : replace key w (before ++ [(key, v)]) = before ++ [(key, w)] := by
  induction before with
  | nil => simp [replace]
  | cons x before ih =>
    obtain ⟨k, u⟩ := x
    by_cases hk : k = key
    · simp [find?, hk] at h
    · simp only [find?, hk, if_false] at h
      simp [replace, hk, ih h]

/-- What entries put into a table. -/
def membersOf (entries : List Entry) : Members := entries.map fun e => (e.key, e.value.value)

theorem find?_membersOf_of_notMem {key : String} {entries : List Entry}
    (h : key ∉ entries.map Entry.key) : find? key (membersOf entries) = none := by
  induction entries with
  | nil => rfl
  | cons e entries ih =>
    rw [List.map_cons, List.mem_cons, not_or] at h
    have hrest := ih h.2
    rw [membersOf] at hrest ⊢
    simp [find?, Ne.symm h.1, hrest]

theorem find?_membersOf {entries : List Entry} (hnodup : (entries.map Entry.key).Nodup)
    {e : Entry} (he : e ∈ entries) : find? e.key (membersOf entries) = some e.value.value := by
  induction entries with
  | nil => simp at he
  | cons d entries ih =>
    rw [List.map_cons, List.nodup_cons] at hnodup
    rcases List.mem_cons.1 he with rfl | he
    · simp [membersOf, find?]
    · have hne : d.key ≠ e.key := fun heq => hnodup.1 (heq ▸ List.mem_map_of_mem he)
      have hrest := ih hnodup.2 he
      rw [membersOf] at hrest ⊢
      simp [find?, hne, hrest]

/-- Of entries some are left: what is under a key is left with it. -/
theorem find?_membersOf_filter (key : String) (entries : List Entry) (kept : String → Bool) :
    find? key (membersOf (entries.filter fun e => kept e.key)) =
      if kept key then find? key (membersOf entries) else none := by
  induction entries with
  | nil => simp [membersOf]
  | cons e entries ih =>
    simp only [membersOf] at ih ⊢
    by_cases hkey : e.key = key
    · subst hkey
      by_cases hkept : kept e.key = true
      · simp [find?, hkept]
      · simp [hkept, ih]
    · by_cases hkept : kept e.key = true
      · simp [find?, hkept, hkey, ih]
      · simp [find?, hkept, hkey, ih]

/-! ## Open tables -/

/-- The tables that are open, from the outside: what each holds before the next, and the key of
that one. -/
abbrev Spine := List (Members × String)

namespace Spine

def path (spine : Spine) : List String := spine.map Prod.snd

/-- No key of an open table is taken by what is before it. -/
def Fresh (spine : Spine) : Prop := ∀ p ∈ spine, find? p.2 p.1 = none

end Spine

/-- A document with open tables, the innermost of which has some members. -/
def nest : Spine → Members → Members
  | [], below => below
  | (before, key) :: spine, below => before ++ [(key, .table .header (nest spine below))]

theorem nest_snoc (spine : Spine) (below : Members) (key : String) (inner : Members) :
    nest (spine ++ [(below, key)]) inner = nest spine (below ++ [(key, .table .header inner)]) := by
  induction spine with
  | nil => rfl
  | cons p spine ih =>
    obtain ⟨before, k⟩ := p
    simp [nest, ih]

/-- The keys of the open tables lead to the innermost. -/
theorem follow_nest (f : Members → Option Members) {spine : Spine} (h : spine.Fresh)
    (below : Members) : follow f (nest spine below) spine.path = (f below).map (nest spine) := by
  induction spine with
  | nil =>
    rw [Spine.path, List.map_nil, follow, nest]
    cases f below with
    | none => rfl
    | some found => rfl
  | cons p spine ih =>
    obtain ⟨before, key⟩ := p
    have hkey : find? key before = none := h _ List.mem_cons_self
    have hrest := ih fun q hq => h q (List.mem_cons_of_mem _ hq)
    have hpath : Spine.path ((before, key) :: spine) = key :: Spine.path spine := rfl
    rw [hpath, nest, follow, find?_last hkey]
    simp only [hrest]
    cases f below with
    | none => rfl
    | some found => simp [replace_last hkey, nest]

theorem addUnder_nest {spine : Spine} (h : spine.Fresh) {below : Members} {key : String}
    (hkey : find? key below = none) (v : Toml) :
    addUnder spine.path [key] v (nest spine below) = some (nest spine (below ++ [(key, v)])) := by
  rw [addUnder, follow_nest _ h]
  simp [add, addNew, hkey]

theorem enter_nest {spine : Spine} (h : spine.Fresh) {below : Members} {key : String}
    (hkey : find? key below = none) :
    enter openTable (spine.path ++ [key]) (nest spine below) =
      some (nest (spine ++ [(below, key)]) []) := by
  rw [nest_snoc]
  simp [enter, follow_nest _ h, openTable, hkey]

/-! ## Statements -/

/-- Entries under new keys go behind what is in the innermost open table, in order. -/
theorem buildOn_entries {spine : Spine} (h : spine.Fresh) {entries : List Entry}
    (hnodup : (entries.map Entry.key).Nodup) {below : Members}
    (hnew : ∀ e ∈ entries, find? e.key below = none) (rest : List Statement) :
    buildOn spine.path (nest spine below) (entries.map Entry.statement ++ rest) =
      buildOn spine.path (nest spine (below ++ membersOf entries)) rest := by
  induction entries generalizing below with
  | nil => simp [membersOf]
  | cons e entries ih =>
    rw [List.map_cons, List.nodup_cons] at hnodup
    have hstep := addUnder_nest h (hnew e List.mem_cons_self) e.value.value
    have hothers : ∀ d ∈ entries, find? d.key (below ++ [(e.key, e.value.value)]) = none := by
      intro d hd
      have hne : e.key ≠ d.key := fun heq => hnodup.1 (heq ▸ List.mem_map_of_mem hd)
      simp [find?_append, find?_singleton, hne, hnew d (List.mem_cons_of_mem e hd)]
    rw [List.map_cons, List.cons_append, Entry.statement, buildOn, hstep]
    simpa [membersOf] using ih hnodup.2 hothers

/-- A section puts a table with its members behind what is in the innermost open table, and opens
it. -/
theorem buildOn_statements {spine : Spine} (h : spine.Fresh) {below : Members} {key : String}
    (hkey : find? key below = none) {s : Section} (hpath : s.path = spine.path ++ [key])
    (hnodup : (s.entries.map Entry.key).Nodup) (last : List String) (rest : List Statement) :
    buildOn last (nest spine below) (s.statements ++ rest) =
      buildOn s.path (nest (spine ++ [(below, key)]) (membersOf s.entries)) rest := by
  have hopen : Spine.Fresh (spine ++ [(below, key)]) := by
    intro p hp
    rcases List.mem_append.1 hp with hp | hp
    · exact h p hp
    · rw [List.mem_singleton.1 hp]
      exact hkey
  have hentries := @buildOn_entries _ hopen _ hnodup [] (fun _ _ => rfl) rest
  have hlast : Spine.path (spine ++ [(below, key)]) = s.path := by
    rw [hpath]
    simp [Spine.path]
  rw [hlast, List.nil_append] at hentries
  rw [Section.statements, List.cons_append, buildOn, ← hentries, hpath, enter_nest h hkey]
  rfl

end Toml
end FrameEngine
