import FrameEngine.Proofs.Toml.Scalars

/-!
# FrameEngine.Proofs.Toml.Documents

A document of sections is read back as the statements that it was written from
(`statements?_documentText`), if its keys need no marks and its scalars can be read. To delete
entries from its text is to write the sections without them (`text_filter_pieces`).
-/

namespace FrameEngine
namespace Toml

/-! ## What a document says -/

/-- A key that needs no marks around it. -/
def Bare (key : String) : Prop := key.toList ≠ [] ∧ ∀ c ∈ key.toList, isBareChar c = true

instance : DecidablePred Bare := fun key =>
  decidable_of_iff (key.toList.isEmpty = false ∧ key.toList.all isBareChar = true) (by simp [Bare])

/-- A section that is written as it stands: no key needs marks, and every scalar can be read. -/
structure Section.Plain (s : Section) : Prop where
  named : s.path ≠ []
  shallow : s.path.length ≤ maxKeys
  path : ∀ key ∈ s.path, Bare key
  keys : ∀ e ∈ s.entries, Bare e.key
  values : ∀ e ∈ s.entries, e.value.Readable

def Entry.statement (e : Entry) : Statement := .entry [e.key] e.value.value

def Section.statements (s : Section) : List Statement :=
  .header s.path :: s.entries.map Entry.statement

/-! ## Keys -/

theorem ne_of_isBareChar {c d : Char} (hc : isBareChar c = true) (hd : isBareChar d = false) :
    c ≠ d := by
  rintro rfl
  rw [hd] at hc
  cases hc

theorem exists_cons_of_bare {key : String} (h : Bare key) :
    ∃ c more, key.toList = c :: more ∧ isBareChar c = true := by
  obtain ⟨c, more, hkey⟩ := List.exists_cons_of_ne_nil h.1
  exact ⟨c, more, hkey, h.2 c (by simp [hkey])⟩

/-- A line that begins with a key begins with no mark. -/
theorem ne_cons_of_bare {key : String} (h : Bare key) {d : Char} (hd : isBareChar d = false)
    (rest tail : List Char) : key.toList ++ rest ≠ d :: tail := by
  obtain ⟨c, more, hkey, hc⟩ := exists_cons_of_bare h
  rw [hkey, List.cons_append]
  exact fun heq => ne_of_isBareChar hc hd (List.cons.inj heq).1

theorem scanKey_bare {key : String} (h : Bare key) {rest : List Char}
    (hr : ∀ c ∈ rest.head?, isBareChar c = false) :
    scanKey (key.toList ++ rest) = some (key, rest) := by
  have htake := takeWhile_run h.2 hr
  have hdrop := dropWhile_run h.2 hr
  obtain ⟨c, more, hkey, _⟩ := exists_cons_of_bare h
  rw [scanKey]
  · rw [htake, hdrop, hkey]
    dsimp only
    rw [← hkey, String.ofList_toList]
  · intro tail heq
    exact ne_cons_of_bare h (by decide) rest tail heq
  · intro tail heq
    exact ne_cons_of_bare h (by decide) rest tail heq

theorem skipBlank_bare {key : String} (h : Bare key) (rest : List Char) :
    skipBlank (key.toList ++ rest) = key.toList ++ rest := by
  obtain ⟨c, more, hkey, hc⟩ := exists_cons_of_bare h
  have hspace : c ≠ ' ' := ne_of_isBareChar hc (by decide)
  have htab : c ≠ '\t' := ne_of_isBareChar hc (by decide)
  simp [hkey, skipBlank, isBlank, hspace, htab]

/-- The key of an entry. -/
theorem scanKeys_entry {key : String} (h : Bare key) (allowed : Nat) (rest : List Char) :
    scanKeys (allowed + 1) (key.toList ++ ' ' :: '=' :: rest) = some ([key], '=' :: rest) := by
  have hkey : scanKey (key.toList ++ ' ' :: '=' :: rest) = some (key, ' ' :: '=' :: rest) :=
    scanKey_bare h (by simp; decide)
  have hblank : skipBlank (' ' :: '=' :: rest) = '=' :: rest := by simp [skipBlank, isBlank]
  simp [scanKeys, skipBlank_bare h, hkey, hblank]

/-- The keys of a header. -/
theorem scanKeys_path {path : List String} (hne : path ≠ []) (h : ∀ key ∈ path, Bare key)
    {allowed : Nat} (hlength : path.length ≤ allowed) (rest : List Char) :
    scanKeys allowed ((".".intercalate path).toList ++ ']' :: rest) =
      some (path, ']' :: rest) := by
  rw [String.toList_intercalate]
  change scanKeys allowed (['.'].intercalate (path.map String.toList) ++ ']' :: rest) = _
  induction path generalizing allowed with
  | nil => contradiction
  | cons key path ih =>
    obtain ⟨allowed, rfl⟩ := Nat.exists_eq_succ_of_ne_zero (Nat.ne_of_gt (Nat.lt_of_lt_of_le
      (Nat.succ_pos path.length) hlength))
    have hbare := h key List.mem_cons_self
    cases path with
    | nil =>
      have hkey : scanKey (key.toList ++ ']' :: rest) = some (key, ']' :: rest) :=
        scanKey_bare hbare (by simp; decide)
      have hblank : skipBlank (']' :: rest) = ']' :: rest := by simp [skipBlank, isBlank]
      simp [scanKeys, skipBlank_bare hbare, hkey, hblank]
    | cons next path =>
      have hbelow := ih (by simp) (fun k hk => h k (List.mem_cons_of_mem key hk))
        (Nat.le_of_succ_le_succ hlength)
      have hkey (tail : List Char) :
          scanKey (key.toList ++ '.' :: tail) = some (key, '.' :: tail) :=
        scanKey_bare hbare (by simp; decide)
      have hblank (tail : List Char) : skipBlank ('.' :: tail) = '.' :: tail := by
        simp [skipBlank, isBlank]
      rw [List.map_cons, List.map_cons, List.intercalate_cons_cons, List.append_assoc,
        List.append_assoc, List.singleton_append, ← List.map_cons]
      simp only [scanKeys, skipBlank_bare hbare, hkey, hblank, hbelow]

/-! ## Lines -/

/-! An entry and a header are no blank lines, so they are read as statements. -/

theorem endLine?_newline (rest : List Char) : endLine? ('\n' :: rest) = some rest := by
  simp [endLine?, skipComment, skipBlank, isBlank, newline?]

theorem endLine?_bracket (rest : List Char) : endLine? ('[' :: rest) = none := by
  simp [endLine?, skipComment, skipBlank, isBlank, newline?]

theorem endLine?_bare {key : String} (h : Bare key) (rest : List Char) :
    endLine? (key.toList ++ rest) = none := by
  have hblank := skipBlank_bare h rest
  obtain ⟨c, more, hkey, hc⟩ := exists_cons_of_bare h
  have hcomment : c ≠ '#' := ne_of_isBareChar hc (by decide)
  have hnewline : c ≠ '\n' := ne_of_isBareChar hc (by decide)
  have hreturn : c ≠ '\r' := ne_of_isBareChar hc (by decide)
  rw [hkey, List.cons_append] at hblank ⊢
  simp [endLine?, skipComment, hblank, newline?, hcomment, hnewline, hreturn]

theorem exists_intercalate_eq {path : List String} (hne : path ≠ []) :
    ∃ key ∈ path, ∃ more, (".".intercalate path).toList = key.toList ++ more := by
  rw [String.toList_intercalate]
  cases path with
  | nil => contradiction
  | cons key path =>
    refine ⟨key, List.mem_cons_self, ?_⟩
    cases path with
    | nil => exact ⟨[], by simp⟩
    | cons next path =>
      rw [List.map_cons, List.map_cons, List.intercalate_cons_cons, List.append_assoc]
      exact ⟨_, rfl⟩

theorem scanStatement_header {path : List String} (hne : path ≠ []) (h : ∀ key ∈ path, Bare key)
    (hlength : path.length ≤ maxKeys) (rest : List Char) :
    scanStatement ('[' :: ((".".intercalate path).toList ++ ']' :: '\n' :: rest)) =
      some (.header path, rest) := by
  have hkeys := scanKeys_path hne h hlength ('\n' :: rest)
  obtain ⟨key, hkey, more, hpath⟩ := exists_intercalate_eq hne
  rw [scanStatement, hkeys]
  · simp [endLine?_newline]
  · intro tail heq
    rw [hpath, List.append_assoc] at heq
    exact ne_cons_of_bare (h key hkey) (by decide) _ tail heq

theorem scanStatement_entry {e : Entry} (hkey : Bare e.key) (hvalue : e.value.Readable)
    (rest : List Char) : scanStatement (e.text ++ rest) = some (e.statement, rest) := by
  have hkeys := scanKeys_entry hkey 78 (' ' :: (e.value.text ++ '\n' :: rest))
  have hblank : skipBlank (' ' :: (e.value.text ++ '\n' :: rest)) =
      e.value.text ++ '\n' :: rest := by
    obtain ⟨c, more, htext, hc⟩ := text_eq_cons hvalue
    simp [htext, skipBlank, hc, show isBlank ' ' = true from by decide]
  have hscan (steps : Nat) := scanValue_text hvalue steps maxDepth rest
  have htext : e.text ++ rest =
      e.key.toList ++ ' ' :: '=' :: ' ' :: (e.value.text ++ '\n' :: rest) := by
    simp [Entry.text]
  rw [htext, scanStatement, maxKeys, hkeys]
  · simp [hblank, stepsFor, hscan, endLine?_newline, Entry.statement]
  · intro tail heq
    exact ne_cons_of_bare hkey (by decide) _ _ heq
  · intro tail heq
    exact ne_cons_of_bare hkey (by decide) _ _ heq

/-! ## Documents -/

/-- A text gives statements up to a rest of it, in less steps than it has characters. -/
def Reads (text : List Char) (found : List Statement) (rest : List Char) : Prop :=
  ∀ steps, text.length < steps → ∃ left, rest.length < left ∧
    scanStatements steps text = (scanStatements left rest).map (found ++ ·)

theorem Reads.refl (text : List Char) : Reads text [] text := fun steps h => ⟨steps, h, by simp⟩

theorem Reads.trans {a b c : List Char} {xs ys : List Statement} (hab : Reads a xs b)
    (hbc : Reads b ys c) : Reads a (xs ++ ys) c := by
  intro steps hsteps
  obtain ⟨middle, hmiddle, hfirst⟩ := hab steps hsteps
  obtain ⟨left, hleft, hsecond⟩ := hbc middle hmiddle
  refine ⟨left, hleft, ?_⟩
  rw [hfirst, hsecond, Option.map_map]
  simp [Function.comp_def, List.append_assoc]

theorem Reads.blank (rest : List Char) : Reads ('\n' :: rest) [] rest := by
  intro steps hsteps
  cases steps with
  | zero => omega
  | succ steps =>
    refine ⟨steps, Nat.lt_of_succ_lt_succ hsteps, ?_⟩
    have hblank : skipBlank ('\n' :: rest) = '\n' :: rest := by simp [skipBlank, isBlank]
    simp [scanStatements, hblank, endLine?_newline]

/-- A line that is not blank and holds a statement. -/
theorem Reads.line {line rest : List Char} {s : Statement} (hne : line ≠ [])
    (hblank : skipBlank (line ++ rest) = line ++ rest) (hend : endLine? (line ++ rest) = none)
    (hscan : scanStatement (line ++ rest) = some (s, rest)) : Reads (line ++ rest) [s] rest := by
  intro steps hsteps
  cases steps with
  | zero => omega
  | succ steps =>
    obtain ⟨c, more, rfl⟩ := List.exists_cons_of_ne_nil hne
    refine ⟨steps, by simp only [List.length_append, List.length_cons] at hsteps; omega, ?_⟩
    rw [List.cons_append] at hblank hend hscan ⊢
    simp only [scanStatements, hblank, hend, hscan, Option.bind_eq_bind, Option.bind_some]
    cases scanStatements steps rest with
    | none => rfl
    | some found => rfl

theorem reads_entry {e : Entry} (hkey : Bare e.key) (hvalue : e.value.Readable)
    (rest : List Char) : Reads (e.text ++ rest) [e.statement] rest := by
  have htext : e.text ++ rest =
      e.key.toList ++ ' ' :: '=' :: ' ' :: (e.value.text ++ '\n' :: rest) := by
    simp [Entry.text]
  refine .line ?_ ?_ ?_ (scanStatement_entry hkey hvalue rest)
  · simp [Entry.text]
  · rw [htext]
    exact skipBlank_bare hkey _
  · rw [htext]
    exact endLine?_bare hkey _

theorem reads_entries {entries : List Entry} (hkeys : ∀ e ∈ entries, Bare e.key)
    (hvalues : ∀ e ∈ entries, e.value.Readable) (rest : List Char) :
    Reads (entries.flatMap Entry.text ++ rest) (entries.map Entry.statement) rest := by
  induction entries with
  | nil => exact .refl rest
  | cons e entries ih =>
    have hfirst := reads_entry (hkeys e List.mem_cons_self) (hvalues e List.mem_cons_self)
      (entries.flatMap Entry.text ++ rest)
    have hothers := ih (fun d hd => hkeys d (List.mem_cons_of_mem e hd))
      (fun d hd => hvalues d (List.mem_cons_of_mem e hd))
    rw [List.flatMap_cons, List.append_assoc]
    exact hfirst.trans hothers

theorem reads_section {s : Section} (h : s.Plain) (rest : List Char) :
    Reads (s.text ++ rest) s.statements rest := by
  have hline : s.text ++ rest = ('[' :: ((".".intercalate s.path).toList ++ [']', '\n'])) ++
      (s.entries.flatMap Entry.text ++ rest) := by
    simp [Section.text]
  have hheader : Reads (s.text ++ rest) [.header s.path]
      (s.entries.flatMap Entry.text ++ rest) := by
    rw [hline]
    refine .line (by simp) ?_ ?_ ?_
    · simp [skipBlank, isBlank]
    · exact endLine?_bracket _
    · have hscan := scanStatement_header h.named h.path h.shallow
        (s.entries.flatMap Entry.text ++ rest)
      simpa using hscan
  exact hheader.trans (reads_entries h.keys h.values rest)

theorem reads_document {sections : List Section} (h : ∀ s ∈ sections, s.Plain) :
    Reads (documentText sections) (sections.flatMap Section.statements) [] := by
  induction sections with
  | nil => exact .refl []
  | cons s sections ih =>
    have hothers := ih fun t ht => h t (List.mem_cons_of_mem s ht)
    have hs := reads_section (h s List.mem_cons_self)
    cases sections with
    | nil =>
      have hlast := hs []
      rw [List.append_nil] at hlast
      simpa [documentText] using hlast
    | cons t sections => exact (hs _).trans ((Reads.blank _).trans hothers)

/-- A document is read back as what its sections say. -/
theorem statements?_documentText {sections : List Section} (h : ∀ s ∈ sections, s.Plain) :
    statements? (String.ofList (documentText sections)) =
      some (sections.flatMap Section.statements) := by
  have hmark : skipMark (documentText sections) = documentText sections := by
    cases sections with
    | nil => rfl
    | cons s sections =>
      cases sections with
      | nil => rfl
      | cons t sections => rfl
  obtain ⟨left, hleft, hscan⟩ := reads_document h _ (Nat.lt_succ_self _)
  obtain ⟨left, rfl⟩ := Nat.exists_eq_succ_of_ne_zero (Nat.ne_of_gt hleft)
  rw [statements?, String.toList_ofList, hmark, hscan]
  simp [scanStatements, skipBlank]

/-! ## Deleted entries -/

/-- A piece of the text of a document. -/
inductive Piece where
  /-- A header or a blank line. -/
  | fixed (text : List Char)
  /-- An entry of the section with a path. -/
  | line (path : List String) (e : Entry)

def Piece.text : Piece → List Char
  | fixed text => text
  | line _ e => e.text

/-- Whether a piece is left when only some entries are: `kept` tells which, by the path of their
section and their key. -/
def Piece.isLeft (kept : List String → String → Bool) : Piece → Bool
  | fixed _ => true
  | line path e => kept path e.key

def Section.pieces (s : Section) : List Piece :=
  .fixed ('[' :: ((".".intercalate s.path).toList ++ [']', '\n'])) :: s.entries.map (.line s.path)

/-- The pieces of the text of a document, in order. -/
def pieces : List Section → List Piece
  | [] => []
  | [s] => s.pieces
  | s :: t :: rest => s.pieces ++ .fixed ['\n'] :: pieces (t :: rest)

def Section.keep (kept : List String → String → Bool) (s : Section) : Section :=
  { s with entries := s.entries.filter fun e => kept s.path e.key }

theorem Section.text_pieces (s : Section) : s.pieces.flatMap Piece.text = s.text := by
  have hlines : (s.entries.map (Piece.line s.path)).flatMap Piece.text =
      s.entries.flatMap Entry.text := by
    rw [List.flatMap_map]
    rfl
  rw [Section.pieces, List.flatMap_cons, hlines]
  simp [Piece.text, Section.text]

theorem text_pieces (sections : List Section) :
    (pieces sections).flatMap Piece.text = documentText sections := by
  induction sections with
  | nil => rfl
  | cons s sections ih =>
    cases sections with
    | nil => exact s.text_pieces
    | cons t sections =>
      rw [pieces, List.flatMap_append, List.flatMap_cons, s.text_pieces, ih]
      rfl

theorem Section.filter_pieces (kept : List String → String → Bool) (s : Section) :
    s.pieces.filter (Piece.isLeft kept) = (s.keep kept).pieces := by
  rw [Section.pieces, List.filter_cons_of_pos rfl, List.filter_map]
  rfl

theorem filter_pieces (kept : List String → String → Bool) (sections : List Section) :
    (pieces sections).filter (Piece.isLeft kept) = pieces (sections.map (Section.keep kept)) := by
  induction sections with
  | nil => rfl
  | cons s sections ih =>
    cases sections with
    | nil => exact s.filter_pieces kept
    | cons t sections =>
      rw [pieces, List.filter_append, List.filter_cons_of_pos rfl, s.filter_pieces, ih]
      rfl

/-- What is left of the text of a document when some of its entries are deleted. -/
theorem text_filter_pieces (kept : List String → String → Bool) (sections : List Section) :
    ((pieces sections).filter (Piece.isLeft kept)).flatMap Piece.text =
      documentText (sections.map (Section.keep kept)) := by
  rw [filter_pieces, text_pieces]

theorem Section.Plain.keep {s : Section} (h : s.Plain) (kept : List String → String → Bool) :
    (s.keep kept).Plain where
  named := h.named
  shallow := h.shallow
  path := h.path
  keys := fun e he => h.keys e (List.mem_of_mem_filter he)
  values := fun e he => h.values e (List.mem_of_mem_filter he)

end Toml
end FrameEngine
