import FrameEngine.Toml.Printer
import FrameEngine.Toml.Scanner

/-!
# FrameEngine.Proofs.Toml.Strings

Any string is written so that it is read back (`scanString_stringText`). There are four ways to
write one, and the content decides which is taken: between quotation marks with escapes, between
apostrophes as it is, and each of these with the marks threefold.

Between threefold marks runs of up to two of them stand as they are. Those at the end come before
the closing ones, and the scanner gives them back to the string.
-/

namespace FrameEngine
namespace Toml

/-! ## Characters -/

theorem isTextChar_iff {c : Char} :
    isTextChar c = true ↔ c = '\t' ∨ (' ' ≤ c ∧ c.toNat ≠ 0x7F) := by
  simp [isTextChar, isCommentChar]

theorem ne_newline_of_isTextChar {c : Char} (h : isTextChar c = true) : c ≠ '\n' := by
  rintro rfl
  exact absurd h (by decide)

theorem ne_return_of_isTextChar {c : Char} (h : isTextChar c = true) : c ≠ '\r' := by
  rintro rfl
  exact absurd h (by decide)

/-- A character that is written as it is. -/
theorem plain_of_escapeOf? {lines : Bool} {c : Char} (h : escapeOf? lines c = none) :
    c ≠ '\\' ∧ (isTextChar c = true ∨ (c = '\n' ∧ lines = true)) := by
  unfold escapeOf? at h
  split at h
  · cases h
  split at h
  · cases h
  split at h
  · split at h
    · exact ⟨by rintro rfl; contradiction, .inr ⟨‹_›, ‹_›⟩⟩
    · cases h
  split at h
  · cases h
  split at h
  · cases h
  split at h
  · cases h
  split at h
  · cases h
  · rename_i hcontrol
    refine ⟨‹_›, .inl (isTextChar_iff.2 (.inr ?_))⟩
    rw [not_or, Char.not_lt] at hcontrol
    exact hcontrol

theorem charOfHex?_upperHexDigit {n : Nat} (h : n < 128) :
    charOfHex? ['0', '0', upperHexDigit (n / 16), upperHexDigit n] = some (Char.ofNat n) := by
  revert n
  decide +kernel

/-- An escape is read back, and does not look like the end of a line. -/
theorem escape?_escapeOf? {lines : Bool} {c : Char} {e : List Char}
    (h : escapeOf? lines c = some e) :
    ∃ tail, e = '\\' :: tail ∧ ∀ rest, escape? (tail ++ rest) = some (c, rest) ∧
      continuesLine (tail ++ rest) = false := by
  unfold escapeOf? at h
  split at h
  · subst c; cases h; exact ⟨_, rfl, fun rest => ⟨rfl, rfl⟩⟩
  split at h
  · subst c; cases h; exact ⟨_, rfl, fun rest => ⟨rfl, rfl⟩⟩
  split at h
  · split at h
    · cases h
    · subst c; cases h; exact ⟨_, rfl, fun rest => ⟨rfl, rfl⟩⟩
  split at h
  · subst c; cases h; exact ⟨_, rfl, fun rest => ⟨rfl, rfl⟩⟩
  split at h
  · subst c; cases h; exact ⟨_, rfl, fun rest => ⟨rfl, rfl⟩⟩
  split at h
  · subst c; cases h; exact ⟨_, rfl, fun rest => ⟨rfl, rfl⟩⟩
  split at h
  · rename_i hcontrol
    cases h
    have hsmall : c.toNat < 128 := by
      rcases hcontrol with hlt | heq
      · exact Nat.lt_trans (show c.toNat < 32 from hlt) (by decide)
      · omega
    have hchar := charOfHex?_upperHexDigit hsmall
    rw [Char.ofNat_toNat] at hchar
    exact ⟨_, rfl, fun rest => ⟨by simp [escape?, hchar], rfl⟩⟩
  · cases h

/-! ## Between quotation marks -/

theorem scanBasic_escape {c : Char} {text after : List Char} (h : escape? text = some (c, after))
    (done : List Char) : scanBasic done ('\\' :: text) = scanBasic (c :: done) after := by
  rw [scanBasic]
  split
  · rename_i c' after' h'
    rw [h] at h'
    cases h'
    rfl
  · rename_i h'
    rw [h] at h'
    cases h'

theorem scanBasic_plain {c : Char} (hq : c ≠ '"') (hs : c ≠ '\\') (hc : isTextChar c = true)
    (done rest : List Char) : scanBasic done (c :: rest) = scanBasic (c :: done) rest := by
  rw [scanBasic]
  · rw [if_pos hc]
  · exact hq
  · exact hs

theorem scanBasic_escaped (s done rest : List Char) :
    scanBasic done (escaped false 0 0 s ++ '"' :: rest) =
      some (String.ofList (done.reverse ++ s), rest) := by
  induction s generalizing done with
  | nil => simp [escaped, scanBasic]
  | cons c s ih =>
    rw [escaped]
    split
    · subst c
      have hquote (text : List Char) : escape? ('"' :: text) = some ('"', text) := rfl
      simp only [Nat.lt_irrefl, if_false, List.cons_append]
      rw [scanBasic_escape (hquote _), ih]
      simp
    · rename_i hq
      split
      · rename_i e he
        obtain ⟨tail, rfl, htail⟩ := escape?_escapeOf? he
        simp only [List.cons_append, List.append_assoc]
        rw [scanBasic_escape (htail _).1, ih]
        simp
      · rename_i he
        obtain ⟨hs, hc | ⟨_, hlines⟩⟩ := plain_of_escapeOf? he
        · rw [List.cons_append, scanBasic_plain hq hs hc, ih]
          simp
        · cases hlines

/-! ## Between threefold quotation marks -/

/-- What may stand behind a string: no mark of the kind that ends it. -/
def Ends (mark : Char) (rest : List Char) : Prop := rest.head? ≠ some mark

theorem closeTriple_none {mark : Char} {rest : List Char} (h : Ends mark rest) (done : List Char) :
    closeTriple mark done rest = (String.ofList done.reverse, rest) := by
  match rest, h with
  | [], _ => rfl
  | [a], h =>
    have ha : a ≠ mark := fun heq => h (congrArg some heq)
    rw [closeTriple, if_neg ha]
  | a :: b :: more, h =>
    have ha : a ≠ mark := fun heq => h (congrArg some heq)
    rw [closeTriple, if_neg (fun hab => ha hab.1), if_neg ha]

theorem closeTriple_one {mark : Char} {rest : List Char} (h : Ends mark rest) (done : List Char) :
    closeTriple mark done (mark :: rest) = (String.ofList (mark :: done).reverse, rest) := by
  match rest, h with
  | [], _ => rw [closeTriple, if_pos rfl]
  | a :: more, h =>
    have ha : a ≠ mark := fun heq => h (congrArg some heq)
    rw [closeTriple, if_neg (fun hab => ha hab.2), if_pos rfl]

theorem closeTriple_two (mark : Char) (done rest : List Char) :
    closeTriple mark done (mark :: mark :: rest) =
      (String.ofList (mark :: mark :: done).reverse, rest) := by
  rw [closeTriple, if_pos ⟨rfl, rfl⟩]

theorem scanTripleBasic_close (done after : List Char) :
    scanTripleBasic .plain done ('"' :: '"' :: '"' :: after) =
      some (closeTriple '"' done after) := by
  rw [scanTripleBasic]

theorem scanTripleBasic_newline (done rest : List Char) :
    scanTripleBasic .plain done ('\n' :: rest) = scanTripleBasic .plain ('\n' :: done) rest := by
  rw [scanTripleBasic]

theorem scanTripleBasic_plain {c : Char} {rest : List Char} (hs : c ≠ '\\')
    (hc : isTextChar c = true) (h : c = '"' → ∀ after, rest ≠ '"' :: '"' :: after)
    (done : List Char) :
    scanTripleBasic .plain done (c :: rest) = scanTripleBasic .plain (c :: done) rest := by
  rw [scanTripleBasic]
  · simp [hs, hc]
  · exact ne_newline_of_isTextChar hc
  · intro after hr
    exact absurd hr (ne_return_of_isTextChar hc)
  · intro after hq hrest
    exact h hq after hrest

theorem scanTripleBasic_escape {c : Char} {text after : List Char}
    (h : escape? text = some (c, after)) (hline : continuesLine text = false) (done : List Char) :
    scanTripleBasic .plain done ('\\' :: text) = scanTripleBasic .plain (c :: done) after := by
  rw [scanTripleBasic]
  · simp only [hline, ne_eq, not_true_eq_false, false_and, if_false, reduceCtorEq, if_true,
      Bool.false_eq_true]
    split
    · rename_i c' after' h'
      rw [h] at h'
      cases h'
      rfl
    · rename_i h'
      rw [h] at h'
      cases h'
  all_goals simp

/-- A character other than a mark that stays does not put a mark in front. -/
theorem escaped_ne_quote {c : Char} {allowed run : Nat} (h : c ≠ '"' ∨ allowed ≤ run)
    (lines : Bool) (s text tail : List Char) :
    escaped lines allowed run (c :: s) ++ text ≠ '"' :: tail := by
  rw [escaped]
  split
  · have hrun : ¬ run < allowed := by
      rcases h with hc | hle
      · contradiction
      · omega
    rw [if_neg hrun]
    simp
  · rename_i hc
    split
    · rename_i e he
      obtain ⟨esc, rfl, _⟩ := escape?_escapeOf? he
      simp
    · simp [hc]

/-- Behind a mark there are two more only if nothing but marks is left. -/
theorem escaped_ne_two_quotes {s : List Char} {run : Nat} (hs : s ≠ [])
    (hs' : ¬ (s = ['"'] ∧ run = 0)) (text after : List Char) :
    escaped true 2 (run + 1) s ++ text ≠ '"' :: '"' :: after := by
  obtain ⟨c, s, rfl⟩ := List.exists_cons_of_ne_nil hs
  by_cases hc : c = '"'
  · subst c
    by_cases hrun : run = 0
    · subst run
      have hmore : s ≠ [] := fun h => hs' ⟨by rw [h], rfl⟩
      obtain ⟨d, s, rfl⟩ := List.exists_cons_of_ne_nil hmore
      intro heq
      rw [escaped, if_pos rfl, if_pos (by decide), List.cons_append] at heq
      exact escaped_ne_quote (.inr (by decide)) true s text after (List.cons.inj heq).2
    · exact escaped_ne_quote (.inr (by omega)) true s text _
  · exact escaped_ne_quote (.inl hc) true s text _

theorem scanTripleBasic_escaped {rest : List Char} (hr : Ends '"' rest) (s done : List Char)
    (run : Nat) :
    scanTripleBasic .plain done (escaped true 2 run s ++ '"' :: '"' :: '"' :: rest) =
      some (String.ofList (done.reverse ++ s), rest) := by
  induction s generalizing done run with
  | nil => simp [escaped, scanTripleBasic_close, closeTriple_none hr]
  | cons c s ih =>
    rw [escaped]
    split
    · subst c
      split
      · rename_i hrun
        rw [List.cons_append]
        -- a mark that stays: it may be one of those before the closing ones
        by_cases hs : s = []
        · subst hs
          simp [escaped, scanTripleBasic_close, closeTriple_one hr]
        by_cases hs' : s = ['"'] ∧ run = 0
        · obtain ⟨rfl, rfl⟩ := hs'
          simp [escaped, scanTripleBasic_close, closeTriple_two]
        · have hnext := escaped_ne_two_quotes hs hs' ('"' :: '"' :: '"' :: rest)
          rw [scanTripleBasic_plain (by decide) (by decide) (fun _ => hnext), ih]
          simp
      · have hquote (text : List Char) : escape? ('"' :: text) = some ('"', text) := rfl
        have hline (text : List Char) : continuesLine ('"' :: text) = false := rfl
        simp only [List.cons_append]
        rw [scanTripleBasic_escape (hquote _) (hline _), ih]
        simp
    · rename_i hq
      split
      · rename_i e he
        obtain ⟨tail, rfl, htail⟩ := escape?_escapeOf? he
        simp only [List.cons_append, List.append_assoc]
        rw [scanTripleBasic_escape (htail _).1 (htail _).2, ih]
        simp
      · rename_i he
        rw [List.cons_append]
        obtain ⟨hs, hc | ⟨rfl, _⟩⟩ := plain_of_escapeOf? he
        · rw [scanTripleBasic_plain hs hc (fun h => absurd h hq), ih]
          simp
        · rw [scanTripleBasic_newline, ih]
          simp

/-! ## Between apostrophes -/

theorem scanLiteral_text {s : List Char} (h : ∀ c ∈ s, isTextChar c = true ∧ c ≠ '\'')
    (rest : List Char) : scanLiteral (s ++ '\'' :: rest) = some (String.ofList s, rest) := by
  have hs : ∀ c ∈ s, (isTextChar c && c != '\'') = true := by simpa using h
  have hmark : (isTextChar '\'' && '\'' != '\'') = false := by decide
  rw [scanLiteral, List.dropWhile_append_of_pos hs, List.takeWhile_append_of_pos hs,
    List.dropWhile_cons, List.takeWhile_cons, hmark]
  simp

/-! ## Between threefold apostrophes -/

theorem scanTripleLiteral_close (done after : List Char) :
    scanTripleLiteral done ('\'' :: '\'' :: '\'' :: after) =
      some (closeTriple '\'' done after) := by
  rw [scanTripleLiteral]

theorem scanTripleLiteral_newline (done rest : List Char) :
    scanTripleLiteral done ('\n' :: rest) = scanTripleLiteral ('\n' :: done) rest := by
  rw [scanTripleLiteral]

theorem scanTripleLiteral_plain {c : Char} {rest : List Char} (hc : isTextChar c = true)
    (h : c = '\'' → ∀ after, rest ≠ '\'' :: '\'' :: after) (done : List Char) :
    scanTripleLiteral done (c :: rest) = scanTripleLiteral (c :: done) rest := by
  rw [scanTripleLiteral]
  · rw [if_pos hc]
  · exact ne_newline_of_isTextChar hc
  · intro after hr
    exact absurd hr (ne_return_of_isTextChar hc)
  · intro after hq hrest
    exact h hq after hrest

theorem le_longestRun (c : Char) (now best : Nat) (s : List Char) :
    best ≤ longestRun c now best s := by
  induction s generalizing now best with
  | nil => exact Nat.le_refl best
  | cons d s ih =>
    rw [longestRun]
    split
    · exact Nat.le_trans (Nat.le_max_left _ _) (ih _ _)
    · exact ih _ _

/-- Behind an apostrophe there are not two more, or there would be a run of three. -/
theorem ne_two_apostrophes {s : List Char} {now best : Nat} (hnil : s ≠ []) (hone : s ≠ ['\''])
    (hrun : longestRun '\'' (now + 1) best s ≤ 2) (text after : List Char) :
    s ++ text ≠ '\'' :: '\'' :: after := by
  match s with
  | [] => contradiction
  | [c] =>
    intro heq
    have hc : c = '\'' := (List.cons.inj heq).1
    exact hone (by rw [hc])
  | c :: d :: s =>
    intro heq
    obtain ⟨rfl, htail⟩ := List.cons.inj heq
    obtain ⟨rfl, _⟩ := List.cons.inj htail
    have hle := le_longestRun '\'' (now + 1 + 1 + 1)
      (max (max best (now + 1 + 1)) (now + 1 + 1 + 1)) s
    simp only [longestRun, if_true] at hrun
    omega

theorem scanTripleLiteral_text {rest : List Char} (hr : Ends '\'' rest) {s : List Char}
    (hs : ∀ c ∈ s, isTextChar c = true ∨ c = '\n') {now best : Nat}
    (hrun : longestRun '\'' now best s ≤ 2) (done : List Char) :
    scanTripleLiteral done (s ++ '\'' :: '\'' :: '\'' :: rest) =
      some (String.ofList (done.reverse ++ s), rest) := by
  induction s generalizing done now best with
  | nil => simp [scanTripleLiteral_close, closeTriple_none hr]
  | cons c s ih =>
    have hs' : ∀ c ∈ s, isTextChar c = true ∨ c = '\n' :=
      fun d hd => hs d (List.mem_cons_of_mem c hd)
    rw [longestRun] at hrun
    rw [List.cons_append]
    split at hrun
    · subst c
      by_cases hnil : s = []
      · subst hnil
        simp [scanTripleLiteral_close, closeTriple_one hr]
      by_cases hone : s = ['\'']
      · subst hone
        simp [scanTripleLiteral_close, closeTriple_two]
      · have hnext := ne_two_apostrophes hnil hone hrun ('\'' :: '\'' :: '\'' :: rest)
        rw [scanTripleLiteral_plain (by decide) (fun _ => hnext), ih hs' hrun]
        simp
    · rename_i hc
      rcases hs c List.mem_cons_self with htext | rfl
      · rw [scanTripleLiteral_plain htext (fun h => absurd h hc), ih hs' hrun]
        simp
      · rw [scanTripleLiteral_newline, ih hs' hrun]
        simp

/-! ## The style that is taken -/

theorem text_of_control {s : List Char} (h : s.any isControl = false) :
    ∀ c ∈ s, isTextChar c = true ∨ c = '\n' := by
  intro c hc
  have hcontrol : isControl c = false := by
    simpa using (List.any_eq_false.1 h) c hc
  simp only [isControl, Bool.and_eq_false_iff, decide_eq_false_iff_not, Bool.or_eq_false_iff,
    ne_eq, Decidable.not_not, Char.not_lt] at hcontrol
  rcases hcontrol with (htab | hnewline) | hplain
  · exact .inl (isTextChar_iff.2 (.inl htab))
  · exact .inr hnewline
  · exact .inl (isTextChar_iff.2 (.inr hplain))

theorem longestRun_pos {c : Char} {s : List Char} (h : c ∈ s) (now best : Nat) :
    0 < longestRun c now best s := by
  induction s generalizing now best with
  | nil => cases h
  | cons d s ih =>
    rw [longestRun]
    split
    · exact Nat.lt_of_lt_of_le (Nat.lt_of_lt_of_le (Nat.succ_pos now) (Nat.le_max_right best _))
        (le_longestRun c _ _ s)
    · rename_i hne
      rcases List.mem_cons.1 h with rfl | hs
      · contradiction
      · exact ih hs _ _

theorem skipNewline_of_text {c : Char} {rest : List Char} (h : isTextChar c = true) :
    skipNewline (c :: rest) = c :: rest := by
  have hnone : newline? (c :: rest) = none := by
    unfold newline?
    split
    · rename_i heq
      cases heq
      cases h
    · rename_i heq
      cases heq
      cases h
    · rfl
  rw [skipNewline, hnone, Option.getD_none]

/-- The line that is put in front of a string of several lines does not count; with no line in it
none is put there, and none is taken for one. -/
theorem skipNewline_opening {s body : List Char}
    (h : '\n' ∉ s → ∃ c tail, body = c :: tail ∧ isTextChar c = true) :
    skipNewline ((if s.contains '\n' then ['\n'] else []) ++ body) = body := by
  by_cases hs : '\n' ∈ s
  · rw [if_pos (List.contains_iff_mem.2 hs)]
    rfl
  · obtain ⟨c, tail, rfl, hc⟩ := h hs
    rw [if_neg (fun hcontains => hs (List.contains_iff_mem.1 hcontains)), List.nil_append]
    exact skipNewline_of_text hc

theorem exists_head_escaped {s : List Char} (h : '\n' ∉ s) (lines : Bool) (allowed : Nat)
    (tail : List Char) :
    ∃ c rest, escaped lines allowed 0 s ++ '"' :: tail = c :: rest ∧ isTextChar c = true := by
  cases s with
  | nil => exact ⟨_, _, rfl, by decide⟩
  | cons c s =>
    rw [escaped]
    split
    · subst c
      split
      · exact ⟨_, _, rfl, by decide⟩
      · exact ⟨_, _, rfl, by decide⟩
    · split
      · rename_i e he
        obtain ⟨esc, rfl, _⟩ := escape?_escapeOf? he
        exact ⟨_, _, rfl, by decide⟩
      · rename_i he
        obtain ⟨_, hc | ⟨rfl, _⟩⟩ := plain_of_escapeOf? he
        · exact ⟨_, _, rfl, hc⟩
        · exact absurd List.mem_cons_self h

theorem scanString_basic (s : List Char) {rest : List Char} (hr : Ends '"' rest) :
    scanString ('"' :: (escaped false 0 0 s ++ ['"']) ++ rest) = some (String.ofList s, rest) := by
  have hne : ∀ tail, escaped false 0 0 s ++ '"' :: rest ≠ '"' :: '"' :: tail := by
    intro tail heq
    cases s with
    | nil => exact hr (by rw [(List.cons.inj heq).2]; rfl)
    | cons c s => exact escaped_ne_quote (.inr (Nat.le_refl 0)) false s _ _ heq
  have hscan := scanBasic_escaped s [] rest
  simp only [List.cons_append, List.append_assoc, List.nil_append] at hscan ⊢
  rw [scanString]
  · exact hscan
  · exact hne

theorem scanString_literal {s : List Char} (hs : ∀ c ∈ s, isTextChar c = true ∧ c ≠ '\'')
    {rest : List Char} (hr : Ends '\'' rest) :
    scanString ('\'' :: (s ++ ['\'']) ++ rest) = some (String.ofList s, rest) := by
  have hne : ∀ tail, s ++ '\'' :: rest ≠ '\'' :: '\'' :: tail := by
    intro tail heq
    cases s with
    | nil => exact hr (by rw [(List.cons.inj heq).2]; rfl)
    | cons c s => exact (hs c List.mem_cons_self).2 (List.cons.inj heq).1
  simp only [List.cons_append, List.append_assoc, List.nil_append]
  rw [scanString]
  · exact scanLiteral_text hs rest
  · exact hne

theorem scanString_tripleBasic (s : List Char) {rest : List Char} (hr : Ends '"' rest) :
    scanString ('"' :: '"' :: '"' :: ((if s.contains '\n' then ['\n'] else []) ++
      escaped true 2 0 s ++ ['"', '"', '"']) ++ rest) = some (String.ofList s, rest) := by
  have hscan := scanTripleBasic_escaped hr s [] 0
  have hopening := skipNewline_opening fun hs : '\n' ∉ s =>
    exists_head_escaped hs true 2 ('"' :: '"' :: rest)
  simp only [List.cons_append, List.append_assoc, List.nil_append] at hscan ⊢
  rw [scanString, hopening]
  exact hscan

theorem scanString_tripleLiteral {s : List Char} (hs : ∀ c ∈ s, isTextChar c = true ∨ c = '\n')
    (hrun : longestRun '\'' 0 0 s ≤ 2) {rest : List Char} (hr : Ends '\'' rest) :
    scanString ('\'' :: '\'' :: '\'' :: ((if s.contains '\n' then ['\n'] else []) ++ s ++
      ['\'', '\'', '\'']) ++ rest) = some (String.ofList s, rest) := by
  have hscan := scanTripleLiteral_text hr hs hrun []
  have hhead : '\n' ∉ s →
      ∃ c tail, s ++ '\'' :: '\'' :: '\'' :: rest = c :: tail ∧ isTextChar c = true := by
    intro hnewline
    cases s with
    | nil => exact ⟨_, _, rfl, by decide⟩
    | cons c s =>
      rcases hs c List.mem_cons_self with hc | rfl
      · exact ⟨_, _, rfl, hc⟩
      · exact absurd List.mem_cons_self hnewline
  have hopening := skipNewline_opening hhead
  simp only [List.cons_append, List.append_assoc, List.nil_append] at hscan ⊢
  rw [scanString, hopening]
  exact hscan

/-- A string is read back from what is written of it, unless a mark follows. -/
theorem scanString_stringText (s : List Char) {rest : List Char} (hq : Ends '"' rest)
    (ha : Ends '\'' rest) : scanString (stringText s ++ rest) = some (String.ofList s, rest) := by
  have hbasic := scanString_tripleBasic s hq
  unfold stringText Content.of
  simp only [Bool.not_eq_true', List.append_assoc] at hbasic ⊢
  split
  · exact scanString_basic s hq
  split
  · rename_i h
    obtain ⟨hcontrol, hrun, hnewline⟩ := h
    refine scanString_literal (fun c hc => ?_) ha
    constructor
    · refine (text_of_control hcontrol c hc).resolve_right ?_
      rintro rfl
      simp [hc] at hnewline
    · rintro rfl
      exact absurd (longestRun_pos hc 0 0) (by omega)
  split
  · exact hbasic
  split
  · rename_i h
    have := scanString_tripleLiteral (text_of_control h.1) h.2 ha
    simpa only [List.append_assoc] using this
  split
  · rename_i h
    rwa [if_pos h] at hbasic
  · exact scanString_basic s hq

end Toml
end FrameEngine
