import FrameEngine.Proofs.Decimal.Nearest
import FrameEngine.Proofs.Decimal.Positional
import FrameEngine.Proofs.Text.Runs
import FrameEngine.Proofs.Toml.Strings
import FrameEngine.Toml.Reader

/-!
# FrameEngine.Proofs.Toml.Scalars

A scalar at the end of a line is read back (`scanValue_text`): strings of any content, booleans,
integers of 64 bits and finite floating-point numbers. A number is the nearest one to the decimal
that is written of it, and no text of a number looks like a date.
-/

namespace FrameEngine
namespace Toml

open Decimal (Whole Sets splitSign digitsValue Scientific isDigit_of_mem_whole)

/-! ## Digits -/

theorem ungroup?_digits {run : List Char} (hne : run ≠ []) (h : ∀ c ∈ run, c.isDigit = true) :
    ungroup? Char.isDigit run = some run := by
  induction run with
  | nil => contradiction
  | cons c run ih =>
    have hc := h c List.mem_cons_self
    have hrun : ∀ d ∈ run, d.isDigit = true := fun d hd => h d (List.mem_cons_of_mem c hd)
    cases run with
    | nil => rw [ungroup?, if_pos hc]
    | cons d run =>
      have hd : d ≠ '_' := by
        rintro rfl
        exact absurd (hrun '_' List.mem_cons_self) (by decide)
      rw [ungroup?, if_pos hc, ih (by simp) hrun]
      · rfl
      · simp
      · intro rest heq
        exact hd (List.cons.inj heq).1

theorem wholeDigits?_whole {run : List Char} (h : Whole run) : wholeDigits? run = some run := by
  have hdigits := isDigit_of_mem_whole h
  cases h with
  | zero => rfl
  | @leading c run lead digits =>
    rw [wholeDigits?, ungroup?_digits (by simp) hdigits]
    · intro heq; exact lead (List.cons.inj heq).1
    · intro rest heq; exact lead (List.cons.inj heq).1

theorem isMark_of_isDigit {c : Char} (h : c.isDigit = true) : isMark c = false := by
  have he : c ≠ 'e' := by rintro rfl; exact absurd h (by decide)
  have hE : c ≠ 'E' := by rintro rfl; exact absurd h (by decide)
  simp [isMark, he, hE]

theorem magnitude?_point {whole fraction : List Char} (negative : Bool) (hw : Whole whole)
    (hf : ∀ c ∈ fraction, c.isDigit = true) (hne : fraction ≠ []) :
    magnitude? negative (whole ++ '.' :: fraction) =
      some (.ofDecimal negative (digitsValue (whole ++ fraction)) (-fraction.length)) := by
  have hdigit : ∀ c ∈ whole, (c.isDigit || decide (c = '_')) = true := by
    intro c hc
    rw [isDigit_of_mem_whole hw c hc, Bool.true_or]
  have hpoint : ∀ c ∈ ('.' :: fraction).head?, (c.isDigit || decide (c = '_')) = false := by
    intro c hc
    cases hc
    decide
  have hmark : ∀ c ∈ fraction, (!isMark c) = true := by
    intro c hc
    rw [isMark_of_isDigit (hf c hc), Bool.not_false]
  simp [magnitude?, takeWhile_run hdigit hpoint, dropWhile_run hdigit hpoint,
    wholeDigits?_whole hw, List.takeWhile_eq_self_iff.2 hmark,
    List.dropWhile_eq_nil_iff.2 hmark, ungroup?_digits hne hf]

/-- A run of digits alone is no floating-point number. -/
theorem magnitude?_whole {run : List Char} (negative : Bool) (hw : Whole run) :
    magnitude? negative run = none := by
  have hdigit : ∀ c ∈ run, (c.isDigit || decide (c = '_')) = true := by
    intro c hc
    rw [isDigit_of_mem_whole hw c hc, Bool.true_or]
  simp [magnitude?, List.takeWhile_eq_self_iff.2 hdigit, List.dropWhile_eq_nil_iff.2 hdigit,
    wholeDigits?_whole hw, scalarExponent?]

/-! ## Numbers -/

/-- The characters of a number behind its sign. -/
structure Figures (text : List Char) : Prop where
  chars : ∀ c ∈ text, c.isDigit = true ∨ c = '.'
  head : ∃ c rest, text = c :: rest ∧ c.isDigit = true

/-- A number with its sign, if it has one. -/
def signed (negative : Bool) (text : List Char) : List Char :=
  if negative then '-' :: text else text

theorem figures_whole {run : List Char} (h : Whole run) : Figures run := by
  have hdigits := isDigit_of_mem_whole h
  refine ⟨fun c hc => .inl (hdigits c hc), ?_⟩
  cases h with
  | zero => exact ⟨_, _, rfl, by decide⟩
  | leading => exact ⟨_, _, rfl, hdigits _ List.mem_cons_self⟩

theorem figures_point {whole fraction : List Char} (hw : Whole whole)
    (hf : ∀ c ∈ fraction, c.isDigit = true) : Figures (whole ++ '.' :: fraction) := by
  obtain ⟨hchars, c, rest, rfl, hc⟩ := figures_whole hw
  refine ⟨fun d hd => ?_, ⟨c, _, rfl, hc⟩⟩
  rcases List.mem_append.1 hd with hd | hd
  · exact hchars d hd
  · rcases List.mem_cons.1 hd with rfl | hd
    · exact .inr rfl
    · exact .inl (hf d hd)

theorem splitSign_signed {text : List Char} (h : Figures text) (negative : Bool) :
    splitSign (signed negative text) = (negative, text) := by
  obtain ⟨c, rest, rfl, hc⟩ := h.head
  cases negative with
  | true => rfl
  | false =>
    rw [signed, if_neg (by simp), splitSign]
    · rintro rest' heq
      rw [(List.cons.inj heq).1] at hc
      exact absurd hc (by decide)
    · rintro rest' heq
      rw [(List.cons.inj heq).1] at hc
      exact absurd hc (by decide)

/-! ## No date -/

theorem mem_tail_of_isDate {text : List Char} (h : isDate text = true) : '-' ∈ text.tail := by
  unfold isDate at h
  split at h
  · simp
  · cases h

theorem mem_of_isMinute {text : List Char} (h : isMinute text = true) : ':' ∈ text := by
  unfold isMinute at h
  split at h
  · simp
  · cases h

theorem mem_of_isTime {offset : Bool} {text : List Char} (h : isTime offset text = true) :
    ':' ∈ text := by
  rw [isTime, Bool.and_eq_true] at h
  exact List.mem_of_mem_take (mem_of_isMinute h.1)

/-- A date or a time has a colon in it, or a hyphen behind its first character. -/
theorem marks_of_isDatetime {text : List Char} (h : isDatetime text = true) :
    ':' ∈ text ∨ '-' ∈ text.tail := by
  simp only [isDatetime, Bool.or_eq_true, Bool.and_eq_true] at h
  rcases h with (hdate | htime) | ⟨hdate, _⟩
  · exact .inr (mem_tail_of_isDate hdate)
  · exact .inl (mem_of_isTime htime)
  · refine .inr ?_
    have hmem := mem_tail_of_isDate hdate
    cases text with
    | nil => exact hmem
    | cons c text =>
      rw [List.take_succ_cons, List.tail_cons] at hmem
      exact List.mem_of_mem_take hmem

theorem isDatetime_signed {text : List Char} (h : Figures text) (negative : Bool) :
    isDatetime (signed negative text) = false := by
  have hcolon : ':' ∉ text := fun hmem => by
    rcases h.chars _ hmem with hc | hc <;> exact absurd hc (by decide)
  have hhyphen : '-' ∉ text := fun hmem => by
    rcases h.chars _ hmem with hc | hc <;> exact absurd hc (by decide)
  refine Bool.eq_false_iff.2 fun hdate => ?_
  cases negative with
  | true =>
    rcases marks_of_isDatetime hdate with hmem | hmem
    · exact hcolon ((List.mem_cons.1 hmem).resolve_left (by decide))
    · exact hhyphen hmem
  | false =>
    rcases marks_of_isDatetime hdate with hmem | hmem
    · exact hcolon hmem
    · exact hhyphen (List.mem_of_mem_tail hmem)

/-- What a number is not: a boolean, a date, or one of the names of numbers that are not finite. -/
theorem scalar?_signed {text : List Char} (h : Figures text) (negative : Bool) :
    scalar? (signed negative text) =
      match (magnitude? negative text).bind fun x =>
          if x = .infinity false then none else some (.real x) with
      | some v => some v
      | none => scalarInteger? (signed negative text) := by
  obtain ⟨c, rest, htext, hc⟩ := h.head
  have hletter {d : Char} {more : List Char} (hd : d.isDigit = false) : text ≠ d :: more := by
    intro heq
    rw [htext] at heq
    rw [(List.cons.inj heq).1, hd] at hc
    cases hc
  have hletter' {d : Char} {more : List Char} (hd : d.isDigit = false) (hminus : d ≠ '-') :
      signed negative text ≠ d :: more := by
    cases negative with
    | true => exact fun heq => hminus (List.cons.inj heq).1.symm
    | false => exact hletter hd
  rw [scalar?, if_neg (hletter' (by decide) (by decide)), if_neg (hletter' (by decide) (by decide)),
    isDatetime_signed h negative]
  simp only [Bool.false_eq_true, if_false, scalarReal?, splitSign_signed h negative,
    hletter (d := 'i') (by decide), hletter (d := 'n') (by decide)]
  rfl

/-! ## Floating-point numbers -/

theorem text_real {x : Binary64} (hf : x.isFinite = true) :
    (Scalar.real x).text =
      signed x.isNegative (realLayout.magnitude (Decimal.shortest .up x)) := by
  have hnan : x.isNaN = false := by
    have := (Binary64.isFinite_iff x).1 hf
    exact decide_eq_false (by omega)
  simp only [Scalar.text, Decimal.Layout.text, hnan, hf, Bool.false_eq_true, if_false, if_true,
    String.toList_append, String.toList_ofList, signed]
  cases x.isNegative <;> rfl

theorem scalar?_real {x : Binary64} (hf : x.isFinite = true) :
    scalar? (Scalar.real x).text = some (.real x) := by
  obtain ⟨whole, fraction, hsets⟩ :=
    @Decimal.exists_sets realLayout rfl rfl (Decimal.shortest .up x)
  have hdigits : ∀ c ∈ whole ++ fraction, c.isDigit = true :=
    Decimal.isDigit_of_mem_append (isDigit_of_mem_whole hsets.isWhole) hsets.digits
  have hsize : digitsValue (whole ++ fraction) < tenTo 2000 := by
    refine Nat.lt_of_lt_of_le (Decimal.digitsValue_lt hdigits) (tenTo_le ?_)
    exact Nat.le_trans hsets.length_le (Decimal.length_shortest hf .up)
  have hx := Decimal.ofDecimal_of_value hf hsize hsets.value_eq
  have hinfinite : x ≠ .infinity false := by
    rintro rfl
    exact absurd hf (by decide)
  rw [text_real hf, hsets.text_eq, scalar?_signed (figures_point hsets.isWhole hsets.digits),
    magnitude?_point _ hsets.isWhole hsets.digits hsets.nonempty, hx]
  simp [hinfinite]

theorem figures_real {x : Binary64} (hf : x.isFinite = true) :
    ∃ negative run, Figures run ∧ (Scalar.real x).text = signed negative run := by
  obtain ⟨whole, fraction, hsets⟩ :=
    @Decimal.exists_sets realLayout rfl rfl (Decimal.shortest .up x)
  rw [text_real hf, hsets.text_eq]
  exact ⟨_, _, figures_point hsets.isWhole hsets.digits, rfl⟩

/-! ## Integers -/

theorem text_integer (n : Int) :
    (Scalar.integer n).text = signed (n < 0) (Nat.toDigits 10 n.natAbs) := by
  simp only [Scalar.text, Decimal.integerText, Decimal.digitsOf, signed, decide_eq_true_eq]
  split
  · simp
  · simp

theorem figures_integer (n : Int) :
    ∃ negative run, Figures run ∧ (Scalar.integer n).text = signed negative run :=
  ⟨_, _, figures_whole (Decimal.whole_toDigits _), text_integer n⟩

theorem scalarInteger?_signed {run : List Char} (h : Whole run) (negative : Bool) :
    scalarInteger? (signed negative run) =
      integer? (if negative then -(digitsValue run : Int) else digitsValue run) := by
  have hfigures := figures_whole h
  have hletter {d : Char} {more : List Char} (hd : d.isDigit = false) :
      signed negative run ≠ '0' :: d :: more := by
    intro heq
    cases negative with
    | true => exact absurd (List.cons.inj heq).1 (by decide)
    | false =>
      have hdigit := isDigit_of_mem_whole h d (by rw [show run = _ from heq]; simp)
      rw [hd] at hdigit
      cases hdigit
  rw [scalarInteger?, splitSign_signed hfigures negative]
  · simp [wholeDigits?_whole h]
  · intro more heq
    exact hletter (by decide) heq
  · intro more heq
    exact hletter (by decide) heq
  · intro more heq
    exact hletter (by decide) heq

theorem scalar?_integer {n : Int} (hn : isSigned64 n = true) :
    scalar? (Scalar.integer n).text = some (.integer n) := by
  have hw := Decimal.whole_toDigits n.natAbs
  have hvalue : (if decide (n < 0) = true then -(n.natAbs : Int) else n.natAbs) = n := by
    by_cases hneg : n < 0
    · rw [if_pos (decide_eq_true hneg)]
      omega
    · rw [if_neg (by simpa using hneg)]
      omega
  rw [text_integer, scalar?_signed (figures_whole hw), magnitude?_whole _ hw,
    scalarInteger?_signed hw, Decimal.digitsValue_toDigits, hvalue]
  simp [integer?, hn]

/-! ## A scalar at the end of a line -/

/-- The scalars that a document can hold: integers of 64 bits and finite numbers. -/
def Scalar.Readable : Scalar → Prop
  | .integer n => isSigned64 n = true
  | .real x => x.isFinite = true
  | _ => True

theorem isScalarChar_of_figures {text : List Char} (h : Figures text) (negative : Bool) :
    ∀ c ∈ signed negative text, isScalarChar c = true := by
  have hdigit {c : Char} (hc : c.isDigit = true) : isScalarChar c = true := by
    simp [isScalarChar, isBareChar, Char.isAlphanum, hc]
  have hchars : ∀ c ∈ text, isScalarChar c = true := by
    intro c hc
    rcases h.chars c hc with hc | rfl
    · exact hdigit hc
    · decide
  cases negative with
  | true =>
    intro c hc
    rcases List.mem_cons.1 hc with rfl | hc
    · decide
    · exact hchars c hc
  | false => exact hchars

theorem scanScalar_text {text : List Char} {v : Toml} (h : ∀ c ∈ text, isScalarChar c = true)
    (hv : scalar? text = some v) (rest : List Char) :
    scanScalar (text ++ '\n' :: rest) = some (v, '\n' :: rest) := by
  have hend : ∀ c ∈ ('\n' :: rest).head?, isScalarChar c = false := by
    intro c hc
    cases hc
    decide
  rw [scanScalar, takeWhile_run h hend, dropWhile_run h hend]
  simp [hv]

/-- A value that does not begin with a mark or a bracket is a scalar. -/
theorem scanValue_scalar {c : Char} (hc : isScalarChar c = true) (steps depth : Nat)
    (rest : List Char) : scanValue (steps + 1) depth (c :: rest) = scanScalar (c :: rest) := by
  have hne {d : Char} (hd : isScalarChar d = false) : c ≠ d := by
    rintro rfl
    rw [hd] at hc
    cases hc
  rw [scanValue]
  · rintro _ heq; exact hne (by decide) (List.cons.inj heq).1
  · rintro _ heq; exact hne (by decide) (List.cons.inj heq).1
  · rintro _ heq; exact hne (by decide) (List.cons.inj heq).1
  · rintro _ heq; exact hne (by decide) (List.cons.inj heq).1

theorem scanValue_signed {text : List Char} {v : Toml} (h : Figures text) {negative : Bool}
    (hv : scalar? (signed negative text) = some v) (steps depth : Nat) (rest : List Char) :
    scanValue (steps + 1) depth (signed negative text ++ '\n' :: rest) =
      some (v, '\n' :: rest) := by
  have hchars := isScalarChar_of_figures h negative
  rw [← scanScalar_text hchars hv]
  obtain ⟨c, more, rfl, hc⟩ := h.head
  cases negative with
  | true => exact scanValue_scalar (by decide) steps depth _
  | false => exact scanValue_scalar (hchars c List.mem_cons_self) steps depth _

/-- A string begins with a mark. -/
theorem stringText_eq_cons (s : List Char) :
    ∃ tail, stringText s = '"' :: tail ∨ stringText s = '\'' :: tail := by
  unfold stringText
  dsimp only
  split
  · exact ⟨_, .inl rfl⟩
  split
  · exact ⟨_, .inr rfl⟩
  split
  · exact ⟨_, .inl rfl⟩
  split
  · exact ⟨_, .inr rfl⟩
  split
  · exact ⟨_, .inl rfl⟩
  · exact ⟨_, .inl rfl⟩

theorem scanValue_string (s : String) (steps depth : Nat) {rest : List Char} (hq : Ends '"' rest)
    (ha : Ends '\'' rest) :
    scanValue (steps + 1) depth ((Scalar.string s).text ++ rest) = some (.string s, rest) := by
  have hscan := scanString_stringText s.toList hq ha
  rw [String.ofList_toList] at hscan
  rw [Scalar.text]
  obtain ⟨tail, htail | htail⟩ := stringText_eq_cons s.toList
  · rw [htail, List.cons_append] at hscan ⊢
    rw [scanValue, hscan]
    rfl
  · rw [htail, List.cons_append] at hscan ⊢
    rw [scanValue, hscan]
    rfl

/-- Every scalar that a document can hold is read back at the end of its line. -/
theorem scanValue_text {v : Scalar} (h : v.Readable) (steps depth : Nat) (rest : List Char) :
    scanValue (steps + 1) depth (v.text ++ '\n' :: rest) = some (v.value, '\n' :: rest) := by
  cases v with
  | string s =>
    have hends {mark : Char} (hmark : mark ≠ '\n') : Ends mark ('\n' :: rest) :=
      fun heq => hmark (Option.some.inj heq).symm
    exact scanValue_string s steps depth (hends (by decide)) (hends (by decide))
  | integer n =>
    obtain ⟨negative, run, hrun, htext⟩ := figures_integer n
    have hv := scalar?_integer h
    rw [htext] at hv ⊢
    exact scanValue_signed hrun hv steps depth rest
  | real x =>
    obtain ⟨negative, run, hrun, htext⟩ := figures_real h
    have hv := scalar?_real h
    rw [htext] at hv ⊢
    exact scanValue_signed hrun hv steps depth rest
  | bool b =>
    have hv : scalar? (Scalar.bool b).text = some (.bool b) := by cases b <;> rfl
    have hall : (Scalar.bool b).text.all isScalarChar = true := by cases b <;> decide
    have hchars := List.all_eq_true.1 hall
    have hscan := scanScalar_text hchars hv rest
    cases b with
    | true => exact (scanValue_scalar (by decide) steps depth _).trans hscan
    | false => exact (scanValue_scalar (by decide) steps depth _).trans hscan

/-- A scalar does not begin with a blank. -/
theorem text_eq_cons {v : Scalar} (h : v.Readable) :
    ∃ c rest, v.text = c :: rest ∧ isBlank c = false := by
  have hsigned {text : List Char} (hfigures : Figures text) (negative : Bool) :
      ∃ c rest, signed negative text = c :: rest ∧ isBlank c = false := by
    obtain ⟨c, rest, rfl, hc⟩ := hfigures.head
    cases negative with
    | true => exact ⟨_, _, rfl, by decide⟩
    | false =>
      refine ⟨c, rest, rfl, ?_⟩
      have hspace : c ≠ ' ' := by rintro rfl; exact absurd hc (by decide)
      have htab : c ≠ '\t' := by rintro rfl; exact absurd hc (by decide)
      simp [isBlank, hspace, htab]
  cases v with
  | string s =>
    obtain ⟨tail, htail | htail⟩ := stringText_eq_cons s.toList
    · exact ⟨_, tail, htail, by decide⟩
    · exact ⟨_, tail, htail, by decide⟩
  | integer n =>
    obtain ⟨negative, run, hrun, htext⟩ := figures_integer n
    rw [htext]
    exact hsigned hrun negative
  | real x =>
    obtain ⟨negative, run, hrun, htext⟩ := figures_real h
    rw [htext]
    exact hsigned hrun negative
  | bool b =>
    cases b with
    | true => exact ⟨_, _, rfl, by decide⟩
    | false => exact ⟨_, _, rfl, by decide⟩

end Toml
end FrameEngine
