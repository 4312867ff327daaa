import Mathlib.Data.List.DropRight
import Mathlib.Tactic.Common

/-!
# Text, as Python reads it

A string is the list of its code points. `List.splitOn` and `List.intercalate` are `split` and `join`
with a separator of one character; here are the other functions of `str` and `int` that a program which
keeps its data in lines of text calls, and what the proofs use of them: two pieces joined by a separator
come apart again, and a string of decimal digits reads as the number it spells.
-/

namespace Armore.Lib

abbrev Text := List Char

instance : LawfulBEq Text := inferInstance

namespace Text

/-! ### Splitting -/

theorem splitOn_join {separator : Char} {left right : Text} (hleft : separator ∉ left)
    (hright : separator ∉ right) :
    (left ++ separator :: right).splitOn separator = [left, right] := by
  rw [List.splitOn_append_cons_self_of_not_mem hleft, List.splitOn_eq_singleton hright]

/-- No piece contains a separator. -/
theorem of_mem_splitOnP {separates : Char → Bool} {text piece : Text} (hpiece : piece ∈ text.splitOnP separates) :
    ∀ c ∈ piece, separates c = false := by
  induction text generalizing piece with
  | nil =>
      rw [List.splitOnP_nil, List.mem_singleton] at hpiece
      simp [hpiece]
  | cons c text ih =>
      rw [List.splitOnP_cons_eq_if_modifyHead] at hpiece
      split at hpiece
      · rcases List.mem_cons.mp hpiece with rfl | hrest
        · exact fun d hd => absurd hd List.not_mem_nil
        · exact ih hrest
      · rename_i hc
        obtain ⟨first, rest, hsplit⟩ := List.exists_cons_of_ne_nil (List.splitOnP_ne_nil separates text)
        rw [hsplit, List.modifyHead_cons] at hpiece
        rcases List.mem_cons.mp hpiece with rfl | hrest
        · intro d hd
          rcases List.mem_cons.mp hd with rfl | hfirst
          · exact eq_false_of_ne_true hc
          · exact ih (hsplit ▸ List.mem_cons_self) d hfirst
        · exact ih (hsplit ▸ List.mem_cons_of_mem first hrest)

theorem notMem_of_mem_splitOn {separator : Char} {text piece : Text} (hpiece : piece ∈ text.splitOn separator) :
    separator ∉ piece := by
  rw [List.splitOn_eq_splitOnP] at hpiece
  intro hmem
  have hno := of_mem_splitOnP hpiece separator hmem
  rw [beq_self_eq_true] at hno
  exact nomatch hno

/-- There are two pieces when the separator is there. -/
theorem splitOn_of_mem {separator : Char} {text : Text} (hmem : separator ∈ text) :
    ∃ first second rest, text.splitOn separator = first :: second :: rest := by
  obtain ⟨first, after, rfl, hfirst⟩ := List.eq_append_cons_of_mem hmem
  obtain ⟨second, rest, hafter⟩ := List.exists_cons_of_ne_nil (List.splitOn_ne_nil separator after)
  exact ⟨first, second, rest, by rw [List.splitOn_append_cons_self_of_not_mem hfirst, hafter]⟩

theorem intercalate_cons {separator : Char} (piece : Text) {pieces : List Text} (hne : pieces ≠ []) :
    [separator].intercalate (piece :: pieces) = piece ++ separator :: [separator].intercalate pieces := by
  obtain ⟨next, rest, rfl⟩ := List.exists_cons_of_ne_nil hne
  simp [List.intercalate]

theorem notMem_intercalate {c separator : Char} (hne : c ≠ separator) {pieces : List Text}
    (hfree : ∀ piece ∈ pieces, c ∉ piece) : c ∉ [separator].intercalate pieces := by
  induction pieces with
  | nil => simp [List.intercalate]
  | cons piece pieces ih =>
      have hpiece := hfree piece List.mem_cons_self
      by_cases hnil : pieces = []
      · simpa [hnil, List.intercalate] using hpiece
      · rw [intercalate_cons piece hnil, List.mem_append, List.mem_cons, not_or, not_or]
        exact ⟨hpiece, hne, ih fun other hother => hfree other (List.mem_cons_of_mem _ hother)⟩

theorem subset_intercalate {separator : Char} {pieces : List Text} {piece : Text} (hpiece : piece ∈ pieces) :
    piece ⊆ [separator].intercalate pieces := by
  induction pieces with
  | nil => exact absurd hpiece List.not_mem_nil
  | cons first pieces ih =>
      by_cases hnil : pieces = []
      · rw [hnil, List.mem_singleton] at hpiece
        simp [hpiece, hnil, List.intercalate]
      · rw [intercalate_cons first hnil]
        rcases List.mem_cons.mp hpiece with rfl | hrest
        · exact List.subset_append_left piece _
        · exact fun c hc => List.mem_append_right first (List.mem_cons_of_mem separator (ih hrest hc))

/-- A piece is part of the text. -/
theorem subset_of_mem_splitOn {separator : Char} {text piece : Text} (hpiece : piece ∈ text.splitOn separator) :
    piece ⊆ text := by
  have hsubset : piece ⊆ [separator].intercalate (text.splitOn separator) := subset_intercalate hpiece
  rwa [List.intercalate_splitOn] at hsubset

/-- A join comes apart into the pieces of its pieces. -/
theorem splitOn_intercalate_eq_flatMap {separator : Char} {pieces : List Text} (hne : pieces ≠ []) :
    ([separator].intercalate pieces).splitOn separator = pieces.flatMap (·.splitOn separator) := by
  induction pieces with
  | nil => exact absurd rfl hne
  | cons piece pieces ih =>
      by_cases hnil : pieces = []
      · simp [hnil, List.intercalate]
      · rw [intercalate_cons piece hnil, List.splitOn_append_cons_self, ih hnil, List.flatMap_cons]

/-- What is joined splits into at least as many pieces. -/
theorem length_le_splitOn_intercalate (separator : Char) (pieces : List Text) (after : Text) :
    pieces.length ≤ (([separator].intercalate pieces ++ after).splitOn separator).length := by
  induction pieces with
  | nil => exact Nat.zero_le _
  | cons piece pieces ih =>
      have hpositive : ∀ text : Text, 1 ≤ (text.splitOn separator).length := fun text =>
        List.length_pos_iff.mpr (List.splitOn_ne_nil separator text)
      by_cases hne : pieces = []
      · rw [hne]
        exact hpositive _
      · rw [intercalate_cons piece hne, List.append_assoc, List.cons_append, List.splitOn_append_cons_self,
          List.length_append, List.length_cons]
        have := hpositive piece
        omega

/-- What is appended to a join goes to its last piece. -/
theorem intercalate_append (separator : Char) (pieces : List Text) (last after : Text) :
    [separator].intercalate (pieces ++ [last]) ++ after = [separator].intercalate (pieces ++ [last ++ after]) := by
  induction pieces with
  | nil => simp [List.intercalate]
  | cons piece pieces ih =>
      rw [List.cons_append, List.cons_append, intercalate_cons piece (by simp), intercalate_cons piece (by simp),
        ← ih, List.append_assoc, List.cons_append]

/-- What is appended without a separator goes to the last piece of a split. -/
theorem splitOn_append {separator : Char} {text last : Text} {pieces : List Text}
    (hsplit : text.splitOn separator = pieces ++ [last]) {after : Text} (hafter : separator ∉ after) :
    (text ++ after).splitOn separator = pieces ++ [last ++ after] := by
  have htext : text = [separator].intercalate (pieces ++ [last]) := by
    rw [← hsplit, List.intercalate_splitOn]
  have hfree : ∀ piece ∈ pieces ++ [last], separator ∉ piece := by
    intro piece hpiece
    exact notMem_of_mem_splitOn (hsplit ▸ hpiece)
  rw [htext, intercalate_append]
  apply List.splitOn_intercalate
  · intro piece hpiece
    rcases List.mem_append.mp hpiece with hpiece | hpiece
    · exact hfree piece (List.mem_append_left _ hpiece)
    · rw [List.mem_singleton] at hpiece
      rw [hpiece, List.mem_append, not_or]
      exact ⟨hfree last (List.mem_append_right _ (List.mem_singleton_self last)), hafter⟩
  · simp

/-! ### Lines -/

/-- Universal newlines: what `open(.., 'r')` hands on. -/
def universalNewlines : Text → Text
  | '\r' :: '\n' :: rest => '\n' :: universalNewlines rest
  | '\r' :: rest => '\n' :: universalNewlines rest
  | c :: rest => c :: universalNewlines rest
  | [] => []

/-- The lines, each with its newline; the last one may have none. -/
def keepLines : Text → List Text
  | [] => []
  | c :: rest =>
    if c = '\n' then [c] :: keepLines rest
    else
      match keepLines rest with
      | [] => [[c]]
      | line :: lines => (c :: line) :: lines

def readlines (text : Text) : List Text := keepLines (universalNewlines text)

/-- Only the empty text has no lines. -/
theorem eq_nil_of_readlines {text : Text} (hlines : readlines text = []) : text = [] := by
  have hkeep : ∀ t : Text, keepLines t = [] → t = [] := by
    intro t ht
    cases t with
    | nil => rfl
    | cons c rest =>
      rw [keepLines] at ht
      split at ht
      · exact nomatch ht
      · split at ht <;> exact nomatch ht
  have hnewlines := hkeep _ hlines
  fun_cases universalNewlines text with
  | case4 => rfl
  | case1 | case2 | case3 => simp [universalNewlines] at hnewlines

theorem universalNewlines_of_notMem {text : Text} (hfree : '\r' ∉ text) : universalNewlines text = text := by
  induction text with
  | nil => rfl
  | cons c rest ih =>
    rw [List.mem_cons, not_or] at hfree
    rw [universalNewlines, ih hfree.2]
    · intro rest' hcr
      exact absurd hcr.symm hfree.1
    · intro hcr
      exact absurd hcr.symm hfree.1

theorem keepLines_line {line : Text} (hline : '\n' ∉ line) (rest : Text) :
    keepLines (line ++ '\n' :: rest) = (line ++ ['\n']) :: keepLines rest := by
  induction line with
  | nil => rw [List.nil_append, keepLines, if_pos rfl, List.nil_append]
  | cons c line ih =>
    rw [List.mem_cons, not_or] at hline
    rw [List.cons_append, keepLines, if_neg (Ne.symm hline.1), ih hline.2, List.cons_append]

/-- Lines without a line break, each ended by a newline, are read back as they are. -/
theorem readlines_flatten {lines : List Text} (hfree : ∀ line ∈ lines, '\n' ∉ line ∧ '\r' ∉ line) :
    readlines (lines.map (· ++ ['\n'])).flatten = lines.map (· ++ ['\n']) := by
  have hreturn : '\r' ∉ (lines.map (· ++ ['\n'])).flatten := by
    simp only [List.mem_flatten, List.mem_map, not_exists, not_and, forall_exists_index, and_imp]
    rintro _ line hmem rfl
    simp [(hfree line hmem).2]
  rw [readlines, universalNewlines_of_notMem hreturn]
  clear hreturn
  induction lines with
  | nil => rfl
  | cons line lines ih =>
    rw [List.map_cons, List.flatten_cons, List.append_assoc, List.singleton_append,
      keepLines_line (hfree line List.mem_cons_self).1, ih fun l hl => hfree l (List.mem_cons_of_mem _ hl)]

def rstrip (c : Char) (text : Text) : Text := text.rdropWhile (· == c)

theorem rstrip_line {line : Text} (hline : '\n' ∉ line) : rstrip '\n' (line ++ ['\n']) = line := by
  rw [rstrip, List.rdropWhile_concat_pos _ _ _ (by simp), List.rdropWhile_eq_self_iff]
  intro hne hlast
  exact hline (beq_iff_eq.mp hlast ▸ List.getLast_mem hne)

def strip (space : Char → Bool) (text : Text) : Text := (text.dropWhile space).rdropWhile space

/-! ### Letters -/

/-- `lower`, up to characters whose lower case is not ASCII. The Kelvin sign is the one character
outside ASCII whose lower case is an ASCII letter. -/
def lower (text : Text) : Text := text.map fun c => if c.toNat = 0x212a then 'k' else c.toLower

/-- `upper`, up to characters whose upper case is not ASCII: the dotless i and the long s are the ones
outside ASCII whose upper case is one ASCII letter. -/
def upper (text : Text) : Text :=
  text.map fun c => if c.toNat = 0x131 then 'I' else if c.toNat = 0x17f then 'S' else c.toUpper

/-! ### Numbers -/

/-- The decimal digits of Unicode come in runs of ten: the zero of each run outside ASCII. -/
def zeros : List Nat :=
  [0x660, 0x6f0, 0x7c0, 0x966, 0x9e6, 0xa66, 0xae6, 0xb66, 0xbe6, 0xc66, 0xce6, 0xd66, 0xde6,
    0xe50, 0xed0, 0xf20, 0x1040, 0x1090, 0x17e0, 0x1810, 0x1946, 0x19d0, 0x1a80, 0x1a90, 0x1b50, 0x1bb0,
    0x1c40, 0x1c50, 0xa620, 0xa8d0, 0xa900, 0xa9d0, 0xa9f0, 0xaa50, 0xabf0, 0xff10, 0x104a0, 0x10d30,
    0x11066, 0x110f0, 0x11136, 0x111d0, 0x112f0, 0x11450, 0x114d0, 0x11650, 0x116c0, 0x11730, 0x118e0,
    0x11950, 0x11c50, 0x11d50, 0x11da0, 0x16a60, 0x16ac0, 0x16b50, 0x1d7ce, 0x1d7d8, 0x1d7e2, 0x1d7ec,
    0x1d7f6, 0x1e140, 0x1e2f0, 0x1e950, 0x1fbf0]

def digit (c : Char) : Option Nat :=
  ((0x30 :: zeros).find? fun z => z ≤ c.toNat ∧ c.toNat < z + 10).map (c.toNat - ·)

def isSpace (c : Char) : Bool :=
  (0x9 ≤ c.toNat ∧ c.toNat ≤ 0xd) ∨ (0x2000 ≤ c.toNat ∧ c.toNat ≤ 0x200a)
    ∨ c.toNat ∈ [0x20, 0x85, 0xa0, 0x1680, 0x2028, 0x2029, 0x202f, 0x205f, 0x3000]

/-- `str.isspace`. The four separators at the end of the ASCII control characters are spaces for `strip`
and `split`, but `int` does not skip them. -/
def whitespace (c : Char) : Bool := isSpace c || (0x1c ≤ c.toNat ∧ c.toNat ≤ 0x1f)

/-- `split()`: the longest runs without a space. -/
def words (text : Text) : List Text := (text.splitOnP whitespace).filter (· ≠ [])

theorem words_append {c : Char} (hc : whitespace c = true) (left right : Text) :
    words (left ++ c :: right) = words left ++ words right := by
  rw [words, List.splitOnP_append_cons _ _ hc, List.filter_append]
  rfl

theorem words_intercalate {separator : Char} (hseparator : whitespace separator = true) (pieces : List Text) :
    words ([separator].intercalate pieces) = pieces.flatMap words := by
  induction pieces with
  | nil => rfl
  | cons piece pieces ih =>
    by_cases hnil : pieces = []
    · simp [hnil, List.intercalate]
    · rw [intercalate_cons piece hnil, words_append hseparator, ih, List.flatMap_cons]

theorem words_eq_singleton {text : Text} (hne : text ≠ []) (hword : ∀ c ∈ text, whitespace c = false) :
    words text = [text] := by
  rw [words, List.splitOnP_eq_singleton hword]
  exact List.filter_cons_of_pos (decide_eq_true hne)

theorem of_mem_words {text word : Text} (hword : word ∈ words text) : ∀ c ∈ word, whitespace c = false :=
  of_mem_splitOnP (List.mem_filter.mp hword).1

/-- The digits of a number, with single underscores between them. -/
def digits (value : Nat) (afterDigit : Bool) : Text → Option Nat
  | [] => if afterDigit then some value else none
  | c :: rest =>
    match digit c with
    | some d => digits (10 * value + d) true rest
    | none => if c = '_' ∧ afterDigit then digits value false rest else none

/-- `int(text)`: `none` for the `ValueError`. -/
def int (text : Text) : Option Int :=
  match strip isSpace text with
  | '-' :: rest => (digits 0 false rest).map fun n : Nat => -(n : Int)
  | '+' :: rest => (digits 0 false rest).map Int.ofNat
  | rest => (digits 0 false rest).map Int.ofNat

/-- `str(n)`. -/
def str (n : Nat) : Text := Nat.toDigits 10 n

/-- A number spelled with ASCII digits only, any number of leading zeros allowed. -/
def IsDecimal (text : Text) : Prop := text ≠ [] ∧ ∀ c ∈ text, c.isDigit = true

instance (text : Text) : Decidable (IsDecimal text) :=
  @instDecidableAnd _ _ inferInstance (List.decidableBAll (fun c => c.isDigit = true) text)

def decimal (text : Text) : Nat := text.foldl (fun value c => 10 * value + (c.toNat - 48)) 0

theorem isDigit_toNat {c : Char} (hc : c.isDigit = true) : 48 ≤ c.toNat ∧ c.toNat ≤ 57 := by
  simp only [Char.isDigit, ge_iff_le, Bool.and_eq_true, decide_eq_true_eq, UInt32.le_iff_toNat_le] at hc
  exact hc

theorem digit_of_isDigit {c : Char} (hc : c.isDigit = true) : digit c = some (c.toNat - 48) := by
  obtain ⟨hlow, hhigh⟩ := isDigit_toNat hc
  have hzero : 0x30 ≤ c.toNat ∧ c.toNat < 0x30 + 10 := by omega
  rw [digit, List.find?_cons_of_pos (by simpa using hzero), Option.map_some]

theorem isSpace_of_isDigit {c : Char} (hc : c.isDigit = true) : isSpace c = false := by
  obtain ⟨hlow, hhigh⟩ := isDigit_toNat hc
  rw [isSpace, decide_eq_false_iff_not]
  simp only [List.mem_cons, List.not_mem_nil, or_false]
  omega

theorem digits_of_isDigit {text : Text} (hdigits : ∀ c ∈ text, c.isDigit = true) (value : Nat) :
    digits value true text = some (text.foldl (fun value c => 10 * value + (c.toNat - 48)) value) := by
  induction text generalizing value with
  | nil => rfl
  | cons c rest ih =>
    rw [digits, digit_of_isDigit (hdigits c List.mem_cons_self), List.foldl_cons]
    exact ih (fun d hd => hdigits d (List.mem_cons_of_mem c hd)) _

theorem strip_of_isDecimal {text : Text} (hdecimal : IsDecimal text) : strip isSpace text = text := by
  obtain ⟨hne, hdigits⟩ := hdecimal
  have hfront : text.dropWhile isSpace = text := by
    cases text with
    | nil => rfl
    | cons c rest =>
      rw [List.dropWhile_cons_of_neg]
      rw [isSpace_of_isDigit (hdigits c List.mem_cons_self)]
      exact Bool.false_ne_true
  rw [strip, hfront, List.rdropWhile_eq_self_iff]
  intro hnonempty
  rw [isSpace_of_isDigit (hdigits _ (List.getLast_mem hnonempty))]
  exact Bool.false_ne_true

theorem int_of_isDecimal {text : Text} (hdecimal : IsDecimal text) :
    int text = some (decimal text : Int) := by
  have hstrip := strip_of_isDecimal hdecimal
  obtain ⟨hne, hdigits⟩ := hdecimal
  obtain ⟨c, rest, htext⟩ := List.exists_cons_of_ne_nil hne
  have hc : c.isDigit = true := hdigits c (htext ▸ List.mem_cons_self)
  have hread : digits 0 false text = some (decimal text) := by
    rw [htext, digits, digit_of_isDigit hc]
    exact digits_of_isDigit (fun d hd => hdigits d (htext ▸ List.mem_cons_of_mem c hd)) _
  -- a digit is no sign, so the last branch of `int` reads the text
  rw [int, hstrip]
  split
  · exact absurd (hdigits '-' List.mem_cons_self) (by decide)
  · exact absurd (hdigits '+' List.mem_cons_self) (by decide)
  · rw [hread, Option.map_some]
    rfl

end Text

end Armore.Lib
