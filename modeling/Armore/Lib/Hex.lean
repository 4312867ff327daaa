import Armore.Lib.Text
import Mathlib.Algebra.GroupWithZero.Nat

/-!
# Bytes in hexadecimal

What `printf` writes of a byte with `%02X`, and what `scanf` reads with `%hhx` and the same character between two
conversions. `scanf` takes more than `printf` writes: spaces before a number, a sign, `0x`, small letters and any
count of digits. It stops where a conversion fails. What was written is read back as it was.
-/

namespace Armore.Lib.Hex

/-- `isspace` in the C locale. -/
def isSpace (c : Char) : Bool := c ∈ [' ', '\t', '\n', '\x0b', '\x0c', '\r']

/-- What a hexadecimal digit is worth. -/
def digit (c : Char) : Option Nat :=
  if 48 ≤ c.toNat ∧ c.toNat ≤ 57 then some (c.toNat - 48)
  else if 65 ≤ c.toNat ∧ c.toNat ≤ 70 then some (c.toNat - 55)
  else if 97 ≤ c.toNat ∧ c.toNat ≤ 102 then some (c.toNat - 87)
  else none

/-- The digit `%X` writes. -/
def upperDigit (n : Nat) : Char := if n < 10 then Char.ofNat (48 + n) else Char.ofNat (55 + n)

/-- `%02X` of a byte. -/
def print (byte : UInt8) : Text := [upperDigit (byte.toNat / 16), upperDigit (byte.toNat % 16)]

def number (digits : Text) : Nat := digits.foldl (fun value c => 16 * value + (digit c).getD 0) 0

/-- `strtoul`: a number out of range is the largest one, and a minus sign negates what is left. -/
def strtoul (negative : Bool) (n : Nat) : Nat :=
  if 2 ^ 64 ≤ n then 2 ^ 64 - 1 else if negative then (2 ^ 64 - n) % 2 ^ 64 else n

/-- The sign, if there is one, and what follows it. -/
def sign : Text → Bool × Text
  | '-' :: rest => (true, rest)
  | '+' :: rest => (false, rest)
  | rest => (false, rest)

def skipBase : Text → Text
  | '0' :: 'x' :: rest => rest
  | '0' :: 'X' :: rest => rest
  | rest => rest

/-- One `%hhx`, and what it leaves; `none` where no number is found. -/
def scan (text : Text) : Option (UInt8 × Text) :=
  let (negative, rest) := sign (text.dropWhile isSpace)
  let digits := skipBase rest
  match digits.takeWhile fun c => (digit c).isSome with
  | [] => none
  | found => some (.ofNat (strtoul negative (number found)), digits.dropWhile fun c => (digit c).isSome)

/-- `count` conversions with a separator between them: the bytes that are assigned. -/
def scanAll (separator : Char) : Nat → Text → List UInt8
  | 0, _ => []
  | count + 1, text =>
    match scan text with
    | none => []
    | some (byte, []) => [byte]
    | some (byte, c :: rest) => if c = separator then byte :: scanAll separator count rest else [byte]

/-! ### Reading back -/

theorem digit_upperDigit {n : Nat} (hn : n < 16) : digit (upperDigit n) = some n := by
  have hall : ∀ n : Fin 16, digit (upperDigit n.val) = some n.val := by decide
  exact hall ⟨n, hn⟩

/-- It is no space, no sign and no `x`. -/
theorem upperDigit_visible {n : Nat} (hn : n < 16) : isSpace (upperDigit n) = false
    ∧ upperDigit n ∉ ['-', '+', 'x', 'X', '\x00'] := by
  have hall : ∀ n : Fin 16, isSpace (upperDigit n.val) = false
      ∧ upperDigit n.val ∉ ['-', '+', 'x', 'X', '\x00'] := by decide
  exact hall ⟨n, hn⟩

theorem high_lt (byte : UInt8) : byte.toNat / 16 < 16 := Nat.div_lt_of_lt_mul byte.toNat_lt

theorem low_lt (byte : UInt8) : byte.toNat % 16 < 16 := Nat.mod_lt _ (by decide)

theorem zero_notMem_print (byte : UInt8) : '\x00' ∉ print byte := by
  have hhigh := (upperDigit_visible (high_lt byte)).2
  have hlow := (upperDigit_visible (low_lt byte)).2
  simp only [List.mem_cons, not_or] at hhigh hlow
  rw [print, List.mem_cons, List.mem_singleton, not_or]
  exact ⟨Ne.symm hhigh.2.2.2.2.1, Ne.symm hlow.2.2.2.2.1⟩

theorem number_print (byte : UInt8) : number (print byte) = byte.toNat := by
  simp only [number, print, List.foldl_cons, List.foldl_nil, digit_upperDigit (high_lt byte),
    digit_upperDigit (low_lt byte), Option.getD_some]
  omega

theorem strtoul_byte (byte : UInt8) : strtoul false byte.toNat = byte.toNat := by
  have hlt := byte.toNat_lt
  rw [strtoul, if_neg (by omega), if_neg Bool.false_ne_true]

theorem sign_cons {c : Char} (hminus : c ≠ '-') (hplus : c ≠ '+') (rest : Text) :
    sign (c :: rest) = (false, c :: rest) := by
  rw [sign]
  · rintro other ⟨⟩
    exact hminus rfl
  · rintro other ⟨⟩
    exact hplus rfl

theorem skipBase_cons_cons {c : Char} (hsmall : c ≠ 'x') (hlarge : c ≠ 'X') (first : Char) (rest : Text) :
    skipBase (first :: c :: rest) = first :: c :: rest := by
  rw [skipBase]
  · rintro other ⟨⟩
    exact hsmall rfl
  · rintro other ⟨⟩
    exact hlarge rfl

/-- A byte that was written is read back, when no digit follows it. -/
theorem scan_print (byte : UInt8) {rest : Text} (hrest : ∀ c ∈ rest.head?, digit c = none) :
    scan (print byte ++ rest) = some (byte, rest) := by
  obtain ⟨hspace, hhigh⟩ := upperDigit_visible (high_lt byte)
  obtain ⟨-, hlow⟩ := upperDigit_visible (low_lt byte)
  simp only [List.mem_cons, not_or] at hhigh hlow
  have hdigits : ∀ c ∈ print byte, (digit c).isSome = true := by
    intro c hc
    rcases List.mem_cons.mp hc with rfl | hc
    · rw [digit_upperDigit (high_lt byte), Option.isSome_some]
    · rw [List.mem_singleton.mp hc, digit_upperDigit (low_lt byte), Option.isSome_some]
  have hstop : rest.takeWhile (fun c => (digit c).isSome) = [] ∧ rest.dropWhile (fun c => (digit c).isSome) = rest := by
    cases rest with
    | nil => exact ⟨rfl, rfl⟩
    | cons c rest =>
        have hno : ¬ (digit c).isSome = true := by
          rw [hrest c rfl]
          exact Bool.false_ne_true
        exact ⟨List.takeWhile_cons_of_neg hno, List.dropWhile_cons_of_neg hno⟩
  have hfound : (print byte ++ rest).takeWhile (fun c => (digit c).isSome) = print byte := by
    rw [List.takeWhile_append_of_pos hdigits, hstop.1, List.append_nil]
  have hleft : (print byte ++ rest).dropWhile (fun c => (digit c).isSome) = rest := by
    rw [List.dropWhile_append_of_pos hdigits, hstop.2]
  have hskip : (print byte ++ rest).dropWhile isSpace = print byte ++ rest := by
    rw [print, List.cons_append, List.dropWhile_cons_of_neg (by rw [hspace]; exact Bool.false_ne_true)]
  have hsign : sign (print byte ++ rest) = (false, print byte ++ rest) := sign_cons hhigh.1 hhigh.2.1 _
  have hbase : skipBase (print byte ++ rest) = print byte ++ rest :=
    skipBase_cons_cons hlow.2.2.1 hlow.2.2.2.1 _ _
  rw [scan, hskip, hsign]
  simp only [hbase, hfound, hleft]
  show some (UInt8.ofNat (strtoul false (number (print byte))), rest) = some (byte, rest)
  rw [number_print, strtoul_byte, UInt8.ofNat_toNat]

/-- **What is written with separators is read back.** -/
theorem scanAll_intercalate {separator : Char} (hseparator : digit separator = none) (bytes : List UInt8) :
    scanAll separator bytes.length ([separator].intercalate (bytes.map print)) = bytes := by
  induction bytes with
  | nil => rfl
  | cons byte bytes ih =>
      rw [List.length_cons, List.map_cons, scanAll]
      by_cases hnil : bytes = []
      · subst hnil
        have hlast : [separator].intercalate [print byte] = print byte ++ [] := by simp [List.intercalate]
        rw [List.map_nil, hlast, scan_print byte (by simp)]
      · have hmore : bytes.map print ≠ [] := by
          rw [Ne, List.map_eq_nil_iff]
          exact hnil
        rw [Text.intercalate_cons _ hmore, scan_print byte]
        · simp only [if_true, ih]
        · intro c hc
          rw [← Option.some.inj hc]
          exact hseparator

end Armore.Lib.Hex
