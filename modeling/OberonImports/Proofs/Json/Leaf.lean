import OberonImports.Json
import OberonImports.Yaml.Scalar.Quoted

/-!
# Reading numbers and strings of JSON texts

A number ends where its digits end, and has no idle zero in front. A string is read as code units,
up to the first quote that is not escaped: a character stands for its code, an escape for the code
of a character or for one half of a pair. Whatever follows, numbers and strings are read back from
their texts.
-/

namespace OberonImports.Json

open Yaml (hexValue?)

variable {rest : List Char}

/-! ### Numbers -/

/-- A text that does not go on with a digit. -/
def EndsNumber (rest : List Char) : Prop := ∀ c ∈ rest.head?, c.isDigit = false

/-- The number at the front of a text, and the text behind it. -/
def readNumber? (text : List Char) : Option (Nat × List Char) :=
  let digits := text.takeWhile Char.isDigit
  if digits = [] ∨ (digits.head? = some '0' ∧ digits ≠ ['0']) then none
  else some (Nat.ofDigitChars 10 digits 0, text.dropWhile Char.isDigit)

/-- The only numeral that starts with a zero is that of zero. -/
theorem head?_toDigits {n : Nat} (hzero : (Nat.toDigits 10 n).head? = some '0') :
    Nat.toDigits 10 n = ['0'] := by
  induction n using Nat.strongRecOn with
  | ind n ih =>
      by_cases hsmall : n < 10
      · rw [Nat.toDigits_of_lt_base hsmall] at hzero ⊢
        simpa using hzero
      · have hsplit := Nat.toDigits_of_base_le (by decide) (Nat.not_lt.mp hsmall)
        have hupper : (Nat.toDigits 10 (n / 10)).head? = some '0' := by
          rwa [hsplit, List.head?_append, List.head?_eq_some_head Nat.toDigits_ne_nil, Option.some_or,
            ← List.head?_eq_some_head] at hzero
        -- What is left of the last digit is at least one, and zero has no other numeral.
        have hvalue := congrArg (Nat.ofDigitChars 10 · 0) (ih (n / 10) (by omega) hupper)
        simp only [Nat.ofDigitChars_ten_toDigits] at hvalue
        have hzero' : Nat.ofDigitChars 10 ['0'] 0 = 0 := by decide
        omega

theorem readNumber?_toDigits (n : Nat) (hrest : EndsNumber rest) :
    readNumber? (Nat.toDigits 10 n ++ rest) = some (n, rest) := by
  have hdigits : ∀ c ∈ Nat.toDigits 10 n, c.isDigit = true :=
    fun c hc => Nat.isDigit_of_mem_toDigits (by decide) (by decide) hc
  have hstop : rest.takeWhile Char.isDigit = [] ∧ rest.dropWhile Char.isDigit = rest := by
    cases rest with
    | nil => exact ⟨rfl, rfl⟩
    | cons c rest => simp [hrest c rfl]
  have hproper : ¬ (Nat.toDigits 10 n = [] ∨
      ((Nat.toDigits 10 n).head? = some '0' ∧ Nat.toDigits 10 n ≠ ['0'])) := by
    rintro (hnil | ⟨hzero, hne⟩)
    · exact Nat.toDigits_ne_nil hnil
    · exact hne (head?_toDigits hzero)
  rw [readNumber?, List.takeWhile_append_of_pos hdigits, hstop.1, List.append_nil,
    if_neg hproper, List.dropWhile_append_of_pos hdigits, hstop.2, Nat.ofDigitChars_ten_toDigits]

/-! ### Strings -/

/-- What a character behind a backslash stands for. -/
def escaped? : Char → Option Char
  | '"' => some '"'
  | '\\' => some '\\'
  | '/' => some '/'
  | 'b' => some '\x08'
  | 'f' => some '\x0c'
  | 'n' => some '\n'
  | 'r' => some '\r'
  | 't' => some '\t'
  | _ => none

/-- The code that four hexadecimal digits give. -/
def unit? (digits : List Char) : Option Nat :=
  digits.foldlM (fun unit digit => (hexValue? digit).map (unit * 16 + ·)) 0

/-- The code units up to the first quote that is not escaped, and the text behind it. -/
def readUnits? : List Char → Option (List Nat × List Char)
  | [] => none
  | '"' :: rest => some ([], rest)
  | '\\' :: 'u' :: first :: second :: third :: fourth :: rest =>
      (unit? [first, second, third, fourth]).bind fun unit =>
        (readUnits? rest).map fun (units, rest) => (unit :: units, rest)
  | '\\' :: c :: rest =>
      (escaped? c).bind fun c =>
        (readUnits? rest).map fun (units, rest) => (c.toNat :: units, rest)
  | c :: rest =>
      if c.toNat < 0x20 then none
      else (readUnits? rest).map fun (units, rest) => (c.toNat :: units, rest)

/-- The characters that code units stand for. What is not the code of a character has to be the
first half of a pair. -/
def charsOfUnits? : List Nat → Option (List Char)
  | [] => some []
  | unit :: units =>
      if unit.isValidChar then (charsOfUnits? units).map (Char.ofNat unit :: ·)
      else
        match units with
        | [] => none
        | low :: units =>
            if 0xD800 ≤ unit ∧ unit < 0xDC00 ∧ 0xDC00 ≤ low ∧ low < 0xE000 then
              (charsOfUnits? units).map
                (Char.ofNat (0x10000 + (unit - 0xD800) * 0x400 + (low - 0xDC00)) :: ·)
            else none

/-- The string behind a quote, and the text behind the quote that ends it. -/
def readString? (text : List Char) : Option (String × List Char) := do
  let (units, rest) ← readUnits? text
  let chars ← charsOfUnits? units
  return (String.ofList chars, rest)

theorem charsOfUnits?_map_toNat (chars : List Char) :
    charsOfUnits? (chars.map Char.toNat) = some chars := by
  induction chars with
  | nil => rfl
  | cons c chars ih =>
      have hvalid : c.toNat.isValidChar := c.valid
      rw [List.map_cons, charsOfUnits?.eq_def]
      simp only [if_pos hvalid, ih, Option.map_some, Char.ofNat_toNat]

theorem hexValue?_hexDigit : ∀ digit < 16, hexValue? (hexDigit digit) = some digit := by
  decide

/-- The code of a control character is read from its two digits. -/
theorem unit?_control {c : Char} (hcontrol : c.toNat < 0x20) :
    unit? ['0', '0', hexDigit (c.toNat / 16), hexDigit (c.toNat % 16)] = some c.toNat := by
  have hzero : hexValue? '0' = some 0 := by decide
  have hhigh := hexValue?_hexDigit (c.toNat / 16) (by omega)
  have hlow := hexValue?_hexDigit (c.toNat % 16) (by omega)
  simp only [unit?, List.foldlM_cons, List.foldlM_nil, hzero, hhigh, hlow, Option.map_some,
    Option.bind_eq_bind, Option.bind_some, Option.pure_def, Option.some.injEq]
  omega

theorem readUnits?_escapeChar (c : Char) (text : List Char) :
    readUnits? (escapeChar c ++ text) =
      (readUnits? text).map fun (units, rest) => (c.toNat :: units, rest) := by
  unfold escapeChar
  split
  iterate 7 rfl
  next hquote hbackslash _ _ _ _ _ =>
    split
    next hcontrol =>
      have hunit := unit?_control hcontrol
      simp only [List.cons_append, List.nil_append]
      rw [readUnits?, hunit, Option.bind_some]
    next hplain =>
      rw [List.singleton_append, readUnits?, if_neg hplain]
      · exact hquote
      · intro _ _ _ _ _ hc
        exact absurd hc hbackslash
      · intro _ _ hc
        exact absurd hc hbackslash

theorem readUnits?_escaped (chars : List Char) :
    readUnits? (chars.flatMap escapeChar ++ '"' :: rest) = some (chars.map Char.toNat, rest) := by
  induction chars with
  | nil => rfl
  | cons c chars ih =>
      rw [List.flatMap_cons, List.append_assoc, readUnits?_escapeChar, ih]
      rfl

theorem toList_quote (s : String) :
    (quote s).toList = '"' :: (s.toList.flatMap escapeChar ++ ['"']) :=
  String.toList_ofList

theorem readString?_escaped (s : String) :
    readString? (s.toList.flatMap escapeChar ++ '"' :: rest) = some (s, rest) := by
  simp [readString?, readUnits?_escaped, charsOfUnits?_map_toNat]

end OberonImports.Json
