import Mathlib

/-!
Numerals as the C library reads them (`strtol` with base 0 and a 64-bit `long`).

Owns: the integer that the longest numeral at the start of a string denotes with what follows it,
and its conversion to `long`, which is limited to the range of the type. Does not own: what may
follow.
-/

namespace Whippet.Numerals

def LONG_MIN : ℤ := -2 ^ 63
def LONG_MAX : ℤ := 2 ^ 63 - 1

/-- `isspace` in the C locale. -/
def isSpace (char : Char) : Bool := char.toNat = 32 || (9 ≤ char.toNat && char.toNat ≤ 13)

def digitValue (char : Char) : Option ℕ :=
  if char.isDigit then some (char.toNat - 48)
  else if char.isLower then some (char.toNat - 97 + 10)
  else if char.isUpper then some (char.toNat - 65 + 10)
  else none

def isDigitOf (base : ℕ) (char : Char) : Bool :=
  match digitValue char with
  | some value => value < base
  | none => false

def digitsValue (base : ℕ) (digits : List Char) : ℕ :=
  digits.foldl (fun value digit => value * base + (digitValue digit).getD 0) 0

/-- The sign, and what follows it. -/
def signOf : List Char → ℤ × List Char
  | [] => (1, [])
  | char :: rest =>
      if char = '-' then (-1, rest)
      else if char = '+' then (1, rest)
      else (1, char :: rest)

/-- What follows `0x`, if it starts with a digit. -/
def hexDigits : List Char → Option (List Char)
  | zero :: letter :: digit :: rest =>
      if zero = '0' ∧ (letter = 'x' ∨ letter = 'X') ∧ isDigitOf 16 digit = true then
        some (digit :: rest)
      else none
  | _ => none

/-- The base, and the string from its first digit on. -/
def baseOf (body : List Char) : ℕ × List Char :=
  match hexDigits body with
  | some digits => (16, digits)
  | none => (if body.head? = some '0' then 8 else 10, body)

/-- The integer that the numeral at the start denotes, and what follows it. -/
def numeral (str : List Char) : Option (ℤ × List Char) :=
  let (sign, unsigned) := signOf (str.dropWhile isSpace)
  let (base, body) := baseOf unsigned
  let digits := body.takeWhile (isDigitOf base)
  if digits = [] then none
  else some (sign * digitsValue base digits, body.drop digits.length)

/-- `strtol (str, &end, 0)`, with `end`. -/
def strtol (str : List Char) : ℤ × List Char :=
  match numeral str with
  | none => (0, str)
  | some (value, rest) => (max LONG_MIN (min LONG_MAX value), rest)

theorem length_signOf_le (str : List Char) : (signOf str).2.length ≤ str.length := by
  cases str with
  | nil => exact Nat.le_refl _
  | cons char rest =>
      rw [signOf]
      split
      · exact Nat.le_succ _
      · split
        · exact Nat.le_succ _
        · exact Nat.le_refl _

theorem length_hexDigits_le {body digits : List Char} (isHex : hexDigits body = some digits) :
    digits.length ≤ body.length := by
  unfold hexDigits at isHex
  split at isHex
  · split at isHex
    · obtain rfl := Option.some.inj isHex
      simp
    · cases isHex
  · cases isHex

theorem length_baseOf_le (body : List Char) : (baseOf body).2.length ≤ body.length := by
  rw [baseOf]
  split
  next digits isHex => exact length_hexDigits_le isHex
  next => exact Nat.le_refl _

/-- A numeral has at least one digit. -/
theorem length_numeral_lt {str rest : List Char} {value : ℤ}
    (isNumeral : numeral str = some (value, rest)) : rest.length < str.length := by
  have signedLe := length_signOf_le (str.dropWhile isSpace)
  have dropLe : (str.dropWhile isSpace).length ≤ str.length := (List.dropWhile_suffix _).length_le
  rw [numeral] at isNumeral
  generalize signOf (str.dropWhile isSpace) = signed at isNumeral signedLe
  obtain ⟨sign, unsigned⟩ := signed
  have basedLe := length_baseOf_le unsigned
  dsimp only at isNumeral signedLe
  generalize baseOf unsigned = based at isNumeral basedLe
  obtain ⟨base, body⟩ := based
  dsimp only at isNumeral basedLe
  split at isNumeral
  next => cases isNumeral
  next hasDigits =>
    obtain ⟨-, rfl⟩ := Prod.mk.inj (Option.some.inj isNumeral)
    have positive := List.length_pos_iff.mpr hasDigits
    have atMost : (body.takeWhile (isDigitOf base)).length ≤ body.length :=
      (List.takeWhile_prefix _).length_le
    rw [List.length_drop]
    omega

end Whippet.Numerals
