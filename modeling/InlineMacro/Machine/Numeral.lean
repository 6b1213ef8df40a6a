import InlineMacro.Text.Decimal
import InlineMacro.Text.Lines

/-!
# Numerals of scripts

The numbers that scripts hold as text: decimal ones, those in base eight behind a zero, and those in
base sixteen behind `0x`.
-/

set_option autoImplicit false

namespace InlineMacro.Machine.Numeral

def digitValue? (base : Nat) (character : Char) : Option Nat :=
  let value :=
    if character.isDigit then some (character.toNat - 48)
    else if 'a' ≤ character ∧ character ≤ 'f' then some (character.toNat - 87)
    else if 'A' ≤ character ∧ character ≤ 'F' then some (character.toNat - 55)
    else none
  value.filter (· < base)

/-- The value of the digits at the start, and what stands behind them; none without a digit. -/
def leading? (base : Nat) (characters : List Char) : Option (Nat × List Char) :=
  let digits := characters.takeWhile fun character => (digitValue? base character).isSome
  if digits.isEmpty then none
  else
    some (digits.foldl (fun value digit => base * value + (digitValue? base digit).getD 0) 0,
      characters.drop digits.length)

/-- The number without sign at the start, and what stands behind it. -/
def unsigned? (characters : List Char) : Option (Nat × List Char) :=
  match characters with
  | '0' :: mark :: rest =>
    if mark = 'x' || mark = 'X' then (leading? 16 rest).or (some (0, mark :: rest))
    else leading? 8 characters
  | _ => leading? 10 characters

/-- The number at the start, behind blanks and a sign, and what stands behind it. -/
def signed? (characters : List Char) : Option (Int × List Char) :=
  let (sign, characters) : Int × List Char := match Text.trimStart characters with
    | '-' :: rest => (-1, rest)
    | '+' :: rest => (1, rest)
    | rest => (1, rest)
  (unsigned? characters).map fun (value, rest) => (sign * value, rest)

/-- A decimal number with a sign, between blanks. -/
def decimal? (text : String) : Option Int :=
  match Text.trim text.toList with
  | '-' :: digits => (Text.decimal? digits).map fun value => -(value : Int)
  | '+' :: digits => (Text.decimal? digits).map fun value => (value : Int)
  | digits => (Text.decimal? digits).map fun value => (value : Int)

def wrapped (value : Int) : Int := Int.bmod value (Nat.pow 2 64)

end InlineMacro.Machine.Numeral
