/-!
# Decimal numerals

Reading a run of ASCII digits as a number.
-/

set_option autoImplicit false

namespace InlineMacro.Text

def digitValue (digit : Char) : Nat := digit.toNat - '0'.toNat

def digitsValue (leading : Nat) (digits : List Char) : Nat :=
  digits.foldl (fun value digit => 10 * value + digitValue digit) leading

/-- The number that a text consisting of digits alone stands for. -/
def decimal? (characters : List Char) : Option Nat :=
  if characters.isEmpty then none
  else if characters.all Char.isDigit then some (digitsValue 0 characters)
  else none

/-- A number below `bound`; a plus sign may stand in front. -/
def boundedDecimal? (bound : Nat) (characters : List Char) : Option Nat :=
  let digits := match characters with
    | '+' :: rest => rest
    | _ => characters
  (decimal? digits).filter (· < bound)

/-- A number below `bound` that is written like one with a sign, so that zero may be negative. -/
def signedDecimal? (bound : Nat) (characters : List Char) : Option Nat :=
  match characters with
  | '-' :: digits => (decimal? digits).filter (· = 0)
  | _ => boundedDecimal? bound characters

def lineBound : Nat := 4294967296

end InlineMacro.Text
