import InlineMacro.Text.Lines

/-!
# Numbers in 64 bits

Decimal numbers as they are kept in 64 bits: as a significand of at most 53 binary digits and a power
of two. Whatever is calculated is rounded to a number that can be kept. A kept number is written with the
fewest decimal digits that are kept as the same number.
-/

set_option autoImplicit false

namespace InlineMacro.Text

/-- The number `significand * 2 ^ exponent`. -/
structure Binary64 where
  significand : Nat
  exponent : Int
deriving DecidableEq, Inhabited, Repr

/-- A quotient as a whole number; what lies in the middle between two goes to the even one. -/
def roundedQuotient (numerator denominator : Nat) : Nat :=
  let quotient := numerator / denominator
  let doubledRest := 2 * (numerator % denominator)
  if doubledRest < denominator || (doubledRest == denominator && quotient % 2 == 0) then quotient
  else quotient + 1

def fractionOf (number base : Nat) (exponent : Int) : Nat × Nat :=
  if 0 ≤ exponent then (number * base.pow exponent.toNat, 1)
  else (number, base.pow (-exponent).toNat)

namespace Binary64

def leastExponent : Int := -1074

def greatestExponent : Int := 971

def precision : Nat := 53

def scaledDown (numerator denominator : Nat) (exponent : Int) : Nat × Nat :=
  if 0 ≤ exponent then (numerator, denominator * Nat.pow 2 exponent.toNat)
  else (numerator * Nat.pow 2 (-exponent).toNat, denominator)

/-- The number that a fraction above zero is kept as; none if it is too great. The first estimate of
the exponent leaves one digit too many or none. -/
def ofFraction? (numerator denominator : Nat) : Option Binary64 :=
  let estimate : Int := numerator.log2 - denominator.log2 - precision
  let (scaled, scale) := scaledDown numerator denominator estimate
  let exact := if scaled / scale < Nat.pow 2 precision then estimate else estimate + 1
  let exponent := max exact leastExponent
  let (scaled, scale) := scaledDown numerator denominator exponent
  let significand := roundedQuotient scaled scale
  let kept : Binary64 :=
    if significand < Nat.pow 2 precision then ⟨significand, exponent⟩
    else ⟨significand / 2, exponent + 1⟩
  if kept.exponent ≤ greatestExponent then some kept else none

def decimalRange : Int := 400

/-- The number that `digits * 10 ^ exponent` is kept as; none if it is too great. -/
def ofDecimal? (digits : Nat) (exponent : Int) : Option Binary64 :=
  let place : Int := (toString digits).length + exponent
  if digits = 0 ∨ place < -decimalRange then some ⟨0, 0⟩
  else if decimalRange < place then none
  else
    let (numerator, denominator) := fractionOf digits 10 exponent
    ofFraction? numerator denominator

/-! ## Calculating -/

def isZero (number : Binary64) : Bool := number.significand == 0

def zero : Binary64 := ⟨0, 0⟩

def ofScaled? (numerator denominator : Nat) (exponent : Int) : Option Binary64 :=
  let (scaled, scale) := fractionOf numerator 2 exponent
  if numerator = 0 then some zero else ofFraction? scaled (denominator * scale)

def times? (first second : Binary64) : Option Binary64 :=
  ofScaled? (first.significand * second.significand) 1 (first.exponent + second.exponent)

def over? (first second : Binary64) : Option Binary64 :=
  ofScaled? first.significand second.significand (first.exponent - second.exponent)

def greatestDecimalExponent : Nat := 308

def powerOfTen (exponent : Nat) : Binary64 := (ofDecimal? 1 exponent).getD zero

/-- A number divided by a power of ten. If no such power is kept, the number is divided by the greatest one
until it is zero or what is left of the power is kept. -/
def shiftedDown (number : Binary64) (exponent : Nat) : Option Binary64 :=
  if exponent ≤ greatestDecimalExponent then number.over? (powerOfTen exponent)
  else if number.isZero then some number
  else
    (number.over? (powerOfTen greatestDecimalExponent)).bind fun quotient =>
      quotient.shiftedDown (exponent - greatestDecimalExponent)
termination_by exponent
decreasing_by simp only [greatestDecimalExponent] at *; omega

/-- A number times a power of ten, each of them kept before they are multiplied; none if the product is
too great. -/
def shifted? (number : Binary64) (exponent : Int) : Option Binary64 :=
  if exponent < 0 then number.shiftedDown (-exponent).toNat
  else if exponent ≤ greatestDecimalExponent then number.times? (powerOfTen exponent.toNat)
  else if number.isZero then some number
  else none

/-! ## Writing -/

/-- The least power of ten that takes a fraction below one to at least one, up to a bound. -/
def leadingZeros (numerator denominator : Nat) : Nat → Nat
  | 0 => 0
  | bound + 1 =>
    if denominator ≤ numerator then 0
    else leadingZeros (10 * numerator) denominator bound + 1

def decimalPlace (numerator denominator : Nat) : Int :=
  if denominator ≤ numerator then (toString (numerator / denominator)).length
  else 1 - (leadingZeros numerator denominator decimalRange.toNat : Int)

/-- A decimal number with a given unit that is kept as the number, the nearer of the two next to it
first. -/
def writtenWith? (number : Binary64) (unit : Int) : Option (Nat × Int) :=
  let (numerator, denominator) := fractionOf number.significand 2 number.exponent
  let (scaled, scale) :=
    if 0 ≤ unit then (numerator, denominator * Nat.pow 10 unit.toNat)
    else (numerator * Nat.pow 10 (-unit).toNat, denominator)
  let nearer := roundedQuotient scaled scale
  let lower := scaled / scale
  let other := if nearer = lower then lower + 1 else lower
  ([nearer, other].find? fun digits => ofDecimal? digits unit == some number).map fun digits =>
    (digits, unit)

/-- The shortest decimal number that is kept as the number: its digits and its exponent. Seventeen
digits are always enough. -/
def shortest (number : Binary64) : Nat × Int :=
  let (numerator, denominator) := fractionOf number.significand 2 number.exponent
  let place := decimalPlace numerator denominator
  ((List.range 17).findSome? fun count =>
    number.writtenWith? (place - (count + 1 : Nat))).getD (0, 0)

def withoutZeros : List Char → Int → List Char × Int
  | '0' :: reversed, exponent => withoutZeros reversed (exponent + 1)
  | reversed, exponent => (reversed.reverse, exponent)

/-- A number in digits with a point, or with an exponent if it is very great or very small. -/
def layout (digits : List Char) (exponent : Int) : String :=
  let place := digits.length + exponent
  let text := String.ofList digits
  if 0 ≤ exponent && place ≤ 16 then text ++ repeated "0" exponent.toNat ++ ".0"
  else if 0 < place && place ≤ 16 then
    String.ofList (digits.take place.toNat) ++ "." ++ String.ofList (digits.drop place.toNat)
  else if -5 < place && place ≤ 0 then "0." ++ repeated "0" (-place).toNat ++ text
  else
    let fraction := if digits.length = 1 then "" else "." ++ String.ofList (digits.drop 1)
    let sign := if 0 < place then "+" else ""
    String.ofList (digits.take 1) ++ fraction ++ "e" ++ sign ++ toString (place - 1)

def text (number : Binary64) : String :=
  if number.isZero then "0.0"
  else
    let (digits, exponent) := number.shortest
    let (digits, exponent) := withoutZeros (toString digits).toList.reverse exponent
    layout digits exponent

end Binary64

end InlineMacro.Text
