import InlineMacro.Json.Fault
import InlineMacro.Text.Binary64
import InlineMacro.Text.Decimal

/-!
# Decoders

Steps through a JSON text, from its first character to the first fault. The text is the grammar of RFC
8259 and nothing beyond it: no comments, no trailing commas and no leading zeros. A decoder reads what
it wants at the place where it stands and stops behind it, so that the first fault in the text is the
one that is reported, be it of grammar or of what a value says.
-/

set_option autoImplicit false

namespace InlineMacro.Json

/-- The text that is left, where it stands, and a number that no loop through it exceeds. -/
structure Cursor where
  rest : List Char
  place : Place := {}
  budget : Nat
deriving Inhabited, Repr

def Cursor.ofText (text : String) : Cursor :=
  let characters := text.toList
  { rest := characters, budget := 2 * (characters.length + 1) }

abbrev Decoder (α : Type) : Type := EStateM Fault Cursor α

namespace Decoder

variable {α : Type}

/-! ## Characters -/

def peek : Decoder (Option Char) := do return (← get).rest.head?

/-- Goes behind the character that stands here. -/
def advance : Decoder Unit :=
  modify fun cursor =>
    match cursor.rest with
    | [] => cursor
    | character :: rest => { cursor with rest, place := cursor.place.behind character }

def budget : Decoder Nat := do return (← get).budget

def fail (flaw : Flaw) : Decoder α := do
  throw { flaw, place := (← get).place }

def failHere (flaw : Flaw) : Decoder α := do
  let cursor ← get
  throw { flaw, place := cursor.place.behindBytes cursor.rest 1 }

def failLater (flaw : Flaw) : Decoder α := throw { flaw }

/-- Gives a fault that has no place the one where reading has stopped. -/
def located (decoder : Decoder α) : Decoder α := fun cursor =>
  match decoder cursor with
  | .ok value cursor => .ok value cursor
  | .error fault cursor => .error (fault.placedAt cursor.place) cursor

def isBlank (character : Char) : Bool :=
  character == ' ' || character == '\n' || character == '\r' || character == '\t'

/-- Goes behind what stands here as long as its characters are of a kind, and returns them. -/
def takeWithin (accepts : Char → Bool) (taken : List Char) : Nat → Decoder (List Char)
  | 0 => pure taken.reverse
  | budget + 1 => do
    match ← peek with
    | none => pure taken.reverse
    | some character =>
      if accepts character then
        advance
        takeWithin accepts (character :: taken) budget
      else pure taken.reverse

def takeWhile (accepts : Char → Bool) : Decoder (List Char) := do
  takeWithin accepts [] (← budget)

def skipBlanks : Decoder (Option Char) := do
  let _ ← takeWhile isBlank
  peek

def startValue : Decoder Char := do
  match ← skipBlanks with
  | some character => pure character
  | none => failHere (.unfinished .value)

def word : List Char → Decoder Unit
  | [] => pure ()
  | letter :: letters => do
    match ← peek with
    | none => fail (.unfinished .value)
    | some character =>
      if character == letter then
        advance
        word letters
      else failHere (.lacking "ident")

def wordBehind (letters : String) : Decoder Unit := do
  advance
  word letters.toList

/-! ## Strings -/

/-- The value of a hexadecimal digit of either case. -/
def hexValue? (character : Char) : Option Nat :=
  if character.isDigit then some (character.toNat - '0'.toNat)
  else if 'a' ≤ character ∧ character ≤ 'f' then some (character.toNat - 'a'.toNat + 10)
  else if 'A' ≤ character ∧ character ≤ 'F' then some (character.toNat - 'A'.toNat + 10)
  else none

def hexNumber? (digits : List Char) : Option Nat :=
  digits.foldlM (fun value digit => (hexValue? digit).map (16 * value + ·)) 0

def byteCount (characters : List Char) : Nat :=
  characters.foldl (fun count character => count + character.utf8Size) 0

def advanceToEnd : Decoder Unit := do
  let _ ← takeWhile fun _ => true

/-- The number of an escape: the four bytes that stand here are hexadecimal digits. -/
def hexEscape : Decoder Nat := do
  let cursor ← get
  let digits := cursor.rest.take 4
  if byteCount digits < 4 then
    advanceToEnd
    fail (.unfinished .string)
  else
    match hexNumber? digits with
    | some code =>
      advance; advance; advance; advance
      pure code
    | none => throw ⟨.invalidEscape, some (cursor.place.behindBytes cursor.rest 4)⟩

def isHighHalf (code : Nat) : Bool := 0xD800 ≤ code && code ≤ 0xDBFF

def isLowHalf (code : Nat) : Bool := 0xDC00 ≤ code && code ≤ 0xDFFF

def joinHalves (high low : Nat) : Char :=
  Char.ofNat (0x10000 + (high - 0xD800) * 0x400 + (low - 0xDC00))

/-- Goes behind a character of an escape that continues a pair of halves. -/
def continuePair (wanted : Char) : Decoder Unit := do
  match ← peek with
  | none => fail (.unfinished .string)
  | some character => if character == wanted then advance else failHere .unpairedSurrogate

/-- The character of an escape that is given by its number, or by the numbers of its halves. -/
def numberedEscape : Decoder Char := do
  let code ← hexEscape
  if isLowHalf code then fail .loneSurrogate
  else if isHighHalf code then
    continuePair '\\'
    continuePair 'u'
    let low ← hexEscape
    if isLowHalf low then pure (joinHalves code low) else fail .loneSurrogate
  else pure (Char.ofNat code)

/-- The character of an escape that is a single letter. -/
def simpleEscape? : Char → Option Char
  | '"' => some '"'
  | '\\' => some '\\'
  | '/' => some '/'
  | 'b' => some (Char.ofNat 8)
  | 'f' => some (Char.ofNat 12)
  | 'n' => some '\n'
  | 'r' => some '\r'
  | 't' => some '\t'
  | _ => none

/-- The character of an escape behind its backslash. Its number is read by a reader of its own. -/
def escape (numbered : Decoder Char) : Decoder Char := do
  match ← peek with
  | none => fail (.unfinished .string)
  | some 'u' =>
    advance
    numbered
  | some letter =>
    match simpleEscape? letter with
    | some character =>
      advance
      pure character
    | none => failHere .invalidEscape

def stringWithin (numbered : Decoder Char) (control : Decoder Char) (read : List Char) :
    Nat → Decoder String
  | 0 => fail (.unfinished .string)
  | budget + 1 => do
    match ← peek with
    | none => fail (.unfinished .string)
    | some '"' =>
      advance
      pure (String.ofList read.reverse)
    | some '\\' =>
      advance
      let character ← escape numbered
      stringWithin numbered control (character :: read) budget
    | some character =>
      if character.toNat < 32 then
        let character ← control
        stringWithin numbered control (character :: read) budget
      else
        advance
        stringWithin numbered control (character :: read) budget

def stringBehind : Decoder String := do
  advance
  stringWithin numberedEscape (failHere .controlCharacter) [] (← budget)

/-- Goes behind a string that is of no use. Its escapes may stand for half of a character. -/
def skipStringBehind : Decoder Unit := do
  advance
  let numbered : Decoder Char := do return Char.ofNat (← hexEscape)
  let _ ← stringWithin numbered (fail .controlCharacter) [] (← budget)

/-! ## Numbers -/

/-- A number as it is spelled. -/
structure Numeral where
  isNegative : Bool := false
  integer : List Char
  fraction : Option (List Char) := none
  exponent : Option (List Char × List Char) := none
deriving Inhabited, Repr

def startsNumeral (character : Char) : Bool := character == '-' || character.isDigit

/-- At least one digit. The end of the text in place of it is a flaw that depends on the use. -/
def digits (atEnd : Flaw) : Decoder (List Char) := do
  match ← peek with
  | none => fail atEnd
  | some character =>
    if character.isDigit then takeWhile Char.isDigit else failHere .invalidNumber

/-- An integer part: no zero stands in front of another digit. -/
def integerPart (atEnd : Flaw) : Decoder (List Char) := do
  if (← peek) == some '0' then
    advance
    if (← peek).any Char.isDigit then failHere .invalidNumber
    pure ['0']
  else digits atEnd

def fractionPart (atEnd : Flaw) : Decoder (Option (List Char)) := do
  if (← peek) == some '.' then
    advance
    return some (← digits atEnd)
  else pure none

/-- An exponent, which may be missing: its mark with its sign, and its digits. -/
def exponentPart (atEnd : Flaw) : Decoder (Option (List Char × List Char)) := do
  match ← peek with
  | none => pure none
  | some mark =>
    if mark == 'e' || mark == 'E' then
      advance
      match ← peek with
      | none => fail atEnd
      | some sign =>
        if sign == '+' || sign == '-' then
          advance
          return some ([mark, sign], ← digits atEnd)
        else return some ([mark], ← digits atEnd)
    else pure none

def numeral (atEnd : Flaw) : Decoder Numeral := do
  let isNegative := (← peek) == some '-'
  if isNegative then advance
  let integer ← integerPart atEnd
  let fraction ← fractionPart atEnd
  let exponent ← exponentPart atEnd
  pure { isNegative, integer, fraction, exponent }

namespace Numeral

def spelling (numeral : Numeral) : String :=
  let sign := if numeral.isNegative then "-" else ""
  let fraction := match numeral.fraction with
    | some digits => "." ++ String.ofList digits
    | none => ""
  let exponent := match numeral.exponent with
    | some (mark, digits) => String.ofList mark ++ String.ofList digits
    | none => ""
  sign ++ String.ofList numeral.integer ++ fraction ++ exponent

/-- The integer that is spelled without fraction and exponent, if it has 64 bits with its sign. Minus
zero is no integer. -/
def integer? (numeral : Numeral) : Option Int :=
  let value := Text.digitsValue 0 numeral.integer
  if numeral.fraction.isSome || numeral.exponent.isSome then none
  else if numeral.isNegative then if 0 < value ∧ value ≤ Nat.pow 2 63 then some (-value) else none
  else if value < Nat.pow 2 64 then some value
  else none

def significandBound : Nat := 18446744073709551616

def extended? (significand : Nat) (digit : Char) : Option Nat :=
  let value := 10 * significand + Text.digitValue digit
  if value < significandBound then some value else none

/-- The significand that digits of an integer make, and the number of digits from the first one on that
has no room. -/
def integerDigits (significand : Nat) : List Char → Nat × Nat
  | [] => (significand, 0)
  | digit :: digits =>
    match extended? significand digit with
    | some significand => integerDigits significand digits
    | none => (significand, digits.length + 1)

/-- The significand with digits of a fraction, and the number of digits that are taken. Those from the first
one on that has no room say nothing. -/
def fractionDigits (significand : Nat) : List Char → Nat × Nat
  | [] => (significand, 0)
  | digit :: digits =>
    match extended? significand digit with
    | some significand =>
      let (significand, count) := fractionDigits significand digits
      (significand, count + 1)
    | none => (significand, 0)

/-- The significand of a number, and the power of ten that it is to be multiplied by, without what the
exponent says. -/
def significand (numeral : Numeral) : Nat × Int :=
  let (integer, dropped) := integerDigits 0 numeral.integer
  let (significand, taken) := fractionDigits integer (numeral.fraction.getD [])
  (significand, (dropped : Int) - taken)

def hasNegativeExponent (numeral : Numeral) : Bool :=
  numeral.exponent.any fun (mark, _) => mark.contains '-'

def exponentValue (numeral : Numeral) : Int :=
  let value : Int := Text.digitsValue 0 ((numeral.exponent.map Prod.snd).getD [])
  if numeral.hasNegativeExponent then -value else value

/-- The number in 64 bits that is spelled, without its sign; none if it is too great. -/
def magnitude? (numeral : Numeral) : Option Text.Binary64 :=
  let (significand, exponent) := numeral.significand
  (Text.Binary64.ofScaled? significand 1 0).bind fun number =>
    number.shifted? (exponent + numeral.exponentValue)

def exponentBound : Nat := 2147483648

/-- How many digits stand behind the one with which a number gets out of a bound. -/
def digitsBehindBound (bound value : Nat) : List Char → Nat
  | [] => 0
  | digit :: digits =>
    let value := 10 * value + Text.digitValue digit
    if value < bound then digitsBehindBound bound value digits else digits.length

/-- How many digits of a number that is too great are not looked at: an exponent that is itself too great is
found out before its end. -/
def unreadDigits (numeral : Numeral) : Nat :=
  if numeral.hasNegativeExponent then 0
  else digitsBehindBound exponentBound 0 ((numeral.exponent.map Prod.snd).getD [])

end Numeral

/-- A number as what was found: an integer, or else one in 64 bits. -/
def foundNumber : Decoder Kind := do
  let numeral ← numeral (.unfinished .value)
  match numeral.integer?, numeral.magnitude? with
  | some value, _ => pure (.integer value)
  | none, some magnitude =>
    pure (.fractional ((if numeral.isNegative then "-" else "") ++ magnitude.text))
  | none, none =>
    let place := (← get).place
    throw ⟨.numberOutOfRange, some ⟨place.line, place.column - numeral.unreadDigits⟩⟩

/-! ## Values of a wrong kind -/

/-- What stands in the place of a value of another kind. Of arrays and objects nothing is read. -/
def foundKind : Decoder Kind := do
  match ← peek with
  | some 'n' => do wordBehind "ull"; pure .null
  | some 't' => do wordBehind "rue"; pure (.boolean true)
  | some 'f' => do wordBehind "alse"; pure (.boolean false)
  | some '"' => do return .string (← stringBehind)
  | some '[' => pure .array
  | some '\x7b' => pure .object
  | some character =>
    if startsNumeral character then foundNumber else failHere (.lacking "value")
  | none => failHere (.lacking "value")

def wrongKind (wanted : String) : Decoder α := do
  failLater (.wrongKind (← foundKind) wanted)

/-! ## Arrays and objects -/

/-- Whether an array goes on with an item, to which it goes. -/
def nextItem (isFirst : Bool) : Decoder Bool := do
  match ← skipBlanks with
  | none => failHere (.unfinished .array)
  | some ']' => pure false
  | some character =>
    if isFirst then pure true
    else if character == ',' then
      advance
      match ← skipBlanks with
      | none => failHere (.unfinished .value)
      | some ']' => failHere .trailingComma
      | some _ => pure true
    else failHere (.lacking "`,` or `]`")

/-- Whether an object goes on with a member, to whose name it goes. -/
def nextMember (isFirst : Bool) : Decoder Bool := do
  match ← skipBlanks with
  | none => failHere (.unfinished .object)
  | some '\x7d' => pure false
  | some character =>
    if isFirst then
      if character == '"' then pure true else failHere .nameIsNoString
    else if character == ',' then
      advance
      match ← skipBlanks with
      | none => failHere (.unfinished .value)
      | some '"' => pure true
      | some '\x7d' => failHere .trailingComma
      | some _ => failHere .nameIsNoString
    else failHere (.lacking "`,` or `\x7d`")

/-- Goes behind the colon between a name and its value. -/
def colon : Decoder Unit := do
  match ← skipBlanks with
  | none => failHere (.unfinished .object)
  | some ':' => advance
  | some _ => failHere (.lacking "`:`")

def endArray : Decoder Unit := do
  match ← skipBlanks with
  | none => failHere (.unfinished .array)
  | some ']' => advance
  | some ',' =>
    advance
    if (← skipBlanks) == some ']' then failHere .trailingComma else failHere .trailingCharacters
  | some _ => failHere .trailingCharacters

def endObject : Decoder Unit := do
  match ← skipBlanks with
  | none => failHere (.unfinished .object)
  | some '\x7d' => advance
  | some ',' => failHere .trailingComma
  | some _ => failHere .trailingCharacters

/-- Reads what stands behind an opening bracket, and then the end of it. The end is looked for after a
fault as well, which then has its place there. -/
def enclosed (closing : Decoder Unit) (content : Decoder α) : Decoder α := fun cursor =>
  match (do advance; content) cursor with
  | .ok value cursor =>
    match closing cursor with
    | .ok () cursor => .ok value cursor
    | .error fault cursor => .error fault cursor
  | .error fault cursor =>
    match closing cursor with
    | .ok () cursor => .error fault cursor
    | .error _ cursor => .error fault cursor

def itemsWithin (item : Decoder α) (read : List α) : Nat → Decoder (List α)
  | 0 => fail (.unfinished .array)
  | budget + 1 => do
    if ← nextItem read.isEmpty then
      let value ← item
      itemsWithin item (value :: read) budget
    else pure read.reverse

/-! ## Values that are of no use -/

mutual

def skipValueWithin : Nat → Decoder Unit
  | 0 => fail (.unfinished .value)
  | budget + 1 => do
    match ← startValue with
    | 'n' => wordBehind "ull"
    | 't' => wordBehind "rue"
    | 'f' => wordBehind "alse"
    | '"' => skipStringBehind
    | '[' =>
      advance
      if (← skipBlanks) == some ']' then advance else skipItemsWithin budget
    | '\x7b' =>
      advance
      if (← skipBlanks) == some '\x7d' then advance else skipMembersWithin budget
    | character =>
      if startsNumeral character then
        let _ ← numeral .invalidNumber
      else failHere (.lacking "value")
termination_by structural budget => budget

/-- Goes behind items and the end of their array. -/
def skipItemsWithin : Nat → Decoder Unit
  | 0 => fail (.unfinished .array)
  | budget + 1 => do
    if (← peek).isNone then failHere (.unfinished .array)
    skipValueWithin budget
    skipFurtherItemsWithin budget
termination_by structural budget => budget

def skipFurtherItemsWithin : Nat → Decoder Unit
  | 0 => fail (.unfinished .array)
  | budget + 1 => do
    match ← skipBlanks with
    | none => failHere (.unfinished .array)
    | some ']' => advance
    | some ',' =>
      advance
      skipValueWithin budget
      skipFurtherItemsWithin budget
    | some _ => failHere (.lacking "`,` or `]`")
termination_by structural budget => budget

def skipMembersWithin : Nat → Decoder Unit
  | 0 => fail (.unfinished .object)
  | budget + 1 => do
    match ← skipBlanks with
    | none => failHere (.unfinished .object)
    | some '"' => skipStringBehind
    | some _ => failHere .nameIsNoString
    colon
    skipValueWithin budget
    match ← skipBlanks with
    | none => failHere (.unfinished .object)
    | some '\x7d' => advance
    | some ',' =>
      advance
      skipMembersWithin budget
    | some _ => failHere (.lacking "`,` or `\x7d`")
termination_by structural budget => budget

end

def skipValue : Decoder Unit := do skipValueWithin (← budget)

/-! ## Whole texts -/

/-- Reads a text that consists of what a decoder reads, blanks around it apart. -/
def decode (decoder : Decoder α) (text : String) : Except Fault α :=
  let whole : Decoder α := do
    let value ← decoder
    if (← skipBlanks).isSome then failHere .trailingCharacters
    pure value
  match whole (Cursor.ofText text) with
  | .ok value _ => .ok value
  | .error fault _ => .error fault

end Decoder

end InlineMacro.Json
