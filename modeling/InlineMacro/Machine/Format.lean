import InlineMacro.Machine.Numeral

/-!
# Formatted output

What the shell's `echo` and `printf` write. Both know escapes that begin with a backslash, of which
one ends the output; `printf` fills the conversions of its format with its arguments, and goes
through the format again as long as arguments are left.
-/

set_option autoImplicit false

namespace InlineMacro.Machine.Format

/-! ## Escapes -/

def isOctal (character : Char) : Bool := '0' ≤ character && character ≤ '7'

def octalByte (digits : List Char) : UInt8 :=
  UInt8.ofNat (digits.foldl (fun value digit => 8 * value + Text.digitValue digit) 0 % 256)

def byte (value : UInt8) : ByteArray := ByteArray.empty.push value

/-- The character that a letter behind a backslash stands for. -/
def escaped? : Char → Option Char
  | 'n' => some '\n'
  | 't' => some '\t'
  | 'r' => some '\r'
  | 'a' => some '\x07'
  | 'b' => some '\x08'
  | 'e' => some '\x1b'
  | 'f' => some '\x0c'
  | 'v' => some '\x0b'
  | '\\' => some '\\'
  | _ => none

/-- The bytes of the escape behind a backslash, and the text behind it. An octal number has up to
three digits. A backslash without an escape stands for itself. -/
def escape (characters : List Char) : ByteArray × List Char :=
  match characters with
  | [] => ("\\".toUTF8, [])
  | letter :: rest =>
    if isOctal letter then
      let digits := (characters.take 3).takeWhile isOctal
      (byte (octalByte digits), characters.drop digits.length)
    else
      match escaped? letter with
      | some character => (character.toString.toUTF8, rest)
      | none => ("\\".toUTF8, characters)

/-- The bytes of a text with escapes, and whether one of them ends the output. An octal number that
begins with a zero has up to three digits behind it. -/
def unescape : Nat → List Char → ByteArray × Bool
  | 0, _ => (ByteArray.empty, false)
  | _, [] => (ByteArray.empty, false)
  | _, '\\' :: 'c' :: _ => (ByteArray.empty, true)
  | budget + 1, '\\' :: '0' :: rest =>
    let digits := (rest.take 3).takeWhile isOctal
    let (bytes, isEnded) := unescape budget (rest.drop digits.length)
    (byte (octalByte digits) ++ bytes, isEnded)
  | budget + 1, '\\' :: rest =>
    let (first, rest) := escape rest
    let (bytes, isEnded) := unescape budget rest
    (first ++ bytes, isEnded)
  | budget + 1, character :: rest =>
    let (bytes, isEnded) := unescape budget rest
    (character.toString.toUTF8 ++ bytes, isEnded)

def unescaped (text : String) : ByteArray × Bool :=
  unescape (text.length + 1) text.toList

def echo (arguments : List String) : ByteArray :=
  let (texts, ending) := match arguments with
    | "-n" :: texts => (texts, "")
    | texts => (texts, "\n")
  let (bytes, isEnded) := unescaped (Text.join " " texts)
  if isEnded then bytes else bytes ++ ending.toUTF8

/-! ## Conversions -/

/-- A conversion of a format: its flags, the least width, the precision and the kind. -/
structure Conversion where
  flags : List Char
  width : Nat
  precision : Option Nat
  kind : Char
deriving Inhabited, Repr

namespace Conversion

def has (conversion : Conversion) (flag : Char) : Bool := conversion.flags.contains flag

def padded (conversion : Conversion) (bytes : ByteArray) : ByteArray :=
  let blanks := (Text.repeated " " (conversion.width - bytes.size)).toUTF8
  if conversion.has '-' then bytes ++ blanks else blanks ++ bytes

def text (conversion : Conversion) (bytes : ByteArray) : ByteArray :=
  conversion.padded (bytes.extract 0 (conversion.precision.getD bytes.size))

def positiveMark (conversion : Conversion) : String :=
  if conversion.has '+' then "+" else if conversion.has ' ' then " " else ""

def digits (conversion : Conversion) (value : Nat) : String :=
  match conversion.kind with
  | 'o' => String.ofList (Nat.toDigits 8 value)
  | 'x' => String.ofList (Nat.toDigits 16 value)
  | 'X' => String.ofList ((Nat.toDigits 16 value).map Char.toUpper)
  | _ => toString value

/-- The mark that says in which base a number is written. -/
def baseMark (conversion : Conversion) (value : Nat) : String :=
  if !conversion.has '#' || value = 0 then ""
  else
    match conversion.kind with
    | 'o' => "0"
    | 'x' => "0x"
    | 'X' => "0X"
    | _ => ""

/-- A number. Zeros bring it to the least width if they are asked for and there is no precision. -/
def number (conversion : Conversion) (value : Int) : ByteArray :=
  let isSigned := conversion.kind = 'd' || conversion.kind = 'i'
  let magnitude := if isSigned then value.natAbs else (value % Nat.pow 2 64).toNat
  let mark :=
    if isSigned then if value < 0 then "-" else conversion.positiveMark
    else conversion.baseMark magnitude
  let digits := if conversion.precision = some 0 && magnitude = 0 then ""
    else conversion.digits magnitude
  let least :=
    match conversion.precision with
    | some precision => precision
    | none =>
      if conversion.has '0' && !conversion.has '-' then conversion.width - mark.length else 0
  let zeros := Text.repeated "0" (least - digits.length)
  conversion.padded (mark ++ zeros ++ digits).toUTF8

end Conversion

/-! ## Numbers -/

/-- The number that an argument stands for, and what is to be said if it is none. A quote makes a
number of the character behind it. -/
def argumentNumber (argument : String) : Int × Option String :=
  match argument.toList with
  | [] => (0, none)
  | '\'' :: rest | '"' :: rest =>
    (((String.ofList rest).toUTF8.data[0]?.map UInt8.toNat).getD 0, none)
  | characters =>
    match Numeral.signed? characters with
    | none => (0, some (argument ++ ": expected numeric value"))
    | some (value, []) => (value, none)
    | some (value, _) => (value, some (argument ++ ": not completely converted"))

/-! ## Formats -/

/-- What `printf` has written so far, the arguments that are left, what there is to complain about,
the status that follows from it, and whether the output has ended. -/
structure Progress where
  bytes : ByteArray := ByteArray.empty
  arguments : List String
  complaints : List String := []
  status : Nat := 0
  isEnded : Bool := false
deriving Inhabited

namespace Progress

def write (progress : Progress) (bytes : ByteArray) : Progress :=
  { progress with bytes := progress.bytes ++ bytes }

def next (progress : Progress) : String × Progress :=
  (progress.arguments.head?.getD "", { progress with arguments := progress.arguments.tail })

def warn (progress : Progress) (complaint : String) : Progress :=
  { progress with complaints := progress.complaints ++ [complaint], status := 1 }

def fail (progress : Progress) (complaint : String) : Progress :=
  { progress with complaints := progress.complaints ++ [complaint], status := 2, isEnded := true }

def nextNumber (progress : Progress) : Int × Progress :=
  let (argument, progress) := progress.next
  match argumentNumber argument with
  | (value, none) => (value, progress)
  | (value, some complaint) => (value, progress.warn complaint)

/-- Writes what a conversion makes of the next argument; none if there is no such conversion. -/
def convert? (conversion : Conversion) (progress : Progress) : Option Progress :=
  match conversion.kind with
  | 's' =>
    let (argument, progress) := progress.next
    some (progress.write (conversion.text argument.toUTF8))
  | 'b' =>
    let (argument, progress) := progress.next
    let (bytes, isEnded) := unescaped argument
    some { progress.write (conversion.text bytes) with isEnded := isEnded }
  | 'c' =>
    let (argument, progress) := progress.next
    let first := argument.toUTF8.extract 0 1
    some (progress.write (conversion.padded (if first.isEmpty then byte 0 else first)))
  | kind =>
    if ['d', 'i', 'o', 'u', 'x', 'X'].contains kind then
      let (value, progress) := progress.nextNumber
      some (progress.write (conversion.number value))
    else none

end Progress

/-- A width or precision at the start of a format, which may stand in the next argument. -/
def size (format : List Char) (progress : Progress) : Nat × List Char × Progress :=
  match format with
  | '*' :: rest =>
    let (value, progress) := progress.nextNumber
    (value.toNat, rest, progress)
  | _ =>
    let digits := format.takeWhile Char.isDigit
    (Text.digitsValue 0 digits, format.drop digits.length, progress)

def pass : Nat → List Char → Progress → Progress
  | 0, _, progress => progress
  | _, [], progress => progress
  | budget + 1, '%' :: '%' :: rest, progress => pass budget rest (progress.write "%".toUTF8)
  | budget + 1, '%' :: start, progress =>
    let flags := start.takeWhile fun character => ['#', '-', '+', ' ', '0'].contains character
    let (width, rest, progress) := size (start.drop flags.length) progress
    let (precision, rest, progress) : Option Nat × List Char × Progress := match rest with
      | '.' :: rest =>
        let (precision, rest, progress) := size rest progress
        (some precision, rest, progress)
      | _ => (none, rest, progress)
    match rest with
    | [] => progress.fail "missing format character"
    | kind :: rest =>
      match progress.convert? ⟨flags, width, precision, kind⟩ with
      | some progress => if progress.isEnded then progress else pass budget rest progress
      | none =>
        let directive := start.take (start.length - rest.length)
        progress.fail ("%" ++ String.ofList directive ++ ": invalid directive")
  | budget + 1, '\\' :: rest, progress =>
    let (bytes, rest) := escape rest
    pass budget rest (progress.write bytes)
  | budget + 1, character :: rest, progress =>
    pass budget rest (progress.write character.toString.toUTF8)

/-- Passes over a format until no argument is left, or none is taken. -/
def passes (format : List Char) : Nat → Progress → Progress
  | 0, progress => progress
  | budget + 1, progress =>
    let after := pass (format.length + 1) format progress
    if after.isEnded || after.arguments.isEmpty || after.arguments.length = progress.arguments.length
    then after
    else passes format budget after

def printf (format : String) (arguments : List String) : Progress :=
  passes format.toList (arguments.length + 1) { arguments := arguments }

end InlineMacro.Machine.Format
