import InlineMacro.Text.Lines
import InlineMacro.Text.Quoted

/-!
# Faults of JSON texts

What can be wrong with a JSON text that is read into known settings, where it is, and the one wording
of each fault. A fault is either in the text itself or in what a value says.
-/

set_option autoImplicit false

namespace InlineMacro.Json

/-- What can be left unfinished by the end of the text. -/
inductive Construct where
  | array
  | object
  | string
  | value
deriving DecidableEq, Inhabited, Repr

def Construct.text : Construct → String
  | array => "a list"
  | object => "an object"
  | string => "a string"
  | value => "a value"

/-- What was found in the place of a value of another kind. -/
inductive Kind where
  | null
  | boolean (value : Bool)
  | integer (value : Int)
  | fractional (writing : String)
  | string (content : String)
  | array
  | object
deriving DecidableEq, Inhabited, Repr

def Kind.text : Kind → String
  | null => "null"
  | boolean true => "boolean `true`"
  | boolean false => "boolean `false`"
  | integer value => "integer `" ++ toString value ++ "`"
  | fractional writing => "floating point `" ++ writing ++ "`"
  | string content => "string " ++ Text.shown content
  | array => "sequence"
  | object => "map"

/-- What is wrong. -/
inductive Flaw where
  | unfinished (construct : Construct)
  | lacking (wanted : String)
  | invalidEscape
  | invalidNumber
  | numberOutOfRange
  | controlCharacter
  | nameIsNoString
  | loneSurrogate
  | unpairedSurrogate
  | trailingComma
  | trailingCharacters
  | wrongKind (found : Kind) (wanted : String)
  | wrongValue (found : Kind) (wanted : String)
  | tooFewItems (count : Nat) (wanted : String)
  | missing (name : String)
  | repeated (name : String)
deriving DecidableEq, Inhabited, Repr

def Flaw.message : Flaw → String
  | unfinished construct => "EOF while parsing " ++ construct.text
  | lacking wanted => "expected " ++ wanted
  | invalidEscape => "invalid escape"
  | invalidNumber => "invalid number"
  | numberOutOfRange => "number out of range"
  | controlCharacter => "control character (\\u0000-\\u001F) found while parsing a string"
  | nameIsNoString => "key must be a string"
  | loneSurrogate => "lone leading surrogate in hex escape"
  | unpairedSurrogate => "unexpected end of hex escape"
  | trailingComma => "trailing comma"
  | trailingCharacters => "trailing characters"
  | wrongKind found wanted => "invalid type: " ++ found.text ++ ", expected " ++ wanted
  | wrongValue found wanted => "invalid value: " ++ found.text ++ ", expected " ++ wanted
  | tooFewItems count wanted => "invalid length " ++ toString count ++ ", expected " ++ wanted
  | missing name => "missing field `" ++ name ++ "`"
  | repeated name => "duplicate field `" ++ name ++ "`"

/-- A place in a text: its line, counted from one, and the bytes of the line in front of it. -/
structure Place where
  line : Nat := 1
  column : Nat := 0
deriving DecidableEq, Inhabited, Repr

namespace Place

def behind (place : Place) (character : Char) : Place :=
  if character == '\n' then ⟨place.line + 1, 0⟩
  else ⟨place.line, place.column + character.utf8Size⟩

def behindBytes (place : Place) : List Char → Nat → Place
  | [], _ => place
  | character :: rest, count =>
    if character.utf8Size ≤ count then
      (place.behind character).behindBytes rest (count - character.utf8Size)
    else ⟨place.line, place.column + count⟩

end Place

/-- A flaw at its place. A flaw of what a value says gets its place when the value ends. -/
structure Fault where
  flaw : Flaw
  place : Option Place := none
deriving DecidableEq, Inhabited, Repr

namespace Fault

def placedAt (place : Place) (fault : Fault) : Fault :=
  { fault with place := some (fault.place.getD place) }

def message (fault : Fault) : String :=
  match fault.place with
  | none => fault.flaw.message
  | some place =>
    fault.flaw.message ++ " at line " ++ toString place.line ++ " column " ++ toString place.column

end Fault

end InlineMacro.Json
