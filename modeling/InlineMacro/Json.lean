import InlineMacro.Text.Lines

/-!
# JSON values

JSON as the program reads it from configuration files and writes it into its records. A number
keeps its spelling and an object the order of its members, so nothing is lost on the way.
-/

set_option autoImplicit false

namespace InlineMacro

/-- A JSON value. -/
inductive Json where
  | null
  | bool (value : Bool)
  | number (spelling : String)
  | string (text : String)
  | array (items : List Json)
  | object (members : List (String × Json))
deriving Inhabited

namespace Json

def ofNat (number : Nat) : Json := .number (toString number)

def ofOption (value : Option Json) : Json := value.getD .null

/-! ## Reading parts -/

def member? (name : String) : Json → Option Json
  | object members => members.lookup name
  | _ => none

def string? : Json → Option String
  | string text => some text
  | _ => none

def bool? : Json → Option Bool
  | bool value => some value
  | _ => none

def nat? : Json → Option Nat
  | number spelling =>
    if spelling.toList.all Char.isDigit then spelling.toNat? else none
  | _ => none

def array? : Json → Option (List Json)
  | array items => some items
  | _ => none

/-! ## Order of members -/

mutual

/-- The value with the members of every object in the order of their names. Two values that are equal
then differ at most in the order of members. -/
def sortedMembers : Json → Json
  | array items => array (sortedItems items)
  | object members =>
    object ((sortedEntries members).mergeSort fun first second => first.1 ≤ second.1)
  | value => value

def sortedItems : List Json → List Json
  | [] => []
  | item :: items => item.sortedMembers :: sortedItems items

def sortedEntries : List (String × Json) → List (String × Json)
  | [] => []
  | (name, value) :: members => (name, value.sortedMembers) :: sortedEntries members

end

/-! ## Writing -/

def hexDigit (value : Nat) : Char :=
  if value < 10 then Char.ofNat ('0'.toNat + value) else Char.ofNat ('a'.toNat + value - 10)

/-- A character in a string. Only quotes, backslashes and control characters are escaped. -/
def escaped (character : Char) : List Char :=
  if character == '"' then ['\\', '"']
  else if character == '\\' then ['\\', '\\']
  else if character == '\n' then ['\\', 'n']
  else if character == '\r' then ['\\', 'r']
  else if character == '\t' then ['\\', 't']
  else if character.toNat == 8 then ['\\', 'b']
  else if character.toNat == 12 then ['\\', 'f']
  else if character.toNat < 32 then
    ['\\', 'u', '0', '0', hexDigit (character.toNat / 16), hexDigit (character.toNat % 16)]
  else [character]

def quoted (text : String) : String :=
  "\"" ++ String.ofList (text.toList.flatMap escaped) ++ "\""

mutual

def compact : Json → String
  | null => "null"
  | bool true => "true"
  | bool false => "false"
  | number spelling => spelling
  | string text => quoted text
  | array items => "[" ++ Text.join "," (compactItems items) ++ "]"
  | object members => "\x7b" ++ Text.join "," (compactMembers members) ++ "\x7d"

def compactItems : List Json → List String
  | [] => []
  | item :: items => compact item :: compactItems items

def compactMembers : List (String × Json) → List String
  | [] => []
  | (name, value) :: members => (quoted name ++ ":" ++ compact value) :: compactMembers members

end

def levelBlanks (level : Nat) : String := Text.repeated "  " level

def bracketed (level : Nat) (opening closing : String) (entries : List String) : String :=
  if entries.isEmpty then opening ++ closing
  else
    opening ++ "\n" ++
      Text.join ",\n" (entries.map fun entry => levelBlanks (level + 1) ++ entry) ++
      "\n" ++ levelBlanks level ++ closing

mutual

/-- A value on indented lines, standing at a level. -/
def prettyAt (level : Nat) : Json → String
  | array items => bracketed level "[" "]" (prettyItems (level + 1) items)
  | object members => bracketed level "\x7b" "\x7d" (prettyMembers (level + 1) members)
  | null => "null"
  | bool true => "true"
  | bool false => "false"
  | number spelling => spelling
  | string text => quoted text

def prettyItems (level : Nat) : List Json → List String
  | [] => []
  | item :: items => prettyAt level item :: prettyItems level items

def prettyMembers (level : Nat) : List (String × Json) → List String
  | [] => []
  | (name, value) :: members =>
    (quoted name ++ ": " ++ prettyAt level value) :: prettyMembers level members

end

def pretty (value : Json) : String := prettyAt 0 value

end Json

end InlineMacro
