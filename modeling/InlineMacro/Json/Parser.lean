import InlineMacro.Json
import InlineMacro.Json.Decoder

/-!
# Reading JSON values

The decoder that keeps all there is in a text: a value with its spellings and the order of its members.
-/

set_option autoImplicit false

namespace InlineMacro.Json

namespace Decoder

mutual

def valueWithin : Nat → Decoder Json
  | 0 => fail (.unfinished .value)
  | budget + 1 => do
    match ← startValue with
    | 'n' => do wordBehind "ull"; pure .null
    | 't' => do wordBehind "rue"; pure (.bool true)
    | 'f' => do wordBehind "alse"; pure (.bool false)
    | '"' => do return .string (← stringBehind)
    | '[' => enclosed endArray do return .array (← jsonItemsWithin [] budget)
    | '\x7b' => enclosed endObject do return .object (← jsonMembersWithin [] budget)
    | character =>
      if startsNumeral character then return .number (← numeral (.unfinished .value)).spelling
      else failHere (.lacking "value")
termination_by structural budget => budget

def jsonItemsWithin (read : List Json) : Nat → Decoder (List Json)
  | 0 => fail (.unfinished .array)
  | budget + 1 => do
    if ← nextItem read.isEmpty then
      let item ← valueWithin budget
      jsonItemsWithin (item :: read) budget
    else pure read.reverse
termination_by structural budget => budget

def jsonMembersWithin (read : List (String × Json)) : Nat → Decoder (List (String × Json))
  | 0 => fail (.unfinished .object)
  | budget + 1 => do
    if ← nextMember read.isEmpty then
      let name ← stringBehind
      colon
      let value ← valueWithin budget
      jsonMembersWithin ((name, value) :: read) budget
    else pure read.reverse
termination_by structural budget => budget

end

def json : Decoder Json := do valueWithin (← budget)

end Decoder

def parse? (text : String) : Option Json := (Decoder.json.decode text).toOption

end InlineMacro.Json
