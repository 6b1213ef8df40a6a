import InlineMacro.Json.Decoder

/-!
# Decoders of known values

Decoders of the values that settings consist of. A record stands in an object, whose unknown members
say nothing, or in an array with its members in order. What may be left out keeps its default; a value
of the wrong kind, or a member given twice, spoils the whole.
-/

set_option autoImplicit false

namespace InlineMacro.Json.Decoder

variable {α : Type}

def bool : Decoder Bool := located do
  match ← startValue with
  | 't' => do wordBehind "rue"; pure true
  | 'f' => do wordBehind "alse"; pure false
  | _ => wrongKind "a boolean"

def byte : Decoder Nat := located do
  if startsNumeral (← startValue) then
    match ← foundNumber with
    | .integer value =>
      if 0 ≤ value ∧ value < 256 then pure value.toNat
      else failLater (.wrongValue (.integer value) "u8")
    | found => failLater (.wrongKind found "u8")
  else wrongKind "u8"

def stringFor (wanted : String) : Decoder String := located do
  if (← startValue) == '"' then stringBehind else wrongKind wanted

def text : Decoder String := stringFor "a string"

def path : Decoder String := stringFor "path string"

def list (item : Decoder α) : Decoder (List α) := located do
  if (← startValue) == '[' then enclosed endArray do itemsWithin item [] (← budget)
  else wrongKind "a sequence"

def nullable (decoder : Decoder α) : Decoder (Option α) := do
  if (← skipBlanks) == some 'n' then
    wordBehind "ull"
    pure none
  else return some (← decoder)

/-- A member of a record: how its value adds to what has been read, and whether it may be left out of
an object and of an array. -/
structure Field (α : Type) where
  name : String
  read : α → Decoder α
  isRequired : Bool := false
  isRequiredInArray : Bool := false

/-- A record: how it is called, what it is when all is left out, and its members in order. -/
structure RecordForm (α : Type) where
  title : String
  standard : α
  fields : List (Field α)

namespace RecordForm

def membersWithin (form : RecordForm α) (isFirst : Bool) (seen : List String) (value : α) :
    Nat → Decoder (List String × α)
  | 0 => fail (.unfinished .object)
  | budget + 1 => do
    if ← nextMember isFirst then
      let name ← stringBehind
      match form.fields.find? fun field => field.name == name with
      | none =>
        colon
        skipValue
        membersWithin form false seen value budget
      | some field =>
        if seen.contains name then failLater (.repeated name)
        colon
        membersWithin form false (name :: seen) (← field.read value) budget
    else pure (seen, value)

/-- The members of an object behind its brace. -/
def members (form : RecordForm α) : Decoder α := do
  let (seen, value) ← form.membersWithin true [] form.standard (← budget)
  match form.fields.find? fun field => field.isRequired && !seen.contains field.name with
  | some field => failLater (.missing field.name)
  | none => pure value

def arrayTitle (form : RecordForm α) : String :=
  form.title ++ " with " ++ toString form.fields.length ++ " elements"

/-- Members in order from an index on. -/
def itemsFrom (form : RecordForm α) : List (Field α) → Nat → α → Decoder α
  | [], _, value => pure value
  | field :: fields, index, value => do
    if ← nextItem (index == 0) then
      itemsFrom form fields (index + 1) (← field.read value)
    else if field.isRequiredInArray then failLater (.tooFewItems index form.arrayTitle)
    else itemsFrom form fields (index + 1) value

def decoder (form : RecordForm α) : Decoder α := located do
  match ← startValue with
  | '\x7b' => enclosed endObject form.members
  | '[' => enclosed endArray (form.itemsFrom form.fields 0 form.standard)
  | _ => wrongKind form.title

end RecordForm

end InlineMacro.Json.Decoder
