import InlineMacro.Machine.Shell.State
import InlineMacro.Text.Wildcard

/-!
# Fields

What words become when they are expanded: values without quotes are split at separators, and fields
with the signs of a pattern stand for the paths that have its form.
-/

set_option autoImplicit false

namespace InlineMacro.Machine

abbrev Field := List Wildcard.Character

/-! ## Splitting -/

/-- The fields of a word: those that are complete, the one at work, both in reverse, and whether
blanks have just ended a field. -/
structure Fields where
  complete : List Field := []
  current : Option Field := none
  isBehindBlank : Bool := false
deriving Inhabited

namespace Fields

def close (fields : Fields) : Fields :=
  match fields.current with
  | some field => { fields with complete := field.reverse :: fields.complete, current := none }
  | none => fields

def addCharacter (fields : Fields) (character : Wildcard.Character) : Fields :=
  { fields with current := some (character :: fields.current.getD []), isBehindBlank := false }

def addText (fields : Fields) (text : String) (isQuoted : Bool) : Fields :=
  let fields := { fields with current := some (fields.current.getD []), isBehindBlank := false }
  text.toList.foldl (fun fields character => fields.addCharacter (character, isQuoted)) fields

/-- Ends a field at a separator. Blanks go together with another separator next to them. -/
def separate (fields : Fields) (isBlank : Bool) : Fields :=
  if isBlank then
    if fields.current.isSome then { fields.close with isBehindBlank := true } else fields
  else if fields.current.isSome then { fields.close with isBehindBlank := false }
  else if fields.isBehindBlank then { fields with isBehindBlank := false }
  else { fields with complete := [] :: fields.complete }

def addSplit (fields : Fields) (separators : List Char) (text : String) : Fields :=
  text.toList.foldl (fun fields character =>
    if separators.contains character then
      fields.separate (character = ' ' || character = '\t' || character = '\n')
    else fields.addCharacter (character, false)) fields

def addArguments (add : Fields → String → Fields) (fields : Fields) : List String → Fields
  | [] => fields
  | [last] => add fields last
  | argument :: arguments => addArguments add (add fields argument).close arguments

def toList (fields : Fields) : List Field := fields.close.complete.reverse

end Fields

/-! ## Paths -/

namespace Field

def text (field : Field) : String := String.ofList (field.map Prod.fst)

def isPattern (field : Field) : Bool :=
  field.any fun character => !character.2 && ['*', '?', '['].contains character.1

def fits (pattern : Field) (name : String) : Bool :=
  (!name.startsWith "." || pattern.head?.any fun character => character.1 = '.') &&
    Wildcard.hasForm (Wildcard.ofCharacters pattern) name.toList

def pieces : Field → List Field
  | [] => [[]]
  | character :: rest =>
    match pieces rest with
    | [] => [[character]]
    | first :: others =>
      if character.1 = '/' then [] :: first :: others else (character :: first) :: others

def precedes (left right : String) : Bool := !(right < left)

def pathsFrom (files : Files) (found : String) : List Field → List String
  | [] => if files.contains found then [found] else []
  | piece :: pieces =>
    let directory := if found.isEmpty then "." else found
    let names :=
      if !piece.isPattern then [piece.text]
      else ((files.names directory).filter piece.fits).mergeSort precedes
    names.flatMap fun name =>
      if pieces.isEmpty then
        let path := found ++ name
        if files.contains path then [path] else []
      else pathsFrom files (found ++ name ++ "/") pieces

/-- The paths that a field stands for; itself, if there are none. -/
def paths (files : Files) (field : Field) : List String :=
  if !field.isPattern then [field.text]
  else
    let found := pathsFrom files "" field.pieces
    if found.isEmpty then [field.text] else found

end Field

end InlineMacro.Machine
