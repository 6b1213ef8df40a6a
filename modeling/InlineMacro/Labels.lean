import InlineMacro.Macroize
import InlineMacro.Parser.Grammar

/-!
# Short labels

Expanding the macros leaves labels that are chains of tokens. In the expanded unit every label of a
function gets a short name, the same one wherever it stands, that is used nowhere else.
-/

set_option autoImplicit false

namespace InlineMacro

/-- The registry, and the short names given in the function at hand. -/
structure LabelState where
  registry : Registry
  given : Association String := []

abbrev Labelling := StateM LabelState

namespace Labelling

def shortName (label : String) : Labelling String := do
  let state ← get
  match state.given.find? label with
  | some name => pure name
  | none =>
    let (name, registry) := state.registry.freshLabel
    set (⟨registry, state.given.insert label name⟩ : LabelState)
    pure name

def shortening : Traversal Labelling where
  label := shortName

def function (given : Function) : Labelling Function := do
  modify ({ · with given := [] })
  return { given with body := ← given.body.traverse shortening }

/-- Shortens the labels of the functions among items. -/
def items : List Item → Labelling (List Item)
  | [] => pure []
  | .function definition :: rest => do
    let definition ← function definition
    return .function definition :: (← items rest)
  | item :: rest => return item :: (← items rest)

end Labelling

/-- Gives every label of a unit a short name. No name that stands in the unit is given. -/
def CompilationUnit.shortenLabels (unit : CompilationUnit) (registry : Registry) :
    CompilationUnit × Registry :=
  let (items, state) :=
    (Labelling.items unit.items).run ⟨registry.reserveAll unit.identifiers, []⟩
  ({ unit with items := items }, state.registry)

/-- The unit that an expanded text holds, with short labels. The names given are types' names
although the text does not declare them. -/
def CompilationUnit.ofExpanded (text : String) (typedefs : List String) (registry : Registry) :
    Except Failure (CompilationUnit × Registry) := do
  let unit ← CompilationUnit.parse text "<input>" typedefs
  pure (unit.shortenLabels registry)

end InlineMacro
