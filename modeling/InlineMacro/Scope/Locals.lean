import InlineMacro.Syntax.Tree

/-!
# Local names

The names of parameters and local objects that are in scope at a point of a function. A prototype
and an `extern` declaration in a block name something outside the function, so they add nothing.
-/

set_option autoImplicit false

namespace InlineMacro

/-- The names declared in the open blocks, from the inside out. -/
structure LocalNames where
  frames : List (List String) := []
deriving Inhabited, Repr

namespace LocalNames

def ofFunction (function : Function) : LocalNames :=
  ⟨[function.parameters.filterMap Parameter.name]⟩

def enter (locals : LocalNames) : LocalNames := ⟨[] :: locals.frames⟩

def leave (locals : LocalNames) : LocalNames := ⟨locals.frames.tail⟩

/-- Adds a name to the innermost block, if one is open. -/
def add (locals : LocalNames) (name : String) : LocalNames :=
  match locals.frames with
  | [] => locals
  | frame :: frames => ⟨(name :: frame) :: frames⟩

def isLocal (declaration : Declaration) : Bool :=
  !(declaration.type.isFunction || declaration.storage == some .external)

def declare (locals : LocalNames) (declaration : Declaration) : LocalNames :=
  if isLocal declaration then locals.add declaration.name else locals

def declareStatement (locals : LocalNames) : Statement → LocalNames
  | .declaration _ declarations => declarations.foldl declare locals
  | _ => locals

def contains (locals : LocalNames) (name : String) : Bool :=
  locals.frames.any (·.contains name)

end LocalNames

def Statement.opensLoopScope : Statement → Bool
  | .forLoop _ (some _) .. => true
  | _ => false

end InlineMacro
