/-!
# Associations

Finite maps from names, as lists of pairs. A later insertion replaces an earlier one of its name.
-/

set_option autoImplicit false

namespace InlineMacro

abbrev Association (α : Type) := List (String × α)

namespace Association

variable {α : Type}

def find? (association : Association α) (name : String) : Option α :=
  association.lookup name

def contains (association : Association α) (name : String) : Bool :=
  (association.find? name).isSome

def erase (association : Association α) (name : String) : Association α :=
  association.filter fun entry => entry.1 != name

def insert (association : Association α) (name : String) (value : α) : Association α :=
  (name, value) :: association.erase name

def ofPairs (pairs : List (String × α)) : Association α :=
  pairs.foldl (fun association entry => association.insert entry.1 entry.2) []

end Association

end InlineMacro
