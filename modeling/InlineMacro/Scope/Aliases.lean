import InlineMacro.Association
import InlineMacro.Registry

/-!
# Aliases in nested scopes

A stack of scopes, each of which says for some names under which alias they are known. Within one
scope a declared name keeps its alias; an alias that was only bound can be replaced.
-/

set_option autoImplicit false

namespace InlineMacro

/-- The alias of a name, and whether a declaration may replace it. -/
structure Alias where
  name : String
  isReplaceable : Bool
deriving DecidableEq, Inhabited, Repr

/-- The innermost scope and the scopes around it, from the inside out. There is always one. -/
structure AliasTable where
  current : Association Alias := []
  outer : List (Association Alias) := []
deriving Inhabited, Repr

namespace AliasTable

def scopes (table : AliasTable) : List (Association Alias) := table.current :: table.outer

def depth (table : AliasTable) : Nat := table.outer.length + 1

def enter (table : AliasTable) : AliasTable := ⟨[], table.scopes⟩

/-- Closes the innermost scope, unless it is the only one. -/
def leave (table : AliasTable) : AliasTable :=
  match table.outer with
  | [] => table
  | scope :: scopes => ⟨scope, scopes⟩

def set (table : AliasTable) (name : String) (entry : Alias) : AliasTable :=
  { table with current := table.current.insert name entry }

def bind (table : AliasTable) (name known : String) : AliasTable :=
  table.set name ⟨known, true⟩

def register (name : String) (table : AliasTable) (registry : Registry) :
    String × AliasTable × Registry :=
  let (known, registry) := Registry.fresh name registry
  (known, table.set name ⟨known, false⟩, registry)

/-- The alias that a name was declared with in the innermost scope, or else a fresh one. -/
def declare (name : String) (table : AliasTable) (registry : Registry) :
    String × AliasTable × Registry :=
  match table.current.find? name with
  | some ⟨known, false⟩ => (known, table, registry)
  | _ => register name table registry

def aliasOf (table : AliasTable) (name : String) : String :=
  match table.scopes.findSome? (·.find? name) with
  | some found => found.name
  | none => name

def isDeclared (table : AliasTable) (name : String) : Bool :=
  table.scopes.any (·.contains name)

end AliasTable

end InlineMacro
