/-!
# The registry of names

Every name that the program invents comes from one registry, which knows the names in use. A
fresh name is its stem with a number, a fresh label the letter `L` with a number of at least four
digits; each of the two counters only goes up, and a candidate in use is passed over.
-/

set_option autoImplicit false

namespace InlineMacro

/-- The names in use, and the next number to try for a name and for a label. -/
structure Registry where
  used : List String := []
  nextName : Nat := 0
  nextLabel : Nat := 0
deriving Inhabited, Repr

namespace Registry

def isUsed (registry : Registry) (name : String) : Bool :=
  registry.used.contains name

def reserve (registry : Registry) (name : String) : Registry :=
  if registry.isUsed name then registry
  else { registry with used := name :: registry.used }

def reserveAll (registry : Registry) (names : List String) : Registry :=
  names.foldl reserve registry

def ofNames (names : List String) : Registry :=
  ({} : Registry).reserveAll names

/-- The first number from `start` on whose candidate is not in use. The candidates are pairwise
different, so one more of them than there are used names is enough to look at. -/
def firstFree (candidate : Nat → String) (used : List String) (start : Nat) : Nat :=
  ((List.range' start (used.length + 1)).find? fun number =>
    !used.contains (candidate number)).getD start

def numbered (stem : String) (number : Nat) : String :=
  stem ++ "_" ++ toString number

def fourDigits (number : Nat) : String :=
  let digits := toString number
  String.ofList (List.replicate (4 - digits.length) '0') ++ digits

def labelled (number : Nat) : String :=
  "L" ++ fourDigits number

/-- A name that was not in use, now in use. -/
def fresh (stem : String) (registry : Registry) : String × Registry :=
  let number := firstFree (numbered stem) registry.used registry.nextName
  (numbered stem number,
    { registry with used := numbered stem number :: registry.used, nextName := number + 1 })

/-- A label that was not in use, now in use. -/
def freshLabel (registry : Registry) : String × Registry :=
  let number := firstFree labelled registry.used registry.nextLabel
  (labelled number,
    { registry with used := labelled number :: registry.used, nextLabel := number + 1 })

end Registry

end InlineMacro
