import InlineMacro.Association
import InlineMacro.Registry
import InlineMacro.Scope.Locals
import InlineMacro.Syntax.CallPosition

/-!
# Calls that return through a pointer

A call of a function that is going to return through a pointer becomes a statement of its own, in
three rounds over a body. In the first every such call in statement position is assigned to a
temporary, in the second the calls among its arguments are moved in front of it in the order of
their evaluation, and in the third the address of what is assigned becomes the first argument.

A round looks at the statements of a block before it goes into the blocks inside. What it replaces
is a plain statement, and so are the statements that take its place.
-/

set_option autoImplicit false

namespace InlineMacro

/-- The type of an object that takes a returned value: qualifiers of the value itself do not
matter, and a body is not written twice. -/
def CType.valueType (result : CType) : CType :=
  match result.unqualified with
  | .pointer _ target => .pointer {} target
  | other => other.withoutBodies

/-- The rounds of flattening. -/
inductive FlattenRound where
  | assignResults
  | hoistArguments
  | passAddresses
deriving DecidableEq, Inhabited, Repr

/-- What a round knows and has made: the names in scope, the registry, and the temporaries. -/
structure FlattenState where
  locals : LocalNames
  registry : Registry
  temporaries : List Declaration := []

abbrev Flatten := StateM FlattenState

namespace Flatten

def enter : Flatten Unit := modify fun state => { state with locals := state.locals.enter }

def leave : Flatten Unit := modify fun state => { state with locals := state.locals.leave }

def declareStatement (statement : Statement) : Flatten Unit :=
  modify fun state => { state with locals := state.locals.declareStatement statement }

def targetOf? (targets : Association CType) (state : FlattenState) (value : Expr) :
    Option String :=
  value.callee?.filter fun name => targets.contains name && !state.locals.contains name

def temporary (targets : Association CType) (callee : String) : Flatten String := do
  let state ← get
  let (name, registry) := Registry.fresh (callee ++ "_ret") state.registry
  let type := ((targets.find? callee).map CType.valueType).getD (.basic .int)
  set { state with
    registry := registry
    temporaries := state.temporaries ++ [Declaration.ofVariable name type] }
  pure name

/-! ## The first round: results go to temporaries -/

def assignsTemporary (state : FlattenState) : Statement → Bool
  | .expression _ (.binary _ .assign left _) =>
    left.identifier?.any fun name =>
      state.temporaries.any fun temporary => temporary.name == name
  | _ => false

/-- What is left of a statement once its call is gone and its value is in a temporary. -/
def afterCall (temporary : String) (position : CallPosition) (statement : Statement) :
    List Statement :=
  match position with
  | .assigned | .returned => [statement.replaceTopCall (.ofName temporary)]
  | .whole | .thrownAway => []

/-- Assigns the call of a statement to a temporary; `none` if there is nothing to do. -/
def assignResult (targets : Association CType) (statement : Statement) :
    Flatten (Option (List Statement)) := do
  let state ← get
  match statement.callSite? with
  | none => pure none
  | some (position, call) =>
    match targetOf? targets state call with
    | none => pure none
    | some callee =>
      if position = .assigned && assignsTemporary state statement then pure none
      else
        let name ← temporary targets callee
        let assignment := Statement.expression statement.span (.assignment (.ofName name) call)
        pure (some (assignment :: afterCall name position statement))

/-! ## The second round: calls among the arguments move to the front -/

mutual

/-- Moves the targets called in an argument to the front. The statements that are moved come in
the order of evaluation, each behind those for its own arguments. -/
def hoistFrom (targets : Association CType) : Expr → Flatten (List Statement × Expr)
  | .call span function arguments => do
    match targetOf? targets (← get) (.call span function arguments) with
    | some callee =>
      let name ← temporary targets callee
      let (hoisted, arguments) ← hoistFromList targets arguments
      let assignment :=
        Statement.ofExpr (.assignment (.ofName name) (.call span function arguments))
      pure (hoisted ++ [assignment], .ofName name)
    | none =>
      let (hoisted, arguments) ← hoistFromList targets arguments
      pure (hoisted, .call span function arguments)
  | argument => pure ([], argument)

/-- Moves the targets called in several arguments to the front. -/
def hoistFromList (targets : Association CType) : List Expr → Flatten (List Statement × List Expr)
  | [] => pure ([], [])
  | argument :: arguments => do
    let (first, argument) ← hoistFrom targets argument
    let (others, arguments) ← hoistFromList targets arguments
    pure (first ++ others, argument :: arguments)

end

/-- Moves the targets called in the arguments of a statement's call to the front; `none` if there
is nothing to do. -/
def hoistArguments (targets : Association CType) (statement : Statement) :
    Flatten (Option (List Statement)) := do
  match statement.topCall? with
  | some (.call span function arguments) =>
    let (hoisted, arguments) ← hoistFromList targets arguments
    if hoisted.isEmpty then pure none
    else pure (some (hoisted ++ [statement.replaceTopCall (.call span function arguments)]))
  | _ => pure none

/-! ## The third round: addresses become arguments -/

/-- Makes an assigned call of a target one that takes the address of the assigned object; `none` if
there is nothing to do. -/
def passAddress (targets : Association CType) (statement : Statement) :
    Flatten (Option (List Statement)) := do
  let state ← get
  match statement with
  | .expression place (.binary _ .assign left (.call span function arguments)) =>
    match targetOf? targets state (.call span function arguments) with
    | none => pure none
    | some _ => pure (some [.expression place (.call span function (.addressOf left :: arguments))])
  | _ => pure none

/-! ## A round over a body -/

def replacement (targets : Association CType) :
    FlattenRound → Statement → Flatten (Option (List Statement))
  | .assignResults => assignResult targets
  | .hoistArguments => hoistArguments targets
  | .passAddresses => passAddress targets

/-- What a round puts in the place of each statement of a block. -/
def replacements (targets : Association CType) (round : FlattenRound) :
    List Statement → Flatten (List (Option (List Statement)))
  | [] => pure []
  | statement :: statements => do
    declareStatement statement
    let first ← replacement targets round statement
    return first :: (← replacements targets round statements)

mutual

def statement (targets : Association CType) (round : FlattenRound) :
    Statement → Flatten Statement
  | .block span entries => do
    enter
    let replaced ← replacements targets round entries
    leave
    enter
    let result ← statements targets round replaced entries
    leave
    pure (.block span result)
  | .declaration span declarations => do
    declareStatement (.declaration span declarations)
    pure (.declaration span declarations)
  | .ifElse span condition thenBranch none => do
    return .ifElse span condition (← statement targets round thenBranch) none
  | .ifElse span condition thenBranch (some elseBranch) => do
    let thenBranch ← statement targets round thenBranch
    return .ifElse span condition thenBranch (some (← statement targets round elseBranch))
  | .whileLoop span condition body => do
    return .whileLoop span condition (← statement targets round body)
  | .forLoop span none condition update body => do
    return .forLoop span none condition update (← statement targets round body)
  | .forLoop span (some init) condition update body => do
    enter
    let init ← statement targets round init
    let body ← statement targets round body
    leave
    pure (.forLoop span (some init) condition update body)
  | .doWhile span body condition => do
    return .doWhile span (← statement targets round body) condition
  | .switch span subject body => do
    return .switch span subject (← statement targets round body)
  | .caseLabel span value labelled => do
    return .caseLabel span value (← statement targets round labelled)
  | .defaultLabel span labelled => do
    return .defaultLabel span (← statement targets round labelled)
  | .labelled span label labelled => do
    return .labelled span label (← statement targets round labelled)
  | other => pure other

/-- A round over the statements of a block, given what takes the place of some. -/
def statements (targets : Association CType) (round : FlattenRound) :
    List (Option (List Statement)) → List Statement → Flatten (List Statement)
  | _, [] => pure []
  | some result :: replaced, _ :: entries => do
    return result ++ (← statements targets round replaced entries)
  | replaced, entry :: entries => do
    let first ← statement targets round entry
    return first :: (← statements targets round replaced.tail entries)

end

def body (targets : Association CType) (whole : Statement) : Flatten Statement := do
  let whole ← statement targets .assignResults whole
  let whole ← statement targets .hoistArguments whole
  statement targets .passAddresses whole

end Flatten

/-- Makes every call of a target a statement of its own that passes an address for the result. The
temporaries are declared at the start of the body. -/
def Function.flattenCalls (targets : Association CType) (function : Function)
    (registry : Registry) : Function × Registry :=
  if targets.isEmpty then (function, registry)
  else
    let (body, state) :=
      (Flatten.body targets function.body).run ⟨.ofFunction function, registry, []⟩
    let declarations := state.temporaries.map Statement.ofDeclaration
    ({ function with body := body.precededBy declarations }, state.registry)

end InlineMacro
