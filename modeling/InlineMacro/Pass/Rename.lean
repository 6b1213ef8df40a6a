import InlineMacro.Scope.Aliases
import InlineMacro.Scope.Locals
import InlineMacro.Syntax.Traversal

/-!
# Fresh names for parameters and local objects

Every parameter and local object of a function gets a name that nothing else has. A parameter of
the macro is a second name: where the type allows it, the body starts by copying the macro's
argument into an object, so that the argument is evaluated once; an array or function argument is
used in place.
-/

set_option autoImplicit false

namespace InlineMacro

def CType.isMovable (type : CType) : Bool :=
  !(type.isArray || type.isFunction || type.isFunctionPointer)

/-- The open scopes and the registry. -/
structure RenameState where
  table : AliasTable
  registry : Registry

abbrev Renaming := StateM RenameState

namespace Renaming

def enter : Renaming Unit := modify fun state => { state with table := state.table.enter }

def leave : Renaming Unit := modify fun state => { state with table := state.table.leave }

def bind (name known : String) : Renaming Unit :=
  modify fun state => { state with table := state.table.bind name known }

def declare (name : String) : Renaming String := do
  let state ← get
  let (known, table, registry) := AliasTable.declare name state.table state.registry
  set (⟨table, registry⟩ : RenameState)
  pure known

def fresh (stem : String) : Renaming String := do
  let state ← get
  let (name, registry) := Registry.fresh stem state.registry
  set { state with registry := registry }
  pure name

def aliasing (table : AliasTable) : Traversal Id where
  name := fun name => pure (table.aliasOf name)

def type (given : CType) : Renaming CType := do
  return Id.run (given.traverse (aliasing (← get).table))

def expr (given : Expr) : Renaming Expr := do
  return Id.run (given.traverse (aliasing (← get).table))

def initializer (given : Initializer) : Renaming Initializer := do
  return Id.run (given.traverse (aliasing (← get).table))

def option {α : Type} (rename : α → Renaming α) : Option α → Renaming (Option α)
  | none => pure none
  | some value => some <$> rename value

def keepsName (type : CType) (storage : Option StorageClass) : Bool :=
  type.isFunction || storage == some .external || storage == some .typeAlias

/-- Renames a declaration. Its name is in scope from its own initializer on. -/
def declaration (given : Declaration) : Renaming Declaration := do
  let type ← type given.type
  let name ←
    if keepsName type given.storage then do
      bind given.name given.name
      pure given.name
    else declare given.name
  let initializer ← option initializer given.initializer
  return { given with name := name, type := type, initializer := initializer }

def declarations : List Declaration → Renaming (List Declaration)
  | [] => pure []
  | given :: rest => do
    let first ← declaration given
    return first :: (← declarations rest)

mutual

/-- Renames in a statement. A block opens a scope, and so does a loop whose head starts with
something. -/
def statement : Statement → Renaming Statement
  | .expression span value => do return .expression span (← expr value)
  | .block span entries => do
    enter
    let entries ← statements entries
    leave
    pure (.block span entries)
  | .declaration span given => do return .declaration span (← declarations given)
  | .typeDefinition span given => do return .typeDefinition span (← type given)
  | .ifElse span condition thenBranch none => do
    return .ifElse span (← expr condition) (← statement thenBranch) none
  | .ifElse span condition thenBranch (some elseBranch) => do
    return .ifElse span (← expr condition) (← statement thenBranch)
      (some (← statement elseBranch))
  | .whileLoop span condition body => do
    return .whileLoop span (← expr condition) (← statement body)
  | .forLoop span none condition update body => do
    return .forLoop span none (← option expr condition) (← option expr update) (← statement body)
  | .forLoop span (some init) condition update body => do
    enter
    let init ← statement init
    let condition ← option expr condition
    let update ← option expr update
    let body ← statement body
    leave
    pure (.forLoop span (some init) condition update body)
  | .doWhile span body condition => do
    return .doWhile span (← statement body) (← expr condition)
  | .switch span subject body => do return .switch span (← expr subject) (← statement body)
  | .caseLabel span value labelled => do
    return .caseLabel span (← expr value) (← statement labelled)
  | .defaultLabel span labelled => do return .defaultLabel span (← statement labelled)
  | .returnStatement span value => do return .returnStatement span (← option expr value)
  | .labelled span label labelled => do return .labelled span label (← statement labelled)
  | .breakStatement span => pure (.breakStatement span)
  | .continueStatement span => pure (.continueStatement span)
  | .gotoStatement span label => pure (.gotoStatement span label)
  | .empty span => pure (.empty span)

def statements : List Statement → Renaming (List Statement)
  | [] => pure []
  | first :: rest => do
    let first ← statement first
    return first :: (← statements rest)

end

/-- What becomes of a parameter: itself under the macro's name for it, and the declaration of its
copy if it has one. -/
structure RenamedParameter where
  parameter : Parameter
  copy : Option Statement

def parameter (given : Parameter) : Renaming RenamedParameter := do
  match given.name with
  | none => pure ⟨given, none⟩
  | some name =>
    let argument ← fresh name
    let type ← type given.type
    let renamed : Parameter := ⟨some argument, type, given.span⟩
    if type.isMovable then
      let copied : Declaration :=
        { Declaration.ofVariable (← declare name) type.withoutBodies with
          initializer := some (.expression given.span (.ofName argument)) }
      pure ⟨renamed, some (.ofDeclaration copied)⟩
    else
      bind name argument
      pure ⟨renamed, none⟩

def parameters : List Parameter → Renaming (List RenamedParameter)
  | [] => pure []
  | given :: rest => do
    let first ← parameter given
    return first :: (← parameters rest)

end Renaming

/-- Gives the parameters and local objects of a function fresh names. The names of the macro's
parameters are returned in order. -/
def Function.renameLocals (function : Function) (registry : Registry) :
    List String × Function × Registry :=
  let rename : Renaming (List Renaming.RenamedParameter × Statement) := do
    let parameters ← Renaming.parameters function.parameters
    let body ← Renaming.statement function.body
    pure (parameters, body)
  let ((parameters, body), state) := rename.run ⟨{}, registry⟩
  let renamed : Function :=
    { function with
      parameters := parameters.map (·.parameter)
      body := body.precededBy (parameters.filterMap (·.copy)) }
  (renamed.parameters.filterMap fun parameter => parameter.name, renamed, state.registry)

end InlineMacro
