import InlineMacro.Configuration
import InlineMacro.Pass.Invocation
import InlineMacro.Pass.Normalize
import InlineMacro.Pass.Rename

/-!
# Making functions macros

The passes over a whole unit, in order: every function is brought into normal form, it is decided
which functions become macros, the calls of those that return something are flattened, and then
each such function is turned into the text of a macro while every other one has its calls made
invocations. The macros stand at the head of the unit in the order of their functions.
-/

set_option autoImplicit false

namespace InlineMacro

/-! ## The names in a unit -/

def Node.names : Node → List String
  | .function definition => definition.name :: definition.parameters.filterMap Parameter.name
  | .statement (.gotoStatement _ label) => [label]
  | .statement (.labelled _ label _) => [label]
  | .statement _ => []
  | .declaration declared => [declared.name]
  | .initializer _ => []
  | .expression (.identifier _ name) => [name]
  | .expression (.member _ _ name _) => [name]
  | .expression _ => []
  | .type (.named name) => [name]
  | .type (.record _ tag fields) => tag.toList ++ (fields.getD []).filterMap Field.name
  | .type (.enumeration tag enumerators) =>
    tag.toList ++ (enumerators.getD []).map Enumerator.name
  | .type (.function _ parameters _) => parameters.filterMap Parameter.name
  | .type _ => []

def CompilationUnit.identifiers (unit : CompilationUnit) : List String :=
  (unit.nodes.flatMap Node.names).eraseDups

/-! ## Snapshots and results -/

/-- A state of a unit or of a function, for the record. -/
inductive Snapshot where
  | unit (title : String) (unit : CompilationUnit)
  | function (name title : String) (function : Function)
  | text (title text : String)

/-- Which functions became macros, and why the others did not. -/
structure Report where
  macroized : List String := []
  rejected : List (String × Rejection) := []
deriving Inhabited, Repr

/-- The registry and the snapshots of a run, in order. -/
structure RunState where
  registry : Registry
  snapshots : List Snapshot := []

abbrev Run := EStateM Failure RunState

namespace Run

def snapshot (taken : Snapshot) : Run Unit :=
  modify fun state => { state with snapshots := state.snapshots ++ [taken] }

def withRegistry {α : Type} (use : Registry → α × Registry) : Run α :=
  modifyGet fun state =>
    let (result, registry) := use state.registry
    (result, { state with registry := registry })

def pass {α : Type} (function : Function) (work : Pass α) : Run (α × Function) := do
  let state ← get
  match work.run ⟨function, state.registry⟩ with
  | .ok result work =>
    set { state with registry := work.registry }
    pure (result, work.function)
  | .error failure work =>
    set { state with registry := work.registry }
    throw failure

def mapFunctions (change : Function → Run Function) : List Item → Run (List Item)
  | [] => pure []
  | .function definition :: items => do
    let definition ← change definition
    return .function definition :: (← mapFunctions change items)
  | item :: items => return item :: (← mapFunctions change items)

end Run

/-! ## One function -/

/-- What has been decided for a unit: which functions become macros, under which names, and how the
namespace parameter is called. -/
structure MacroPlan where
  eligibility : Eligibility
  macros : Association String
  namespaceName : String

/-- Turns a function into the text of its macro; the function in its last form is returned too. -/
def Function.toMacro (plan : MacroPlan) (function : Function) : Run (String × Function) := do
  let name := function.name
  Run.snapshot (.function name "flattened" function)
  let (parameters, function) ← Run.withRegistry fun registry =>
    let (parameters, function, registry) := function.renameLocals registry
    ((parameters, function), registry)
  Run.snapshot (.function name "renamed" function)
  let (parameters, function) ←
    if plan.eligibility.results.contains name then do
      let (pointer, function) ← Run.pass function Pass.returnThroughPointer
      Run.snapshot (.function name "void" function)
      pure (pointer :: parameters, function)
    else pure (parameters, function)
  let (exit, function) ← Run.pass function Pass.linearize
  if exit.isSome then Run.snapshot (.function name "linearized" function)
  let function := function.appendNamespace plan.namespaceName
  let (_, function) ←
    Run.pass function (Pass.invokeMacros ⟨plan.macros, some plan.namespaceName⟩)
  Run.snapshot (.function name "namespaced" function)
  match plan.macros.find? name with
  | some macroName =>
    pure (function.macroText macroName plan.namespaceName parameters, function)
  | none => throw (.internal ("no macro name for '" ++ name ++ "'"))

/-! ## The whole unit -/

/-- The items of a unit while the macros are put to its head. -/
structure MacroPlacement where
  head : List Item := []
  items : List Item := []
  texts : Association String
  sources : Association Function

namespace MacroPlacement

/-- Places an item: the text of a macro goes to the head and the function it was made of, if that
is kept, takes its place; prototypes of such functions can be dropped. -/
def place (dropsPrototypes : Bool) (plan : MacroPlan) (placement : MacroPlacement) :
    Item → MacroPlacement
  | .function definition =>
    match placement.texts.find? definition.name with
    | none => { placement with items := placement.items ++ [.function definition] }
    | some text =>
      { head := placement.head ++ [.verbatim text definition.span]
        items := placement.items ++
          ((placement.sources.find? definition.name).map Item.function).toList
        texts := placement.texts.erase definition.name
        sources := placement.sources.erase definition.name }
  | .declaration declared =>
    if dropsPrototypes && declared.type.isFunction && plan.macros.contains declared.name then
      placement
    else { placement with items := placement.items ++ [.declaration declared] }
  | item => { placement with items := placement.items ++ [item] }

end MacroPlacement

/-- Processes a function of a unit: one that becomes a macro adds its text to those made before. -/
def Function.process (plan : MacroPlan) (texts : Association String) (function : Function) :
    Run (Association String × Function) := do
  if plan.eligibility.isEligible function.name then
    let (text, function) ← function.toMacro plan
    pure (texts.insert function.name text, function)
  else
    let (_, function) ← Run.pass function (Pass.invokeMacros ⟨plan.macros, none⟩)
    pure (texts, function)

/-- Processes the functions among items, in order. -/
def Item.processAll (plan : MacroPlan) (texts : Association String) :
    List Item → Run (Association String × List Item)
  | [] => pure (texts, [])
  | .function definition :: items => do
    let (texts, definition) ← definition.process plan texts
    let (texts, items) ← Item.processAll plan texts items
    pure (texts, .function definition :: items)
  | item :: items => do
    let (texts, items) ← Item.processAll plan texts items
    pure (texts, item :: items)

/-- Makes macros of the eligible functions of a unit. -/
def CompilationUnit.macroize (configuration : Configuration) (unit : CompilationUnit) :
    Run (Report × CompilationUnit) := do
  Run.withRegistry fun registry => ((), registry.reserveAll unit.identifiers)
  Run.snapshot (.unit "input" unit)
  let normalized := unit.mapFunctions Function.normalize
  Run.snapshot (.unit "normalized" normalized)
  let eligibility := normalized.eligibility configuration.effectiveMask
  let report : Report := ⟨eligibility.eligible, eligibility.rejected⟩
  if eligibility.eligible.isEmpty then pure (report, normalized)
  else
    let macros ← Run.withRegistry (Registry.macroNames eligibility.eligible)
    let namespaceName ← Run.withRegistry Registry.namespaceParameter
    let plan : MacroPlan := ⟨eligibility, macros, namespaceName⟩
    let flattened ← Run.mapFunctions (fun function =>
      Run.withRegistry (function.flattenCalls eligibility.results)) normalized.items
    Run.snapshot (.unit "flattened" { unit with items := flattened })
    let (texts, processed) ← Item.processAll plan [] flattened
    let sources := if configuration.keepsDefinitions then
        Association.ofPairs (unit.functions.map fun function => (function.name, function))
      else []
    let dropsPrototypes := !configuration.keepsDefinitions || configuration.purgesPrototypes
    let placement : MacroPlacement :=
      processed.foldl (MacroPlacement.place dropsPrototypes plan)
        { texts := texts, sources := sources }
    let macroized : CompilationUnit := { unit with items := placement.head ++ placement.items }
    Run.snapshot (.unit "macroized" macroized)
    pure (report, macroized)

end InlineMacro
