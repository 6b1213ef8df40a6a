import InlineMacro.Pass.Returns
import InlineMacro.Syntax.Printer

/-!
# Macros and their invocations

The text of a macro, the names that macros get, and the calls that become invocations. An
invocation has the arguments of the call behind a token of its own, in parentheses where a macro
could tear them apart; inside another macro the token follows that macro's namespace, so that the
labels of two expansions never meet.
-/

set_option autoImplicit false

namespace InlineMacro

/-! ## Names -/

def Registry.claim (wanted : String) (registry : Registry) : String × Registry :=
  if registry.isUsed wanted then Registry.fresh wanted registry else (wanted, registry.reserve wanted)

def Registry.macroNamesFrom : List String → Registry → List (String × String) × Registry
  | [], registry => ([], registry)
  | function :: functions, registry =>
    let (name, registry) := Registry.claim ("macro_" ++ function) registry
    let (names, registry) := Registry.macroNamesFrom functions registry
    ((function, name) :: names, registry)

def Registry.macroNames (functions : List String) (registry : Registry) :
    Association String × Registry :=
  let (names, registry) := Registry.macroNamesFrom functions registry
  (.ofPairs names, registry)

def Registry.namespaceParameter (registry : Registry) : String × Registry :=
  Registry.claim "namespace" registry

/-! ## The text of a macro -/

def continuedLine (line : String) : String := line ++ " \\"

/-- The definition of the macro for a function: the body's lines as one statement. -/
def Function.macroText (name namespaceName : String) (parameters : List String)
    (function : Function) : String :=
  let lines := match function.bodyLines with
    | [] => [""]
    | lines => lines
  "#define " ++ name ++ "(" ++ Text.join ", " (namespaceName :: parameters) ++ ") \\\n" ++
    "do \x7b \\\n" ++ Text.join "\n" (lines.map continuedLine) ++ "\n\x7d while(0)\n\n"

/-! ## Invocations -/

/-- Whether an argument needs parentheses to stay one argument, and one value, in a macro. -/
def Expr.needsParentheses : Expr → Bool
  | .identifier .. | .intLiteral .. | .floatLiteral .. | .charLiteral .. | .stringLiteral .. =>
    false
  | .unary _ .addressOf operand => operand.identifier?.isNone
  | _ => true

def Expr.protectedArgument (argument : Expr) : Expr :=
  if argument.needsParentheses then .comma argument.span [argument] else argument

/-- The macros that calls are made of, and the namespace of the macro they stand in, if any. -/
structure Expansion where
  macros : Association String
  enclosing : Option String

/-- The names in scope, the registry, and the first call of a macro that is no statement. -/
structure InvocationState where
  locals : LocalNames
  registry : Registry
  stray : Option String := none

abbrev Invoking := StateM InvocationState

namespace Invoking

def enter : Invoking Unit := modify fun state => { state with locals := state.locals.enter }

def leave : Invoking Unit := modify fun state => { state with locals := state.locals.leave }

def declare (declaration : Declaration) : Invoking Unit :=
  modify fun state => { state with locals := state.locals.declare declaration }

def declareStatement (statement : Statement) : Invoking Unit :=
  modify fun state => { state with locals := state.locals.declareStatement statement }

def isMacroCall (expansion : Expansion) (locals : LocalNames) (value : Expr) : Bool :=
  value.callee?.any fun name => expansion.macros.contains name && !locals.contains name

def strayText? (expansion : Expansion) (locals : LocalNames) : Node → Option String
  | .expression value =>
    if isMacroCall expansion locals value then some value.text else none
  | _ => none

/-- Looks for calls of macros where no invocation can stand; the first one found is kept. -/
def scan (expansion : Expansion) (nodes : List Node) : Invoking Unit :=
  modify fun state =>
    { state with
      stray := state.stray.or (nodes.findSome? (strayText? expansion state.locals)) }

def token (expansion : Expansion) : Invoking String := do
  let state ← get
  let (name, registry) := Registry.fresh "ns" state.registry
  set { state with registry := registry }
  match expansion.enclosing with
  | some namespaceName => pure (namespaceName ++ " ## " ++ name)
  | none => pure name

/-- Makes a call the invocation of a macro. -/
def invoke (expansion : Expansion) (call : Expr) : Invoking Expr := do
  match call with
  | .call span (.identifier place name) arguments =>
    scan expansion (Expr.listNodes arguments)
    match expansion.macros.find? name with
    | none => pure call
    | some macroName =>
      let token ← token expansion
      pure (.call span (.identifier place macroName)
        (.ofName token :: arguments.map Expr.protectedArgument))
  | other => pure other

/-- A call of a macro that is thrown away or returned, as statements of its own; `none` for any
other statement. -/
def placed? (expansion : Expansion) (locals : LocalNames) (statement : Statement) :
    Option (List Statement) :=
  match statement.callSite? with
  | some (.thrownAway, call) =>
    if isMacroCall expansion locals call then some [.expression statement.span call] else none
  | some (.returned, call) =>
    if isMacroCall expansion locals call then
      some [.expression statement.span call, .returnStatement statement.span none]
    else none
  | _ => none

/-- What takes the place of each statement of a block before invocations are made. -/
def placements (expansion : Expansion) (locals : LocalNames) :
    List Statement → List (Option (List Statement))
  | [] => []
  | statement :: statements =>
    let locals := locals.declareStatement statement
    placed? expansion locals statement :: placements expansion locals statements

/-- The call of a macro that is a whole statement. -/
def invocation? (expansion : Expansion) (locals : LocalNames) (statement : Statement) :
    Option Expr :=
  match statement.callSite? with
  | some (.whole, call) => if isMacroCall expansion locals call then some call else none
  | _ => none

def plainStatements (expansion : Expansion) : List Statement → Invoking (List Statement)
  | [] => pure []
  | statement :: statements => do
    let first ← match invocation? expansion (← get).locals statement with
      | some call => do
        let call ← invoke expansion call
        pure (statement.replaceTopCall call)
      | none => do
        scan expansion statement.nodes
        pure statement
    return first :: (← plainStatements expansion statements)

def declaration (expansion : Expansion) (declaration : Declaration) : Invoking Unit := do
  declare declaration
  scan expansion (declaration.type.nodes ++ optionalNodes Initializer.nodes declaration.initializer)

def declarations (expansion : Expansion) : List Declaration → Invoking Unit
  | [] => pure ()
  | first :: rest => do
    declaration expansion first
    declarations expansion rest

mutual

def statement (expansion : Expansion) : Statement → Invoking Statement
  | .block span entries => do
    enter
    let placed := placements expansion (← get).locals entries
    let entries ← statements expansion placed entries
    leave
    pure (.block span entries)
  | .declaration span given => do
    declarations expansion given
    pure (.declaration span given)
  | .ifElse span condition thenBranch none => do
    scan expansion condition.nodes
    return .ifElse span condition (← statement expansion thenBranch) none
  | .ifElse span condition thenBranch (some elseBranch) => do
    scan expansion condition.nodes
    let thenBranch ← statement expansion thenBranch
    return .ifElse span condition thenBranch (some (← statement expansion elseBranch))
  | .whileLoop span condition body => do
    scan expansion condition.nodes
    return .whileLoop span condition (← statement expansion body)
  | .forLoop span none condition update body => do
    scan expansion (optionalNodes Expr.nodes condition ++ optionalNodes Expr.nodes update)
    return .forLoop span none condition update (← statement expansion body)
  | .forLoop span (some init) condition update body => do
    enter
    let init ← statement expansion init
    scan expansion (optionalNodes Expr.nodes condition ++ optionalNodes Expr.nodes update)
    let body ← statement expansion body
    leave
    pure (.forLoop span (some init) condition update body)
  | .doWhile span body condition => do
    let body ← statement expansion body
    scan expansion condition.nodes
    pure (.doWhile span body condition)
  | .switch span subject body => do
    scan expansion subject.nodes
    return .switch span subject (← statement expansion body)
  | .caseLabel span value labelled => do
    scan expansion value.nodes
    return .caseLabel span value (← statement expansion labelled)
  | .defaultLabel span labelled => do
    return .defaultLabel span (← statement expansion labelled)
  | .labelled span label labelled => do
    return .labelled span label (← statement expansion labelled)
  | other => do
    scan expansion other.nodes
    pure other

def statements (expansion : Expansion) :
    List (Option (List Statement)) → List Statement → Invoking (List Statement)
  | _, [] => pure []
  | some plain :: placed, _ :: entries => do
    let plain ← plainStatements expansion plain
    return plain ++ (← statements expansion placed entries)
  | placed, entry :: entries => do
    declareStatement entry
    let first ← match invocation? expansion (← get).locals entry with
      | some call => do
        let call ← invoke expansion call
        pure (entry.replaceTopCall call)
      | none => statement expansion entry
    return first :: (← statements expansion placed.tail entries)

end

end Invoking

/-- Makes the calls of macros in a function invocations. A call of a macro must not be left over. -/
def Pass.invokeMacros (expansion : Expansion) : Pass Unit := do
  let work ← get
  let (body, state) :=
    (Invoking.statement expansion work.function.body).run ⟨.ofFunction work.function, work.registry, none⟩
  set (⟨{ work.function with body := body }, state.registry⟩ : Work)
  match state.stray with
  | none => pure ()
  | some call =>
    Pass.internal
      ("macroized call '" ++ call ++ "' in '" ++ work.function.name ++ "' is not a statement")

end InlineMacro
