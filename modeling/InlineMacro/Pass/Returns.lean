import InlineMacro.Failure
import InlineMacro.Pass.Flatten
import InlineMacro.Syntax.Traversal

/-!
# Bodies without returns

A function that returns a value stores it through a pointer instead, which becomes its first
parameter. Then every return becomes a jump to one label at the end of the body. Both replace the
returns that are statements of a block; a function in normal form has no others.
-/

set_option autoImplicit false

namespace InlineMacro

/-- A function on its way to a macro, and the registry. What a pass has done stays done when it
fails. -/
structure Work where
  function : Function
  registry : Registry

abbrev Pass := EStateM Failure Work

namespace Pass

def fresh (stem : String) : Pass String :=
  modifyGet fun work =>
    let (name, registry) := Registry.fresh stem work.registry
    (name, { work with registry := registry })

def update (change : Function → Function) : Pass Unit :=
  modify fun work => { work with function := change work.function }

def internal {α : Type} (message : String) : Pass α := throw (.internal message)

end Pass

/-! ## Replacing the returns of blocks -/

abbrev ReturnReplacement := Span → Option Expr → Option (List Statement)

namespace Statement

def replacedReturn? (replacement : ReturnReplacement) : Statement → Option (List Statement)
  | .returnStatement span value => replacement span value
  | _ => none

mutual

def replaceReturns (replacement : ReturnReplacement) : Statement → Statement
  | .block span statements => .block span (replaceReturnsList replacement statements)
  | .ifElse span condition thenBranch none =>
    .ifElse span condition (thenBranch.replaceReturns replacement) none
  | .ifElse span condition thenBranch (some elseBranch) =>
    .ifElse span condition (thenBranch.replaceReturns replacement)
      (some (elseBranch.replaceReturns replacement))
  | .whileLoop span condition body =>
    .whileLoop span condition (body.replaceReturns replacement)
  | .forLoop span none condition update body =>
    .forLoop span none condition update (body.replaceReturns replacement)
  | .forLoop span (some init) condition update body =>
    .forLoop span (some (init.replaceReturns replacement)) condition update
      (body.replaceReturns replacement)
  | .doWhile span body condition => .doWhile span (body.replaceReturns replacement) condition
  | .switch span subject body => .switch span subject (body.replaceReturns replacement)
  | .caseLabel span value statement =>
    .caseLabel span value (statement.replaceReturns replacement)
  | .defaultLabel span statement => .defaultLabel span (statement.replaceReturns replacement)
  | .labelled span label statement =>
    .labelled span label (statement.replaceReturns replacement)
  | statement => statement

/-- Replaces the returns among the statements of a block, and those further inside. -/
def replaceReturnsList (replacement : ReturnReplacement) : List Statement → List Statement
  | [] => []
  | statement :: statements =>
    (statement.replacedReturn? replacement).getD [statement.replaceReturns replacement] ++
      replaceReturnsList replacement statements

end

mutual

def hasMisplacedReturn (replacement : ReturnReplacement) : Statement → Bool
  | .returnStatement span value => (replacement span value).isSome
  | .block _ statements => listHasMisplacedReturn replacement statements
  | .ifElse _ _ thenBranch none => thenBranch.hasMisplacedReturn replacement
  | .ifElse _ _ thenBranch (some elseBranch) =>
    thenBranch.hasMisplacedReturn replacement || elseBranch.hasMisplacedReturn replacement
  | .whileLoop _ _ body => body.hasMisplacedReturn replacement
  | .forLoop _ none _ _ body => body.hasMisplacedReturn replacement
  | .forLoop _ (some init) _ _ body =>
    init.hasMisplacedReturn replacement || body.hasMisplacedReturn replacement
  | .doWhile _ body _ => body.hasMisplacedReturn replacement
  | .switch _ _ body => body.hasMisplacedReturn replacement
  | .caseLabel _ _ statement => statement.hasMisplacedReturn replacement
  | .defaultLabel _ statement => statement.hasMisplacedReturn replacement
  | .labelled _ _ statement => statement.hasMisplacedReturn replacement
  | _ => false

def listHasMisplacedReturn (replacement : ReturnReplacement) : List Statement → Bool
  | [] => false
  | statement :: statements =>
    ((statement.replacedReturn? replacement).isNone &&
      statement.hasMisplacedReturn replacement) ||
      listHasMisplacedReturn replacement statements

end

def hasReturn (statement : Statement) : Bool :=
  statement.nodes.any fun
    | .statement (.returnStatement ..) => true
    | _ => false

end Statement

/-- Replaces the returns of a function; none may be misplaced. -/
def Pass.replaceReturns (replacement : ReturnReplacement) : Pass Unit := do
  let function := (← get).function
  Pass.update fun function =>
    { function with body := function.body.replaceReturns replacement }
  if function.body.hasMisplacedReturn replacement then
    Pass.internal ("'" ++ function.name ++ "' has a return outside a block after normalization")

/-! ## Values through a pointer -/

def storeThrough (pointer : String) : ReturnReplacement
  | _, none => none
  | span, some value =>
    some [.expression span (.assignment (.dereference (.ofName pointer)) value),
      .returnStatement span none]

/-- Makes a function store its value through a pointer, which becomes its first parameter. The name
of that parameter is returned. -/
def Pass.returnThroughPointer : Pass String := do
  let pointer ← Pass.fresh "retval"
  Pass.update fun function =>
    let own := if function.hasNoParameters then [] else function.parameters
    { function with
      parameters := ⟨some pointer, .pointerTo function.result.valueType, function.span⟩ :: own
      result := .basic .void }
  Pass.replaceReturns (storeThrough pointer)
  pure pointer

/-! ## One way out -/

def jumpTo (label : String) : ReturnReplacement
  | span, none => some [.gotoStatement span label]
  | span, some value => some [.expression span value, .gotoStatement span label]

/-- Makes every return a jump to a label at the end of the body. A body without returns stays as
it is and gets no label. -/
def Pass.linearize : Pass (Option String) := do
  if !(← get).function.body.hasReturn then pure none
  else
    let exit ← Pass.fresh "exit"
    Pass.replaceReturns (jumpTo exit)
    let function := (← get).function
    if !function.body.isBlock then Pass.internal ("'" ++ function.name ++ "' has no body block")
    Pass.update fun function =>
      { function with
        body := function.body.followedBy
          [.labelled .synthetic exit (.empty .synthetic)] }
    pure (some exit)

/-! ## Labels of an expansion -/

def Function.appendNamespace (namespaceName : String) (function : Function) : Function :=
  let traversal : Traversal Id := { label := fun label => pure (namespaceName ++ " ## " ++ label) }
  { function with body := Id.run (function.body.traverse traversal) }

end InlineMacro
