import InlineMacro.Syntax.Node

/-!
# Normal form of a function's body

Bodies of branches and loops become blocks, an `if` gets its `else`, and what a label marks becomes
a block too, unless it is empty or another label. Then each block puts its declarations first: a
declaration whose initializer calls something is taken apart into a declaration and an assignment,
and the declaration moves up if nothing before it can tell the difference.
-/

set_option autoImplicit false

namespace InlineMacro

namespace Statement

def isLabelled : Statement → Bool
  | caseLabel .. | defaultLabel .. | labelled .. => true
  | _ => false

def blockOf (statement becomes : Statement) : Statement :=
  if statement.isBlock then becomes else .block statement.span [becomes]

def labelledBlockOf (statement becomes : Statement) : Statement :=
  if statement.isLabelled || statement.isEmpty then becomes else statement.blockOf becomes

mutual

def brace : Statement → Statement
  | .block span statements => .block span (braceList statements)
  | .ifElse span condition thenBranch none =>
    .ifElse span condition (thenBranch.blockOf thenBranch.brace) (some (.ofList []))
  | .ifElse span condition thenBranch (some elseBranch) =>
    .ifElse span condition (thenBranch.blockOf thenBranch.brace)
      (some (elseBranch.blockOf elseBranch.brace))
  | .whileLoop span condition body => .whileLoop span condition (body.blockOf body.brace)
  | .forLoop span none condition update body =>
    .forLoop span none condition update (body.blockOf body.brace)
  | .forLoop span (some init) condition update body =>
    .forLoop span (some init.brace) condition update (body.blockOf body.brace)
  | .doWhile span body condition => .doWhile span (body.blockOf body.brace) condition
  | .switch span subject body => .switch span subject (body.blockOf body.brace)
  | .caseLabel span value statement =>
    .caseLabel span value (statement.labelledBlockOf statement.brace)
  | .defaultLabel span statement => .defaultLabel span (statement.labelledBlockOf statement.brace)
  | .labelled span label statement =>
    .labelled span label (statement.labelledBlockOf statement.brace)
  | statement => statement

def braceList : List Statement → List Statement
  | [] => []
  | statement :: statements => statement.brace :: braceList statements

end

end Statement

/-! ## Declarations first -/

def Expr.containsCall (expr : Expr) : Bool :=
  expr.nodes.any fun
    | .expression (.call ..) => true
    | _ => false

def Statement.mention (statements : List Statement) (name : String) : Bool :=
  (Statement.listNodes statements).any fun
    | .expression value => value.identifier? == some name
    | _ => false

namespace Declaration

/-- Whether the declaration of an object can be parted from its first value. -/
def isSplittable (declaration : Declaration) : Bool :=
  (declaration.storage == none || declaration.storage == some .auto ||
    declaration.storage == some .register) &&
  !declaration.isInline && !declaration.type.isArray && !declaration.type.isConst &&
  !declaration.type.isFunction

/-- Whether the declaration has to be taken apart: it calls something for its first value. -/
def needsSplit (declaration : Declaration) : Bool :=
  declaration.isSplittable &&
    match declaration.initializer with
    | some (.expression _ value) => value.containsCall
    | _ => false

end Declaration

/-- The parts of a block while it is put into order: the declarations it starts with, those moved
up behind them, and the rest. A statement of the rest is kept twice, as it was and as what becomes
of it, because only what it was decides what may move over it. -/
structure BlockParts where
  leading : List Statement := []
  hoisted : List Statement := []
  rest : List (Statement × Statement) := []
  inLeading : Bool := true
  canHoist : Bool := true

namespace BlockParts

def keep (parts : BlockParts) (statement : Statement) : BlockParts :=
  { parts with rest := parts.rest ++ [(statement, statement)] }

def hoist (parts : BlockParts) (declaration : Declaration) : BlockParts :=
  { parts with hoisted := parts.hoisted ++ [.ofDeclaration declaration] }

/-- Whether a declaration may move up: its type needs nothing that was declared in between, and
nothing in between uses its name. -/
def canMove (parts : BlockParts) (declaration : Declaration) : Bool :=
  parts.canHoist && declaration.isSplittable &&
    !Statement.mention (parts.rest.map Prod.fst) declaration.name

/-- Adds a declaration behind the leading ones. -/
def addDeclaration (parts : BlockParts) (declaration : Declaration) : BlockParts :=
  if parts.canMove declaration then
    match declaration.initializer with
    | none => parts.hoist declaration
    | some (.expression _ value) =>
      let target := Expr.identifier declaration.span declaration.name
      (parts.hoist { declaration with initializer := none }).keep
        (.expression declaration.span (.assignment target value))
    | some _ => parts.keep (.ofDeclaration declaration)
  else
    { parts.keep (.ofDeclaration declaration) with
      canHoist := parts.canHoist && !declaration.isTypedef }

def add (parts : BlockParts) (statement becomes : Statement) : BlockParts :=
  match statement with
  | .declaration _ declarations =>
    if parts.inLeading && !declarations.any Declaration.needsSplit then
      { parts with leading := parts.leading ++ [statement] }
    else declarations.foldl addDeclaration { parts with inLeading := false }
  | _ =>
    if parts.inLeading && statement.isDeclaration then
      { parts with leading := parts.leading ++ [statement] }
    else
      { parts with
        inLeading := false
        canHoist := parts.canHoist && !statement.isDeclaration
        rest := parts.rest ++ [(statement, becomes)] }

def statements (parts : BlockParts) : List Statement :=
  parts.leading ++ parts.hoisted ++ parts.rest.map Prod.snd

end BlockParts

def splitBlock (statements becomes : List Statement) : List Statement :=
  ((statements.zip becomes).foldl (fun parts entry => parts.add entry.1 entry.2)
    ({} : BlockParts)).statements

namespace Statement

mutual

def splitDeclarations : Statement → Statement
  | .block span statements => .block span (splitBlock statements (splitDeclarationsList statements))
  | .ifElse span condition thenBranch none =>
    .ifElse span condition thenBranch.splitDeclarations none
  | .ifElse span condition thenBranch (some elseBranch) =>
    .ifElse span condition thenBranch.splitDeclarations (some elseBranch.splitDeclarations)
  | .whileLoop span condition body => .whileLoop span condition body.splitDeclarations
  | .forLoop span none condition update body =>
    .forLoop span none condition update body.splitDeclarations
  | .forLoop span (some init) condition update body =>
    .forLoop span (some init.splitDeclarations) condition update body.splitDeclarations
  | .doWhile span body condition => .doWhile span body.splitDeclarations condition
  | .switch span subject body => .switch span subject body.splitDeclarations
  | .caseLabel span value statement => .caseLabel span value statement.splitDeclarations
  | .defaultLabel span statement => .defaultLabel span statement.splitDeclarations
  | .labelled span label statement => .labelled span label statement.splitDeclarations
  | statement => statement

def splitDeclarationsList : List Statement → List Statement
  | [] => []
  | statement :: statements => statement.splitDeclarations :: splitDeclarationsList statements

end

end Statement

def Function.normalize (function : Function) : Function :=
  { function with body := function.body.brace.splitDeclarations }

end InlineMacro
