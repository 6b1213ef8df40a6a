import InlineMacro.Syntax.Node

/-!
# Traversing trees

One traversal that keeps the shape of a tree and replaces the words in it: names that are used,
names that are declared, labels, and the spellings of integers. It meets the nodes in the order in
which `nodes` lists them, and the effects of the replacements happen in that order.
-/

set_option autoImplicit false

namespace InlineMacro

/-- What to do with the words of a tree, and on entering a node. -/
structure Traversal (m : Type → Type) [Monad m] where
  enter : Node → m Unit := fun _ => pure ()
  name : String → m String := pure
  integer : String → m String := pure
  declared : String → m String := pure
  label : String → m String := pure

variable {m : Type → Type} [Monad m]

mutual

def CType.traverse (traversal : Traversal m) : CType → m CType
  | .basic kind => do
    traversal.enter (.type (.basic kind))
    return .basic kind
  | .pointer qualifiers target => do
    traversal.enter (.type (.pointer qualifiers target))
    return .pointer qualifiers (← target.traverse traversal)
  | .array element none => do
    traversal.enter (.type (.array element none))
    return .array (← element.traverse traversal) none
  | .array element (some size) => do
    traversal.enter (.type (.array element (some size)))
    return .array (← element.traverse traversal) (some (← size.traverse traversal))
  | .function result parameters isVariadic => do
    traversal.enter (.type (.function result parameters isVariadic))
    return .function (← result.traverse traversal) (← Parameter.traverseList traversal parameters)
      isVariadic
  | .record kind tag none => do
    traversal.enter (.type (.record kind tag none))
    return .record kind tag none
  | .record kind tag (some fields) => do
    traversal.enter (.type (.record kind tag (some fields)))
    return .record kind tag (some (← Field.traverseList traversal fields))
  | .enumeration tag none => do
    traversal.enter (.type (.enumeration tag none))
    return .enumeration tag none
  | .enumeration tag (some enumerators) => do
    traversal.enter (.type (.enumeration tag (some enumerators)))
    return .enumeration tag (some (← Enumerator.traverseList traversal enumerators))
  | .named name => do
    traversal.enter (.type (.named name))
    return .named name
  | .qualified qualifiers inner => do
    traversal.enter (.type (.qualified qualifiers inner))
    return .qualified qualifiers (← inner.traverse traversal)

def Parameter.traverseList (traversal : Traversal m) : List Parameter → m (List Parameter)
  | [] => return []
  | ⟨name, type, span⟩ :: rest => do
    let type ← type.traverse traversal
    return ⟨name, type, span⟩ :: (← Parameter.traverseList traversal rest)

def Field.traverseList (traversal : Traversal m) : List Field → m (List Field)
  | [] => return []
  | ⟨name, type, none⟩ :: rest => do
    let type ← type.traverse traversal
    return ⟨name, type, none⟩ :: (← Field.traverseList traversal rest)
  | ⟨name, type, some width⟩ :: rest => do
    let type ← type.traverse traversal
    let width ← width.traverse traversal
    return ⟨name, type, some width⟩ :: (← Field.traverseList traversal rest)

def Enumerator.traverseList (traversal : Traversal m) : List Enumerator → m (List Enumerator)
  | [] => return []
  | ⟨name, none⟩ :: rest => return ⟨name, none⟩ :: (← Enumerator.traverseList traversal rest)
  | ⟨name, some value⟩ :: rest => do
    let value ← value.traverse traversal
    return ⟨name, some value⟩ :: (← Enumerator.traverseList traversal rest)

def Expr.traverse (traversal : Traversal m) : Expr → m Expr
  | .intLiteral span spelling => do
    traversal.enter (.expression (.intLiteral span spelling))
    return .intLiteral span (← traversal.integer spelling)
  | .floatLiteral span spelling => do
    traversal.enter (.expression (.floatLiteral span spelling))
    return .floatLiteral span spelling
  | .charLiteral span spelling => do
    traversal.enter (.expression (.charLiteral span spelling))
    return .charLiteral span spelling
  | .stringLiteral span pieces => do
    traversal.enter (.expression (.stringLiteral span pieces))
    return .stringLiteral span pieces
  | .identifier span name => do
    traversal.enter (.expression (.identifier span name))
    return .identifier span (← traversal.name name)
  | .binary span operator left right => do
    traversal.enter (.expression (.binary span operator left right))
    return .binary span operator (← left.traverse traversal) (← right.traverse traversal)
  | .unary span operator operand => do
    traversal.enter (.expression (.unary span operator operand))
    return .unary span operator (← operand.traverse traversal)
  | .call span function arguments => do
    traversal.enter (.expression (.call span function arguments))
    return .call span (← function.traverse traversal) (← Expr.traverseList traversal arguments)
  | .member span object name throughPointer => do
    traversal.enter (.expression (.member span object name throughPointer))
    return .member span (← object.traverse traversal) name throughPointer
  | .conditional span condition thenValue elseValue => do
    traversal.enter (.expression (.conditional span condition thenValue elseValue))
    return .conditional span (← condition.traverse traversal) (← thenValue.traverse traversal)
      (← elseValue.traverse traversal)
  | .cast span target operand => do
    traversal.enter (.expression (.cast span target operand))
    return .cast span (← target.traverse traversal) (← operand.traverse traversal)
  | .sizeofExpr span operand => do
    traversal.enter (.expression (.sizeofExpr span operand))
    return .sizeofExpr span (← operand.traverse traversal)
  | .sizeofType span type => do
    traversal.enter (.expression (.sizeofType span type))
    return .sizeofType span (← type.traverse traversal)
  | .compoundLiteral span type initializer => do
    traversal.enter (.expression (.compoundLiteral span type initializer))
    return .compoundLiteral span (← type.traverse traversal) (← initializer.traverse traversal)
  | .comma span parts => do
    traversal.enter (.expression (.comma span parts))
    return .comma span (← Expr.traverseList traversal parts)
  | .typeArgument span type => do
    traversal.enter (.expression (.typeArgument span type))
    return .typeArgument span (← type.traverse traversal)

def Expr.traverseList (traversal : Traversal m) : List Expr → m (List Expr)
  | [] => return []
  | part :: parts => do
    let part ← part.traverse traversal
    return part :: (← Expr.traverseList traversal parts)

def Initializer.traverse (traversal : Traversal m) : Initializer → m Initializer
  | .expression span value => do
    traversal.enter (.initializer (.expression span value))
    return .expression span (← value.traverse traversal)
  | .list span items => do
    traversal.enter (.initializer (.list span items))
    return .list span (← Initializer.traverseList traversal items)
  | .designated span designators initializer => do
    traversal.enter (.initializer (.designated span designators initializer))
    return .designated span (← Designator.traverseList traversal designators)
      (← initializer.traverse traversal)

def Initializer.traverseList (traversal : Traversal m) : List Initializer → m (List Initializer)
  | [] => return []
  | item :: items => do
    let item ← item.traverse traversal
    return item :: (← Initializer.traverseList traversal items)

def Designator.traverseList (traversal : Traversal m) : List Designator → m (List Designator)
  | [] => return []
  | .index index :: rest => do
    let index ← index.traverse traversal
    return .index index :: (← Designator.traverseList traversal rest)
  | .member name :: rest => return .member name :: (← Designator.traverseList traversal rest)

end

def traverseOption {α : Type} (traverse : α → m α) : Option α → m (Option α)
  | none => return none
  | some value => return some (← traverse value)

def Declaration.traverse (traversal : Traversal m) (declaration : Declaration) : m Declaration := do
  traversal.enter (.declaration declaration)
  let name ← traversal.declared declaration.name
  let type ← declaration.type.traverse traversal
  let initializer ← traverseOption (Initializer.traverse traversal) declaration.initializer
  return { declaration with name := name, type := type, initializer := initializer }

def Declaration.traverseList (traversal : Traversal m) : List Declaration → m (List Declaration)
  | [] => return []
  | declaration :: rest => do
    let declaration ← declaration.traverse traversal
    return declaration :: (← Declaration.traverseList traversal rest)

mutual

def Statement.traverse (traversal : Traversal m) : Statement → m Statement
  | .expression span value => do
    traversal.enter (.statement (.expression span value))
    return .expression span (← value.traverse traversal)
  | .block span statements => do
    traversal.enter (.statement (.block span statements))
    return .block span (← Statement.traverseList traversal statements)
  | .declaration span declarations => do
    traversal.enter (.statement (.declaration span declarations))
    return .declaration span (← Declaration.traverseList traversal declarations)
  | .typeDefinition span type => do
    traversal.enter (.statement (.typeDefinition span type))
    return .typeDefinition span (← type.traverse traversal)
  | .ifElse span condition thenBranch elseBranch => do
    traversal.enter (.statement (.ifElse span condition thenBranch elseBranch))
    return .ifElse span (← condition.traverse traversal) (← thenBranch.traverse traversal)
      (← Statement.traverseOptional traversal elseBranch)
  | .whileLoop span condition body => do
    traversal.enter (.statement (.whileLoop span condition body))
    return .whileLoop span (← condition.traverse traversal) (← body.traverse traversal)
  | .forLoop span init condition update body => do
    traversal.enter (.statement (.forLoop span init condition update body))
    return .forLoop span (← Statement.traverseOptional traversal init)
      (← traverseOption (Expr.traverse traversal) condition)
      (← traverseOption (Expr.traverse traversal) update) (← body.traverse traversal)
  | .doWhile span body condition => do
    traversal.enter (.statement (.doWhile span body condition))
    return .doWhile span (← body.traverse traversal) (← condition.traverse traversal)
  | .switch span subject body => do
    traversal.enter (.statement (.switch span subject body))
    return .switch span (← subject.traverse traversal) (← body.traverse traversal)
  | .caseLabel span value statement => do
    traversal.enter (.statement (.caseLabel span value statement))
    return .caseLabel span (← value.traverse traversal) (← statement.traverse traversal)
  | .defaultLabel span statement => do
    traversal.enter (.statement (.defaultLabel span statement))
    return .defaultLabel span (← statement.traverse traversal)
  | .breakStatement span => do
    traversal.enter (.statement (.breakStatement span))
    return .breakStatement span
  | .continueStatement span => do
    traversal.enter (.statement (.continueStatement span))
    return .continueStatement span
  | .returnStatement span value => do
    traversal.enter (.statement (.returnStatement span value))
    return .returnStatement span (← traverseOption (Expr.traverse traversal) value)
  | .gotoStatement span label => do
    traversal.enter (.statement (.gotoStatement span label))
    return .gotoStatement span (← traversal.label label)
  | .labelled span label statement => do
    traversal.enter (.statement (.labelled span label statement))
    return .labelled span (← traversal.label label) (← statement.traverse traversal)
  | .empty span => do
    traversal.enter (.statement (.empty span))
    return .empty span

def Statement.traverseList (traversal : Traversal m) : List Statement → m (List Statement)
  | [] => return []
  | statement :: statements => do
    let statement ← statement.traverse traversal
    return statement :: (← Statement.traverseList traversal statements)

def Statement.traverseOptional (traversal : Traversal m) : Option Statement → m (Option Statement)
  | none => return none
  | some statement => return some (← statement.traverse traversal)

end

/-- Traverses a function. The names of its parameters are no declarations of their own. -/
def Function.traverse (traversal : Traversal m) (function : Function) : m Function := do
  traversal.enter (.function function)
  let result ← function.result.traverse traversal
  let parameters ← Parameter.traverseList traversal function.parameters
  let body ← function.body.traverse traversal
  return { function with result := result, parameters := parameters, body := body }

def Item.traverse (traversal : Traversal m) : Item → m Item
  | function definition => return .function (← definition.traverse traversal)
  | declaration declared => return .declaration (← declared.traverse traversal)
  | typeDefinition type span => return .typeDefinition (← type.traverse traversal) span
  | verbatim text span => return .verbatim text span

def Item.traverseList (traversal : Traversal m) : List Item → m (List Item)
  | [] => return []
  | item :: items => do
    let item ← item.traverse traversal
    return item :: (← Item.traverseList traversal items)

def CompilationUnit.traverse (traversal : Traversal m) (unit : CompilationUnit) :
    m CompilationUnit := do
  return { unit with items := ← Item.traverseList traversal unit.items }

end InlineMacro
