import InlineMacro.Syntax.Tree

/-!
# The nodes of a tree

Every part of a tree in the order in which it is written, a node before its parts. The only parts
that stand out of order are those of a declarator, where the type a derived type is derived from
comes first, and the condition of a `do` loop, which comes last.
-/

set_option autoImplicit false

namespace InlineMacro

/-- A part of a tree. -/
inductive Node where
  | function (definition : Function)
  | statement (statement : Statement)
  | declaration (declaration : Declaration)
  | initializer (initializer : Initializer)
  | expression (value : Expr)
  | type (type : CType)

mutual

def CType.nodes : CType → List Node
  | .basic kind => [.type (.basic kind)]
  | .pointer qualifiers target => .type (.pointer qualifiers target) :: target.nodes
  | .array element none => .type (.array element none) :: element.nodes
  | .array element (some size) =>
    .type (.array element (some size)) :: (element.nodes ++ size.nodes)
  | .function result parameters isVariadic =>
    .type (.function result parameters isVariadic) ::
      (result.nodes ++ Parameter.listNodes parameters)
  | .record kind tag none => [.type (.record kind tag none)]
  | .record kind tag (some fields) =>
    .type (.record kind tag (some fields)) :: Field.listNodes fields
  | .enumeration tag none => [.type (.enumeration tag none)]
  | .enumeration tag (some enumerators) =>
    .type (.enumeration tag (some enumerators)) :: Enumerator.listNodes enumerators
  | .named name => [.type (.named name)]
  | .qualified qualifiers inner => .type (.qualified qualifiers inner) :: inner.nodes

def Parameter.listNodes : List Parameter → List Node
  | [] => []
  | ⟨_, type, _⟩ :: rest => type.nodes ++ Parameter.listNodes rest

def Field.listNodes : List Field → List Node
  | [] => []
  | ⟨_, type, none⟩ :: rest => type.nodes ++ Field.listNodes rest
  | ⟨_, type, some width⟩ :: rest => type.nodes ++ width.nodes ++ Field.listNodes rest

def Enumerator.listNodes : List Enumerator → List Node
  | [] => []
  | ⟨_, none⟩ :: rest => Enumerator.listNodes rest
  | ⟨_, some value⟩ :: rest => value.nodes ++ Enumerator.listNodes rest

def Expr.nodes : Expr → List Node
  | .intLiteral span spelling => [.expression (.intLiteral span spelling)]
  | .floatLiteral span spelling => [.expression (.floatLiteral span spelling)]
  | .charLiteral span spelling => [.expression (.charLiteral span spelling)]
  | .stringLiteral span pieces => [.expression (.stringLiteral span pieces)]
  | .identifier span name => [.expression (.identifier span name)]
  | .binary span operator left right =>
    .expression (.binary span operator left right) :: (left.nodes ++ right.nodes)
  | .unary span operator operand => .expression (.unary span operator operand) :: operand.nodes
  | .call span function arguments =>
    .expression (.call span function arguments) :: (function.nodes ++ Expr.listNodes arguments)
  | .member span object name throughPointer =>
    .expression (.member span object name throughPointer) :: object.nodes
  | .conditional span condition thenValue elseValue =>
    .expression (.conditional span condition thenValue elseValue) ::
      (condition.nodes ++ thenValue.nodes ++ elseValue.nodes)
  | .cast span target operand =>
    .expression (.cast span target operand) :: (target.nodes ++ operand.nodes)
  | .sizeofExpr span operand => .expression (.sizeofExpr span operand) :: operand.nodes
  | .sizeofType span type => .expression (.sizeofType span type) :: type.nodes
  | .compoundLiteral span type initializer =>
    .expression (.compoundLiteral span type initializer) :: (type.nodes ++ initializer.nodes)
  | .comma span parts => .expression (.comma span parts) :: Expr.listNodes parts
  | .typeArgument span type => .expression (.typeArgument span type) :: type.nodes

def Expr.listNodes : List Expr → List Node
  | [] => []
  | part :: parts => part.nodes ++ Expr.listNodes parts

def Initializer.nodes : Initializer → List Node
  | .expression span value => .initializer (.expression span value) :: value.nodes
  | .list span items => .initializer (.list span items) :: Initializer.listNodes items
  | .designated span designators initializer =>
    .initializer (.designated span designators initializer) ::
      (Designator.listNodes designators ++ initializer.nodes)

def Initializer.listNodes : List Initializer → List Node
  | [] => []
  | item :: items => item.nodes ++ Initializer.listNodes items

def Designator.listNodes : List Designator → List Node
  | [] => []
  | .index index :: rest => index.nodes ++ Designator.listNodes rest
  | .member _ :: rest => Designator.listNodes rest

end

def optionalNodes {α : Type} (nodes : α → List Node) : Option α → List Node
  | none => []
  | some value => nodes value

def Declaration.nodes (declaration : Declaration) : List Node :=
  .declaration declaration ::
    (declaration.type.nodes ++ optionalNodes Initializer.nodes declaration.initializer)

mutual

def Statement.nodes : Statement → List Node
  | .expression span value => .statement (.expression span value) :: value.nodes
  | .block span statements => .statement (.block span statements) :: Statement.listNodes statements
  | .declaration span declarations =>
    .statement (.declaration span declarations) :: declarations.flatMap Declaration.nodes
  | .typeDefinition span type => .statement (.typeDefinition span type) :: type.nodes
  | .ifElse span condition thenBranch elseBranch =>
    .statement (.ifElse span condition thenBranch elseBranch) ::
      (condition.nodes ++ thenBranch.nodes ++ Statement.optionNodes elseBranch)
  | .whileLoop span condition body =>
    .statement (.whileLoop span condition body) :: (condition.nodes ++ body.nodes)
  | .forLoop span init condition update body =>
    .statement (.forLoop span init condition update body) ::
      (Statement.optionNodes init ++ optionalNodes Expr.nodes condition ++
        optionalNodes Expr.nodes update ++ body.nodes)
  | .doWhile span body condition =>
    .statement (.doWhile span body condition) :: (body.nodes ++ condition.nodes)
  | .switch span subject body =>
    .statement (.switch span subject body) :: (subject.nodes ++ body.nodes)
  | .caseLabel span value statement =>
    .statement (.caseLabel span value statement) :: (value.nodes ++ statement.nodes)
  | .defaultLabel span statement => .statement (.defaultLabel span statement) :: statement.nodes
  | .breakStatement span => [.statement (.breakStatement span)]
  | .continueStatement span => [.statement (.continueStatement span)]
  | .returnStatement span value =>
    .statement (.returnStatement span value) :: optionalNodes Expr.nodes value
  | .gotoStatement span label => [.statement (.gotoStatement span label)]
  | .labelled span label statement => .statement (.labelled span label statement) :: statement.nodes
  | .empty span => [.statement (.empty span)]

def Statement.listNodes : List Statement → List Node
  | [] => []
  | statement :: statements => statement.nodes ++ Statement.listNodes statements

def Statement.optionNodes : Option Statement → List Node
  | none => []
  | some statement => statement.nodes

end

def Function.nodes (function : Function) : List Node :=
  .function function ::
    (function.result.nodes ++ Parameter.listNodes function.parameters ++ function.body.nodes)

def Item.nodes : Item → List Node
  | function definition => definition.nodes
  | declaration declared => declared.nodes
  | typeDefinition type _ => type.nodes
  | verbatim _ _ => []

def CompilationUnit.nodes (unit : CompilationUnit) : List Node :=
  unit.items.flatMap Item.nodes

end InlineMacro
