import InlineMacro.Proofs.Scope.NodeUse
import InlineMacro.Proofs.Syntax.Traverse

/-!
# The nodes that a traversal meets

The list of a tree's nodes and the traversal that rebuilds the tree are two recursions over the same
forms. They meet the same nodes in the same order: a traversal that changes nothing is to enter the nodes
of the list one after another. So what is renamed by the one is found renamed by the other.
-/

set_option autoImplicit false

namespace InlineMacro

/-! ## Entering nodes -/

section Visits

variable {m : Type → Type} [Monad m] [LawfulMonad m] {traversal : Traversal m}

mutual

theorem Statement.traverse_visits (keeps : traversal.KeepsNames)
    (labels : ∀ label, traversal.label label = pure label) :
    ∀ statement : Statement, statement.traverse traversal = traversal.visit statement.nodes statement
  | .expression _ value => by
    simp [Statement.traverse, Statement.nodes, Traversal.visit, value.traverse_visits keeps]
  | .block _ statements => by
    simp [Statement.traverse, Statement.nodes, Traversal.visit,
      Statement.traverseList_visits keeps labels statements]
  | .declaration _ declarations => by
    simp [Statement.traverse, Statement.nodes, Traversal.visit,
      Declaration.traverseList_visits keeps declarations]
  | .typeDefinition _ type => by
    simp [Statement.traverse, Statement.nodes, Traversal.visit, type.traverse_visits keeps]
  | .ifElse _ condition thenBranch elseBranch => by
    simp [Statement.traverse, Statement.nodes, Traversal.visit, condition.traverse_visits keeps,
      thenBranch.traverse_visits keeps labels,
      Statement.traverseOptional_visits keeps labels elseBranch]
  | .whileLoop _ value body | .switch _ value body | .caseLabel _ value body => by
    simp [Statement.traverse, Statement.nodes, Traversal.visit, value.traverse_visits keeps,
      body.traverse_visits keeps labels]
  | .forLoop _ init condition update body => by
    simp [Statement.traverse, Statement.nodes, Traversal.visit,
      Statement.traverseOptional_visits keeps labels init,
      traverseOption_visits (Expr.traverse_visits keeps), body.traverse_visits keeps labels]
  | .doWhile _ body condition => by
    simp [Statement.traverse, Statement.nodes, Traversal.visit, body.traverse_visits keeps labels,
      condition.traverse_visits keeps]
  | .defaultLabel _ statement => by
    simp [Statement.traverse, Statement.nodes, Traversal.visit, statement.traverse_visits keeps labels]
  | .labelled _ _ statement => by
    simp [Statement.traverse, Statement.nodes, Traversal.visit, labels,
      statement.traverse_visits keeps labels]
  | .returnStatement _ value => by
    simp [Statement.traverse, Statement.nodes, Traversal.visit,
      traverseOption_visits (Expr.traverse_visits keeps)]
  | .gotoStatement .. | .breakStatement _ | .continueStatement _ | .empty _ => by
    simp [Statement.traverse, Statement.nodes, Traversal.visit, labels]

theorem Statement.traverseList_visits (keeps : traversal.KeepsNames)
    (labels : ∀ label, traversal.label label = pure label) : ∀ statements : List Statement,
    Statement.traverseList traversal statements = traversal.visit (Statement.listNodes statements) statements
  | [] => by simp [Statement.traverseList, Statement.listNodes, Traversal.visit]
  | statement :: statements => by
    simp [Statement.traverseList, Statement.listNodes, Traversal.visit,
      statement.traverse_visits keeps labels, Statement.traverseList_visits keeps labels statements]

theorem Statement.traverseOptional_visits (keeps : traversal.KeepsNames)
    (labels : ∀ label, traversal.label label = pure label) : ∀ part : Option Statement,
    Statement.traverseOptional traversal part = traversal.visit (Statement.optionNodes part) part
  | none => by simp [Statement.traverseOptional, Statement.optionNodes, Traversal.visit]
  | some statement => by
    simp [Statement.traverseOptional, Statement.optionNodes, Traversal.visit,
      statement.traverse_visits keeps labels]

end

theorem Item.traverse_visits (keeps : traversal.KeepsNames)
    (labels : ∀ label, traversal.label label = pure label) (item : Item) :
    item.traverse traversal = traversal.visit item.nodes item := by
  cases item with
  | function definition =>
    simp [traverse, nodes, Function.traverse, Function.nodes, Traversal.visit,
      CType.traverse_visits keeps, Parameter.traverseList_visits keeps,
      Statement.traverse_visits keeps labels]
  | declaration declared => simp [traverse, nodes, Traversal.visit, declared.traverse_visits keeps]
  | typeDefinition type => simp [traverse, nodes, Traversal.visit, type.traverse_visits keeps]
  | verbatim => simp [traverse, nodes, Traversal.visit]

theorem CompilationUnit.traverse_visits (keeps : traversal.KeepsNames)
    (labels : ∀ label, traversal.label label = pure label) (unit : CompilationUnit) :
    unit.traverse traversal = traversal.visit unit.nodes unit := by
  have items : ∀ items : List Item,
      Item.traverseList traversal items = traversal.visit (items.flatMap Item.nodes) items := by
    intro items
    induction items with
    | nil => simp [Item.traverseList, Traversal.visit]
    | cons item items ih =>
      simp [Item.traverseList, Traversal.visit, item.traverse_visits keeps labels, ih]
  simp [traverse, nodes, items, Traversal.visit]

end Visits

/-! ## Traversals without effects -/

/-- What a traversal without effects makes of a node. -/
def Node.traverse (traversal : Traversal Id) : Node → Node
  | function definition => .function (Id.run (definition.traverse traversal))
  | statement entry => .statement (Id.run (entry.traverse traversal))
  | declaration declared => .declaration (Id.run (declared.traverse traversal))
  | initializer given => .initializer (Id.run (given.traverse traversal))
  | expression value => .expression (Id.run (value.traverse traversal))
  | type given => .type (Id.run (given.traverse traversal))

section Traversed

variable (traversal : Traversal Id)

mutual

theorem CType.nodes_traverse : ∀ type : CType,
    (Id.run (type.traverse traversal)).nodes = type.nodes.map (Node.traverse traversal)
  | .basic _ | .record _ _ none | .enumeration _ none | .named _ => rfl
  | .pointer _ target | .array target none | .qualified _ target => congrArg (List.cons _) target.nodes_traverse
  | .array element (some size) => by
    simp [CType.traverse, CType.nodes, Node.traverse, element.nodes_traverse, size.nodes_traverse]
  | .function result parameters _ => by
    simp [CType.traverse, CType.nodes, Node.traverse, result.nodes_traverse, Parameter.nodes_traverse parameters]
  | .record _ _ (some fields) => congrArg (List.cons _) (Field.nodes_traverse fields)
  | .enumeration _ (some enumerators) => congrArg (List.cons _) (Enumerator.nodes_traverse enumerators)

theorem Parameter.nodes_traverse : ∀ parameters : List Parameter,
    Parameter.listNodes (Id.run (Parameter.traverseList traversal parameters)) =
      (Parameter.listNodes parameters).map (Node.traverse traversal)
  | [] => rfl
  | ⟨_, type, _⟩ :: rest => by
    simp [Parameter.traverseList, Parameter.listNodes, type.nodes_traverse, Parameter.nodes_traverse rest]

theorem Field.nodes_traverse : ∀ fields : List Field,
    Field.listNodes (Id.run (Field.traverseList traversal fields)) =
      (Field.listNodes fields).map (Node.traverse traversal)
  | [] => rfl
  | ⟨_, type, none⟩ :: rest => by
    simp [Field.traverseList, Field.listNodes, type.nodes_traverse, Field.nodes_traverse rest]
  | ⟨_, type, some width⟩ :: rest => by
    simp [Field.traverseList, Field.listNodes, type.nodes_traverse, width.nodes_traverse, Field.nodes_traverse rest]

theorem Enumerator.nodes_traverse : ∀ enumerators : List Enumerator,
    Enumerator.listNodes (Id.run (Enumerator.traverseList traversal enumerators)) =
      (Enumerator.listNodes enumerators).map (Node.traverse traversal)
  | [] => rfl
  | ⟨_, none⟩ :: rest => Enumerator.nodes_traverse rest
  | ⟨_, some value⟩ :: rest => by
    simp [Enumerator.traverseList, Enumerator.listNodes, value.nodes_traverse, Enumerator.nodes_traverse rest]

theorem Expr.nodes_traverse : ∀ value : Expr,
    (Id.run (value.traverse traversal)).nodes = value.nodes.map (Node.traverse traversal)
  | .intLiteral .. | .floatLiteral .. | .charLiteral .. | .stringLiteral .. | .identifier .. => rfl
  | .unary _ _ operand | .member _ operand _ _ | .sizeofExpr _ operand => congrArg (List.cons _) operand.nodes_traverse
  | .sizeofType _ type | .typeArgument _ type => congrArg (List.cons _) type.nodes_traverse
  | .binary _ _ left right => by
    simp [Expr.traverse, Expr.nodes, Node.traverse, left.nodes_traverse, right.nodes_traverse]
  | .call _ function arguments => by
    simp [Expr.traverse, Expr.nodes, Node.traverse, function.nodes_traverse, Expr.listNodes_traverse arguments]
  | .conditional _ condition thenValue elseValue => by
    simp [Expr.traverse, Expr.nodes, Node.traverse, condition.nodes_traverse, thenValue.nodes_traverse,
      elseValue.nodes_traverse]
  | .cast _ target operand => by
    simp [Expr.traverse, Expr.nodes, Node.traverse, target.nodes_traverse, operand.nodes_traverse]
  | .compoundLiteral _ type initializer => by
    simp [Expr.traverse, Expr.nodes, Node.traverse, type.nodes_traverse, initializer.nodes_traverse]
  | .comma _ parts => congrArg (List.cons _) (Expr.listNodes_traverse parts)

theorem Expr.listNodes_traverse : ∀ values : List Expr,
    Expr.listNodes (Id.run (Expr.traverseList traversal values)) =
      (Expr.listNodes values).map (Node.traverse traversal)
  | [] => rfl
  | value :: values => by
    simp [Expr.traverseList, Expr.listNodes, value.nodes_traverse, Expr.listNodes_traverse values]

theorem Initializer.nodes_traverse : ∀ initializer : Initializer,
    (Id.run (initializer.traverse traversal)).nodes = initializer.nodes.map (Node.traverse traversal)
  | .expression _ value => congrArg (List.cons _) value.nodes_traverse
  | .list _ items => congrArg (List.cons _) (Initializer.listNodes_traverse items)
  | .designated _ designators initializer => by
    simp [Initializer.traverse, Initializer.nodes, Node.traverse, Designator.nodes_traverse designators,
      initializer.nodes_traverse]

theorem Initializer.listNodes_traverse : ∀ items : List Initializer,
    Initializer.listNodes (Id.run (Initializer.traverseList traversal items)) =
      (Initializer.listNodes items).map (Node.traverse traversal)
  | [] => rfl
  | item :: items => by
    simp [Initializer.traverseList, Initializer.listNodes, item.nodes_traverse, Initializer.listNodes_traverse items]

theorem Designator.nodes_traverse : ∀ designators : List Designator,
    Designator.listNodes (Id.run (Designator.traverseList traversal designators)) =
      (Designator.listNodes designators).map (Node.traverse traversal)
  | [] => rfl
  | .index index :: rest => by
    simp [Designator.traverseList, Designator.listNodes, index.nodes_traverse, Designator.nodes_traverse rest]
  | .member _ :: rest => Designator.nodes_traverse rest

end

theorem optionalNodes_traverse {α : Type} {traverse : α → Id α} {nodes : α → List Node}
    (each : ∀ value, nodes (Id.run (traverse value)) = (nodes value).map (Node.traverse traversal))
    (part : Option α) : optionalNodes nodes (Id.run (traverseOption traverse part)) =
      (optionalNodes nodes part).map (Node.traverse traversal) := by
  cases part with
  | none => rfl
  | some value => exact each value

theorem Declaration.nodes_traverse (declaration : Declaration) :
    (Id.run (declaration.traverse traversal)).nodes = declaration.nodes.map (Node.traverse traversal) := by
  simp [Declaration.traverse, nodes, Node.traverse, CType.nodes_traverse,
    optionalNodes_traverse traversal (Initializer.nodes_traverse traversal)]

theorem Declaration.listNodes_traverse (declarations : List Declaration) :
    (Id.run (Declaration.traverseList traversal declarations)).flatMap nodes =
      (declarations.flatMap nodes).map (Node.traverse traversal) := by
  induction declarations with
  | nil => rfl
  | cons declaration rest ih => simp [traverseList, declaration.nodes_traverse traversal, ih]

mutual

theorem Statement.nodes_traverse : ∀ statement : Statement,
    (Id.run (statement.traverse traversal)).nodes = statement.nodes.map (Node.traverse traversal)
  | .expression _ value | .returnStatement _ (some value) => congrArg (List.cons _) (value.nodes_traverse traversal)
  | .block _ statements => congrArg (List.cons _) (Statement.listNodes_traverse statements)
  | .declaration _ declarations => congrArg (List.cons _) (Declaration.listNodes_traverse traversal declarations)
  | .typeDefinition _ type => congrArg (List.cons _) (type.nodes_traverse traversal)
  | .ifElse _ condition thenBranch elseBranch => by
    simp [Statement.traverse, Statement.nodes, Node.traverse, condition.nodes_traverse traversal,
      thenBranch.nodes_traverse, Statement.optionNodes_traverse elseBranch]
  | .whileLoop _ value body | .switch _ value body | .caseLabel _ value body
  | .doWhile _ body value => by
    simp [Statement.traverse, Statement.nodes, Node.traverse, value.nodes_traverse traversal, body.nodes_traverse]
  | .forLoop _ init condition update body => by
    simp [Statement.traverse, Statement.nodes, Node.traverse, Statement.optionNodes_traverse init,
      optionalNodes_traverse traversal (Expr.nodes_traverse traversal), body.nodes_traverse]
  | .defaultLabel _ statement | .labelled _ _ statement => congrArg (List.cons _) statement.nodes_traverse
  | .returnStatement _ none | .gotoStatement .. | .breakStatement _ | .continueStatement _
  | .empty _ => rfl

theorem Statement.listNodes_traverse : ∀ statements : List Statement,
    Statement.listNodes (Id.run (Statement.traverseList traversal statements)) =
      (Statement.listNodes statements).map (Node.traverse traversal)
  | [] => rfl
  | statement :: statements => by
    simp [Statement.traverseList, Statement.listNodes, statement.nodes_traverse,
      Statement.listNodes_traverse statements]

theorem Statement.optionNodes_traverse : ∀ part : Option Statement,
    Statement.optionNodes (Id.run (Statement.traverseOptional traversal part)) =
      (Statement.optionNodes part).map (Node.traverse traversal)
  | none => rfl
  | some statement => statement.nodes_traverse

end

theorem Item.nodes_traverse (item : Item) :
    (Id.run (item.traverse traversal)).nodes = item.nodes.map (Node.traverse traversal) := by
  cases item with
  | function definition =>
    simp [traverse, nodes, Function.traverse, Function.nodes, Node.traverse, CType.nodes_traverse,
      Parameter.nodes_traverse, Statement.nodes_traverse]
  | declaration declared => exact declared.nodes_traverse traversal
  | typeDefinition type => exact type.nodes_traverse traversal
  | verbatim => rfl

theorem CompilationUnit.nodes_traverse (unit : CompilationUnit) :
    (Id.run (unit.traverse traversal)).nodes = unit.nodes.map (Node.traverse traversal) := by
  obtain ⟨items, span⟩ := unit
  simp only [traverse, nodes, Id.run_bind, Id.run_pure]
  induction items with
  | nil => rfl
  | cons item items ih => simp [Item.traverseList, item.nodes_traverse traversal, ih]

theorem Node.identifier?_traverse (node : Node) :
    (node.traverse traversal).identifier? = node.identifier?.map traversal.renames := by
  cases node with
  | expression value => exact value.identifier?_traverse traversal
  | _ => rfl

theorem CompilationUnit.identifiers_traverse (unit : CompilationUnit) :
    Node.identifiers (Id.run (unit.traverse traversal)).nodes =
      (Node.identifiers unit.nodes).map traversal.renames := by
  unfold Node.identifiers
  rw [unit.nodes_traverse, List.filterMap_map, List.map_filterMap]
  exact congrArg (List.filterMap · _) (funext fun node => node.identifier?_traverse traversal)

end Traversed
/-- A traversal that enters nodes enters those of the list, one after another, and gives the unit back. One
that renames what is used gives a unit with the identifiers of the old one renamed, in their order. -/
theorem CompilationUnit.traverse_visits_nodes (unit : CompilationUnit) :
    (∀ {m : Type → Type} [Monad m] [LawfulMonad m] (enter : Node → m Unit),
      unit.traverse { enter := enter } = do unit.nodes.forM enter; return unit) ∧
    ∀ change : String → String,
      Node.identifiers (Id.run (unit.traverse { name := fun name => pure (change name) })).nodes =
        (Node.identifiers unit.nodes).map change := by
  constructor
  · intro m _ _ enter
    exact unit.traverse_visits ⟨fun _ => rfl, fun _ => rfl, fun _ => rfl⟩ fun _ => rfl
  · intro change
    exact unit.identifiers_traverse _

theorem CompilationUnit.traverse_visits_nodes_of_sized_array :
    ∃ unit : CompilationUnit, Node.identifiers unit.nodes = ["n", "g", "a"] ∧
      unit.traverse { enter := fun node => modify (· ++ [node]) : Traversal (StateM (List Node)) } =
        (do unit.nodes.forM fun node => modify (· ++ [node]); return unit) ∧
      Node.identifiers (Id.run (unit.traverse { name := fun name => pure (name ++ "_r") })).nodes =
        ["n_r", "g_r", "a_r"] := by
  -- `int f(int n) { int a[n]; return g(a); }`
  refine ⟨⟨[.function ⟨"f", .basic .int, [⟨some "n", .basic .int, .synthetic⟩], false,
    .block .synthetic [
      .declaration .synthetic [⟨"a", .array (.basic .int) (some (.identifier .synthetic "n")), none,
        false, none, .synthetic⟩],
      .returnStatement .synthetic (some (.call .synthetic (.identifier .synthetic "g")
        [.identifier .synthetic "a"]))], none, false, .synthetic⟩], .synthetic⟩, rfl,
    (CompilationUnit.traverse_visits_nodes _).1 _, ?_⟩
  exact (CompilationUnit.traverse_visits_nodes _).2 (· ++ "_r")

end InlineMacro
