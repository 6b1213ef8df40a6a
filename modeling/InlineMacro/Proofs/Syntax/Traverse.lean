import InlineMacro.Proofs.Scope.PlacedUse
import InlineMacro.Syntax.Traversal
import Mathlib.Logic.Basic

/-!
# Trees behind a traversal

A traversal without effects renames the uses in a tree and leaves the shape of the tree, so the
places of the uses stay what they were.
-/

set_option autoImplicit false

namespace InlineMacro

def Use.rename (change : String → String) : Use → Use
  | called name => .called (change name)
  | mentioned name => .mentioned (change name)

def Traversal.renames (traversal : Traversal Id) (name : String) : String :=
  Id.run (traversal.name name)

variable (traversal : Traversal Id)

theorem Expr.identifier?_traverse (value : Expr) :
    (Id.run (value.traverse traversal)).identifier? = value.identifier?.map traversal.renames := by
  cases value <;> rfl

mutual

theorem CType.uses_traverse : ∀ type : CType,
    (Id.run (type.traverse traversal)).uses = type.uses.map (Use.rename traversal.renames)
  | .basic _ | .record _ _ none | .enumeration _ none | .named _ => rfl
  | .pointer _ target => target.uses_traverse
  | .array element none => element.uses_traverse
  | .array element (some size) => by
    simp only [CType.traverse, CType.uses, List.map_append, ← element.uses_traverse, ← size.uses_traverse]
    rfl
  | .function result parameters _ => by
    simp only [CType.traverse, CType.uses, List.map_append, ← result.uses_traverse,
      ← Parameter.listUses_traverse parameters]
    rfl
  | .record _ _ (some fields) => Field.listUses_traverse fields
  | .enumeration _ (some enumerators) => Enumerator.listUses_traverse enumerators
  | .qualified _ inner => inner.uses_traverse

theorem Parameter.listUses_traverse : ∀ parameters : List Parameter,
    Parameter.listUses (Id.run (Parameter.traverseList traversal parameters)) =
      (Parameter.listUses parameters).map (Use.rename traversal.renames)
  | [] => rfl
  | ⟨_, type, _⟩ :: rest => by
    simp only [Parameter.listUses, List.map_append, ← type.uses_traverse, ← Parameter.listUses_traverse rest]
    rfl

theorem Field.listUses_traverse : ∀ fields : List Field,
    Field.listUses (Id.run (Field.traverseList traversal fields)) =
      (Field.listUses fields).map (Use.rename traversal.renames)
  | [] => rfl
  | ⟨_, type, none⟩ :: rest => by
    simp only [Field.listUses, List.map_append, ← type.uses_traverse, ← Field.listUses_traverse rest]
    rfl
  | ⟨_, type, some width⟩ :: rest => by
    simp only [Field.listUses, List.map_append, ← type.uses_traverse, ← width.uses_traverse,
      ← Field.listUses_traverse rest]
    rfl

theorem Enumerator.listUses_traverse : ∀ enumerators : List Enumerator,
    Enumerator.listUses (Id.run (Enumerator.traverseList traversal enumerators)) =
      (Enumerator.listUses enumerators).map (Use.rename traversal.renames)
  | [] => rfl
  | ⟨_, none⟩ :: rest => Enumerator.listUses_traverse rest
  | ⟨_, some value⟩ :: rest => by
    simp only [Enumerator.listUses, List.map_append, ← value.uses_traverse,
      ← Enumerator.listUses_traverse rest]
    rfl

theorem Expr.uses_traverse : ∀ value : Expr,
    (Id.run (value.traverse traversal)).uses = value.uses.map (Use.rename traversal.renames)
  | .identifier .. | .intLiteral .. | .floatLiteral .. | .charLiteral .. | .stringLiteral .. => rfl
  | .call span function arguments => by
    have callee : (Id.run (function.traverse traversal)).calleeUses =
        function.calleeUses.map (Use.rename traversal.renames) := by
      rw [Expr.calleeUses, Expr.calleeUses, function.identifier?_traverse traversal]
      cases function.identifier? with
      | none => exact function.uses_traverse
      | some name => rfl
    rw [Expr.uses_call, List.map_append, ← callee, ← Expr.listUses_traverse arguments, ← Expr.uses_call span]
    rfl
  | .binary _ _ left right => by
    simp only [Expr.uses, List.map_append, ← left.uses_traverse, ← right.uses_traverse]
    rfl
  | .unary _ _ operand => operand.uses_traverse
  | .member _ object _ _ => object.uses_traverse
  | .conditional _ condition thenValue elseValue => by
    simp only [Expr.uses, List.map_append, ← condition.uses_traverse, ← thenValue.uses_traverse,
      ← elseValue.uses_traverse]
    rfl
  | .cast _ target operand => by
    simp only [Expr.uses, List.map_append, ← target.uses_traverse, ← operand.uses_traverse]
    rfl
  | .sizeofExpr _ operand => operand.uses_traverse
  | .sizeofType _ type => type.uses_traverse
  | .compoundLiteral _ type initializer => by
    simp only [Expr.uses, List.map_append, ← type.uses_traverse, ← initializer.uses_traverse]
    rfl
  | .comma _ parts => Expr.listUses_traverse parts
  | .typeArgument _ type => type.uses_traverse

theorem Expr.listUses_traverse : ∀ values : List Expr,
    Expr.listUses (Id.run (Expr.traverseList traversal values)) =
      (Expr.listUses values).map (Use.rename traversal.renames)
  | [] => rfl
  | value :: values => by
    simp only [Expr.listUses, List.map_append, ← value.uses_traverse, ← Expr.listUses_traverse values]
    rfl

theorem Initializer.uses_traverse : ∀ initializer : Initializer,
    (Id.run (initializer.traverse traversal)).uses = initializer.uses.map (Use.rename traversal.renames)
  | .expression _ value => value.uses_traverse
  | .list _ items => Initializer.listUses_traverse items
  | .designated _ designators initializer => by
    simp only [Initializer.uses, List.map_append, ← Designator.listUses_traverse designators,
      ← initializer.uses_traverse]
    rfl

theorem Initializer.listUses_traverse : ∀ items : List Initializer,
    Initializer.listUses (Id.run (Initializer.traverseList traversal items)) =
      (Initializer.listUses items).map (Use.rename traversal.renames)
  | [] => rfl
  | item :: items => by
    simp only [Initializer.listUses, List.map_append, ← item.uses_traverse,
      ← Initializer.listUses_traverse items]
    rfl

theorem Designator.listUses_traverse : ∀ designators : List Designator,
    Designator.listUses (Id.run (Designator.traverseList traversal designators)) =
      (Designator.listUses designators).map (Use.rename traversal.renames)
  | [] => rfl
  | .index index :: rest => by
    simp only [Designator.listUses, List.map_append, ← index.uses_traverse,
      ← Designator.listUses_traverse rest]
    rfl
  | .member _ :: rest => Designator.listUses_traverse rest

end

/-! ## Places -/

def Use.renamePlaced (change : String → String) (placed : Use × UsePlace) : Use × UsePlace :=
  (placed.1.rename change, placed.2)

theorem Use.map_renamePlaced_elsewhere (change : String → String) (uses : List Use) :
    (Use.elsewhere uses).map (renamePlaced change) = Use.elsewhere (uses.map (rename change)) := by
  simp [elsewhere, renamePlaced]

mutual

theorem Expr.placedUses_traverse (place : UsePlace) : ∀ value : Expr,
    (Id.run (value.traverse traversal)).placedUses place =
      (value.placedUses place).map (Use.renamePlaced traversal.renames)
  | .call span function arguments => by
    have callee : (Id.run (function.traverse traversal)).placedCalleeUses place =
        (function.placedCalleeUses place).map (Use.renamePlaced traversal.renames) := by
      rw [Expr.placedCalleeUses, Expr.placedCalleeUses, function.identifier?_traverse traversal]
      cases function.identifier? with
      | none =>
        simp only [Option.map_none]
        rw [Use.map_renamePlaced_elsewhere, function.uses_traverse]
      | some name => rfl
    rw [Expr.placedUses_call, List.map_append, ← callee,
      ← Expr.listPlacedUses_traverse place.ofArguments arguments, ← Expr.placedUses_call place span]
    rfl
  | .intLiteral .. | .floatLiteral .. | .charLiteral .. | .stringLiteral .. | .identifier ..
  | .binary .. | .unary .. | .member .. | .conditional .. | .cast .. | .sizeofExpr ..
  | .sizeofType .. | .compoundLiteral .. | .comma .. | .typeArgument .. => by
    rw [Expr.placedUses_of_not_call rfl, Expr.placedUses_of_not_call rfl,
      Use.map_renamePlaced_elsewhere, Expr.uses_traverse]

theorem Expr.listPlacedUses_traverse (place : UsePlace) : ∀ values : List Expr,
    Expr.listPlacedUses place (Id.run (Expr.traverseList traversal values)) =
      (Expr.listPlacedUses place values).map (Use.renamePlaced traversal.renames)
  | [] => rfl
  | value :: values => by
    simp only [Expr.listPlacedUses, List.map_append, ← value.placedUses_traverse,
      ← Expr.listPlacedUses_traverse place values]
    rfl

end

/-! ## Types -/

theorem CType.isVoid_traverse : ∀ type : CType, (Id.run (type.traverse traversal)).isVoid = type.isVoid
  | .qualified _ inner => inner.isVoid_traverse
  | .basic _ | .pointer _ _ | .array _ none | .array _ (some _) | .function _ _ _
  | .record _ _ none | .record _ _ (some _) | .enumeration _ none | .enumeration _ (some _)
  | .named _ => rfl

theorem CType.isFunction_traverse : ∀ type : CType,
    (Id.run (type.traverse traversal)).isFunction = type.isFunction
  | .qualified _ inner => inner.isFunction_traverse
  | .basic _ | .pointer _ _ | .array _ none | .array _ (some _) | .function _ _ _
  | .record _ _ none | .record _ _ (some _) | .enumeration _ none | .enumeration _ (some _)
  | .named _ => rfl

theorem CType.isArray_traverse : ∀ type : CType, (Id.run (type.traverse traversal)).isArray = type.isArray
  | .qualified _ inner => inner.isArray_traverse
  | .basic _ | .pointer _ _ | .array _ none | .array _ (some _) | .function _ _ _
  | .record _ _ none | .record _ _ (some _) | .enumeration _ none | .enumeration _ (some _)
  | .named _ => rfl

theorem Expr.statementUses_traverse (value : Expr) : (Id.run (value.traverse traversal)).statementUses =
      value.statementUses.map (Use.renamePlaced traversal.renames) := by
  have whole := value.placedUses_traverse traversal (.call .whole)
  cases value with
  | binary span operator left right =>
    cases operator with
    | assign =>
      simp only [Expr.statementUses, List.map_append, Use.map_renamePlaced_elsewhere,
        ← left.uses_traverse, ← right.placedUses_traverse]
      rfl
    | _ => exact whole
  | cast span target operand =>
    simp only [Expr.statementUses, List.map_append, Use.map_renamePlaced_elsewhere,
      ← target.uses_traverse, ← operand.placedUses_traverse, ← target.isVoid_traverse traversal]
    rfl
  | _ => exact whole

/-! ## Traversals that change no name -/

section KeepsWords

variable {m : Type → Type} [Monad m]

/-- Enters nodes in order and gives a value back. -/
def Traversal.visit {α : Type} (traversal : Traversal m) (nodes : List Node) (value : α) : m α := do
  nodes.forM traversal.enter
  return value

/-- A traversal that changes no names and no integers. -/
structure Traversal.KeepsNames (traversal : Traversal m) : Prop where
  name : ∀ name, traversal.name name = pure name
  integer : ∀ spelling, traversal.integer spelling = pure spelling
  declared : ∀ name, traversal.declared name = pure name

/-- A traversal that does nothing but change labels. -/
structure Traversal.KeepsWords (traversal : Traversal m) : Prop where
  enter : ∀ node, traversal.enter node = pure ()
  name : ∀ name, traversal.name name = pure name
  integer : ∀ spelling, traversal.integer spelling = pure spelling
  declared : ∀ name, traversal.declared name = pure name

theorem Traversal.KeepsWords.names {traversal : Traversal m} (keeps : traversal.KeepsWords) :
    traversal.KeepsNames := ⟨keeps.name, keeps.integer, keeps.declared⟩

variable [LawfulMonad m] {traversal : Traversal m}

theorem Traversal.KeepsWords.visit_eq (keeps : traversal.KeepsWords) {α : Type} (nodes : List Node)
    (value : α) : traversal.visit nodes value = pure value := by
  induction nodes with
  | nil => simp [Traversal.visit]
  | cons node nodes ih => simpa [Traversal.visit, keeps.enter] using ih

mutual

theorem CType.traverse_visits (keeps : traversal.KeepsNames) :
    ∀ type : CType, type.traverse traversal = traversal.visit type.nodes type
  | .basic _ | .record _ _ none | .enumeration _ none | .named _ => by
    simp [CType.traverse, CType.nodes, Traversal.visit]
  | .pointer _ target => by simp [CType.traverse, CType.nodes, Traversal.visit, target.traverse_visits keeps]
  | .array element none => by simp [CType.traverse, CType.nodes, Traversal.visit, element.traverse_visits keeps]
  | .array element (some size) => by
    simp [CType.traverse, CType.nodes, Traversal.visit, element.traverse_visits keeps, size.traverse_visits keeps]
  | .function result parameters _ => by
    simp [CType.traverse, CType.nodes, Traversal.visit, result.traverse_visits keeps,
      Parameter.traverseList_visits keeps parameters]
  | .record _ _ (some fields) => by
    simp [CType.traverse, CType.nodes, Traversal.visit, Field.traverseList_visits keeps fields]
  | .enumeration _ (some enumerators) => by
    simp [CType.traverse, CType.nodes, Traversal.visit, Enumerator.traverseList_visits keeps enumerators]
  | .qualified _ inner => by simp [CType.traverse, CType.nodes, Traversal.visit, inner.traverse_visits keeps]

theorem Parameter.traverseList_visits (keeps : traversal.KeepsNames) : ∀ parameters : List Parameter,
    Parameter.traverseList traversal parameters = traversal.visit (Parameter.listNodes parameters) parameters
  | [] => by simp [Parameter.traverseList, Parameter.listNodes, Traversal.visit]
  | ⟨_, type, _⟩ :: rest => by
    simp [Parameter.traverseList, Parameter.listNodes, Traversal.visit, type.traverse_visits keeps, Parameter.traverseList_visits keeps rest]

theorem Field.traverseList_visits (keeps : traversal.KeepsNames) : ∀ fields : List Field,
    Field.traverseList traversal fields = traversal.visit (Field.listNodes fields) fields
  | [] => by simp [Field.traverseList, Field.listNodes, Traversal.visit]
  | ⟨_, type, none⟩ :: rest => by
    simp [Field.traverseList, Field.listNodes, Traversal.visit, type.traverse_visits keeps, Field.traverseList_visits keeps rest]
  | ⟨_, type, some width⟩ :: rest => by
    simp [Field.traverseList, Field.listNodes, Traversal.visit, type.traverse_visits keeps, width.traverse_visits keeps,
      Field.traverseList_visits keeps rest]

theorem Enumerator.traverseList_visits (keeps : traversal.KeepsNames) : ∀ enumerators : List Enumerator,
    Enumerator.traverseList traversal enumerators = traversal.visit (Enumerator.listNodes enumerators) enumerators
  | [] => by simp [Enumerator.traverseList, Enumerator.listNodes, Traversal.visit]
  | ⟨_, none⟩ :: rest => by
    simp [Enumerator.traverseList, Enumerator.listNodes, Traversal.visit, Enumerator.traverseList_visits keeps rest]
  | ⟨_, some value⟩ :: rest => by
    simp [Enumerator.traverseList, Enumerator.listNodes, Traversal.visit, value.traverse_visits keeps, Enumerator.traverseList_visits keeps rest]

theorem Expr.traverse_visits (keeps : traversal.KeepsNames) :
    ∀ value : Expr, value.traverse traversal = traversal.visit value.nodes value
  | .floatLiteral .. | .charLiteral .. | .stringLiteral .. => by simp [Expr.traverse, Expr.nodes, Traversal.visit]
  | .intLiteral _ spelling => by simp [Expr.traverse, Expr.nodes, Traversal.visit, keeps.integer]
  | .identifier _ name => by simp [Expr.traverse, Expr.nodes, Traversal.visit, keeps.name]
  | .binary _ _ left right => by
    simp [Expr.traverse, Expr.nodes, Traversal.visit, left.traverse_visits keeps, right.traverse_visits keeps]
  | .unary _ _ operand => by simp [Expr.traverse, Expr.nodes, Traversal.visit, operand.traverse_visits keeps]
  | .call _ function arguments => by
    simp [Expr.traverse, Expr.nodes, Traversal.visit, function.traverse_visits keeps,
      Expr.traverseList_visits keeps arguments]
  | .member _ object _ _ => by simp [Expr.traverse, Expr.nodes, Traversal.visit, object.traverse_visits keeps]
  | .conditional _ condition thenValue elseValue => by
    simp [Expr.traverse, Expr.nodes, Traversal.visit, condition.traverse_visits keeps, thenValue.traverse_visits keeps,
      elseValue.traverse_visits keeps]
  | .cast _ target operand => by
    simp [Expr.traverse, Expr.nodes, Traversal.visit, target.traverse_visits keeps, operand.traverse_visits keeps]
  | .sizeofExpr _ operand => by simp [Expr.traverse, Expr.nodes, Traversal.visit, operand.traverse_visits keeps]
  | .sizeofType _ type => by simp [Expr.traverse, Expr.nodes, Traversal.visit, type.traverse_visits keeps]
  | .compoundLiteral _ type initializer => by
    simp [Expr.traverse, Expr.nodes, Traversal.visit, type.traverse_visits keeps, initializer.traverse_visits keeps]
  | .comma _ parts => by simp [Expr.traverse, Expr.nodes, Traversal.visit, Expr.traverseList_visits keeps parts]
  | .typeArgument _ type => by simp [Expr.traverse, Expr.nodes, Traversal.visit, type.traverse_visits keeps]

theorem Expr.traverseList_visits (keeps : traversal.KeepsNames) : ∀ values : List Expr,
    Expr.traverseList traversal values = traversal.visit (Expr.listNodes values) values
  | [] => by simp [Expr.traverseList, Expr.listNodes, Traversal.visit]
  | value :: values => by
    simp [Expr.traverseList, Expr.listNodes, Traversal.visit, value.traverse_visits keeps, Expr.traverseList_visits keeps values]

theorem Initializer.traverse_visits (keeps : traversal.KeepsNames) : ∀ initializer : Initializer,
    initializer.traverse traversal = traversal.visit initializer.nodes initializer
  | .expression _ value => by simp [Initializer.traverse, Initializer.nodes, Traversal.visit, value.traverse_visits keeps]
  | .list _ items => by
    simp [Initializer.traverse, Initializer.nodes, Traversal.visit, Initializer.traverseList_visits keeps items]
  | .designated _ designators initializer => by
    simp [Initializer.traverse, Initializer.nodes, Traversal.visit, Designator.traverseList_visits keeps designators,
      initializer.traverse_visits keeps]

theorem Initializer.traverseList_visits (keeps : traversal.KeepsNames) : ∀ items : List Initializer,
    Initializer.traverseList traversal items = traversal.visit (Initializer.listNodes items) items
  | [] => by simp [Initializer.traverseList, Initializer.listNodes, Traversal.visit]
  | item :: items => by
    simp [Initializer.traverseList, Initializer.listNodes, Traversal.visit, item.traverse_visits keeps, Initializer.traverseList_visits keeps items]

theorem Designator.traverseList_visits (keeps : traversal.KeepsNames) : ∀ designators : List Designator,
    Designator.traverseList traversal designators = traversal.visit (Designator.listNodes designators) designators
  | [] => by simp [Designator.traverseList, Designator.listNodes, Traversal.visit]
  | .index index :: rest => by
    simp [Designator.traverseList, Designator.listNodes, Traversal.visit, index.traverse_visits keeps, Designator.traverseList_visits keeps rest]
  | .member _ :: rest => by
    simp [Designator.traverseList, Designator.listNodes, Traversal.visit, Designator.traverseList_visits keeps rest]

end

theorem traverseOption_eq {α : Type} {traverse : α → m α}
    (same : ∀ value, traverse value = pure value) (part : Option α) :
    traverseOption traverse part = pure part := by
  cases part with
  | none => rfl
  | some value => simp [traverseOption, same]

theorem traverseOption_visits {α : Type} {traverse : α → m α} {nodes : α → List Node}
    (visits : ∀ value, traverse value = traversal.visit (nodes value) value) (part : Option α) :
    traverseOption traverse part = traversal.visit (optionalNodes nodes part) part := by
  cases part with
  | none => simp [traverseOption, optionalNodes, Traversal.visit]
  | some value => simp [traverseOption, optionalNodes, visits, Traversal.visit]

theorem Declaration.traverse_visits (keeps : traversal.KeepsNames) (declaration : Declaration) :
    declaration.traverse traversal = traversal.visit declaration.nodes declaration := by
  simp [Declaration.traverse, Declaration.nodes, keeps.declared, CType.traverse_visits keeps,
    traverseOption_visits (Initializer.traverse_visits keeps), Traversal.visit]

theorem Declaration.traverseList_visits (keeps : traversal.KeepsNames) :
    ∀ declarations : List Declaration, Declaration.traverseList traversal declarations =
      traversal.visit (declarations.flatMap Declaration.nodes) declarations
  | [] => by simp [Declaration.traverseList, Traversal.visit]
  | declaration :: rest => by
    simp [Declaration.traverseList, Declaration.traverse_visits keeps,
      Declaration.traverseList_visits keeps rest, Traversal.visit]

theorem CType.traverse_eq (keeps : traversal.KeepsWords) (type : CType) :
    type.traverse traversal = pure type :=
  (type.traverse_visits keeps.names).trans (keeps.visit_eq _ _)

theorem Expr.traverse_eq (keeps : traversal.KeepsWords) (value : Expr) :
    value.traverse traversal = pure value :=
  (value.traverse_visits keeps.names).trans (keeps.visit_eq _ _)

theorem Declaration.traverseList_eq (keeps : traversal.KeepsWords) (declarations : List Declaration) :
    Declaration.traverseList traversal declarations = pure declarations :=
  (Declaration.traverseList_visits keeps.names declarations).trans (keeps.visit_eq _ _)

end KeepsWords

end InlineMacro
