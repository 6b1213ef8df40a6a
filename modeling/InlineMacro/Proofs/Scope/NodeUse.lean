import InlineMacro.Macroize
import InlineMacro.Proofs.Scope.PlacedUse
import InlineMacro.Proofs.Syntax.Induction

/-!
# Nodes and uses

The nodes of a tree and the uses in it come in one order. What a node calls by name is called by a
use, and every name that is used stands in a node.
-/

set_option autoImplicit false

namespace InlineMacro

def Node.callee? : Node → Option String
  | .expression value => value.callee?
  | _ => none

def Node.callees (nodes : List Node) : List String := nodes.filterMap Node.callee?

def Use.callees (uses : List Use) : List String := uses.filterMap Use.callee?

@[simp] theorem Node.callees_append (first second : List Node) :
    callees (first ++ second) = callees first ++ callees second := List.filterMap_append

@[simp] theorem Use.callees_append (first second : List Use) :
    callees (first ++ second) = callees first ++ callees second := List.filterMap_append

theorem Use.mem_callees {uses : List Use} {name : String} : name ∈ callees uses ↔ .called name ∈ uses := by
  unfold callees
  rw [List.mem_filterMap]
  constructor
  · rintro ⟨use, member, called⟩
    cases use with
    | called other =>
      cases called
      exact member
    | mentioned other => cases called
  · exact fun member => ⟨_, member, rfl⟩

def Node.identifier? : Node → Option String
  | .expression value => value.identifier?
  | _ => none

/-- The names that expressions consist of, in order. -/
def Node.identifiers (nodes : List Node) : List String := nodes.filterMap Node.identifier?

@[simp] theorem Node.identifiers_append (first second : List Node) :
    identifiers (first ++ second) = identifiers first ++ identifiers second := List.filterMap_append

@[simp] theorem Node.callees_statement (statement : Statement) (nodes : List Node) :
    callees (.statement statement :: nodes) = callees nodes := rfl

@[simp] theorem Node.callees_nil : callees [] = [] := rfl

/-! ## Uses in nodes -/

/-- The uses that stand in nodes: those that call are what the nodes call, and all of them are the names
that expressions consist of. -/
structure Node.Uses (nodes : List Node) (uses : List Use) : Prop where
  callees : Node.callees nodes = Use.callees uses
  identifiers : Node.identifiers nodes = uses.map Use.name

namespace Node.Uses

variable {first second nodes : List Node} {uses others : List Use}

theorem nil : Node.Uses [] [] := ⟨rfl, rfl⟩

theorem append (former : Node.Uses first uses) (latter : Node.Uses second others) :
    Node.Uses (first ++ second) (uses ++ others) := by
  constructor
  · rw [Node.callees_append, Use.callees_append, former.callees, latter.callees]
  · rw [Node.identifiers_append, List.map_append, former.identifiers, latter.identifiers]

theorem cons {node : Node} (callsNone : node.callee? = none) (namesNone : node.identifier? = none)
    (inner : Node.Uses nodes uses) : Node.Uses (node :: nodes) uses := by
  constructor
  · rw [← inner.callees, Node.callees, Node.callees, List.filterMap_cons_none callsNone]
  · rw [← inner.identifiers, Node.identifiers, Node.identifiers, List.filterMap_cons_none namesNone]

end Node.Uses

mutual

theorem CType.nodes_use : ∀ type : CType, Node.Uses type.nodes type.uses
  | .basic _ | .record _ _ none | .enumeration _ none | .named _ => .cons rfl rfl .nil
  | .pointer _ target => target.nodes_use.cons rfl rfl
  | .array element none => element.nodes_use.cons rfl rfl
  | .array element (some size) => (element.nodes_use.append size.nodes_use).cons rfl rfl
  | .function result parameters _ =>
    (result.nodes_use.append (Parameter.nodes_use parameters)).cons rfl rfl
  | .record _ _ (some fields) => (Field.nodes_use fields).cons rfl rfl
  | .enumeration _ (some enumerators) => (Enumerator.nodes_use enumerators).cons rfl rfl
  | .qualified _ inner => inner.nodes_use.cons rfl rfl

theorem Parameter.nodes_use : ∀ parameters : List Parameter,
    Node.Uses (Parameter.listNodes parameters) (Parameter.listUses parameters)
  | [] => .nil
  | ⟨_, type, _⟩ :: rest => type.nodes_use.append (Parameter.nodes_use rest)

theorem Field.nodes_use : ∀ fields : List Field, Node.Uses (Field.listNodes fields) (Field.listUses fields)
  | [] => .nil
  | ⟨_, type, none⟩ :: rest => type.nodes_use.append (Field.nodes_use rest)
  | ⟨_, type, some width⟩ :: rest =>
    (type.nodes_use.append width.nodes_use).append (Field.nodes_use rest)

theorem Enumerator.nodes_use : ∀ enumerators : List Enumerator,
    Node.Uses (Enumerator.listNodes enumerators) (Enumerator.listUses enumerators)
  | [] => .nil
  | ⟨_, none⟩ :: rest => Enumerator.nodes_use rest
  | ⟨_, some value⟩ :: rest => value.nodes_use.append (Enumerator.nodes_use rest)

theorem Expr.nodes_use : ∀ value : Expr, Node.Uses value.nodes value.uses
  | .intLiteral .. | .floatLiteral .. | .charLiteral .. | .stringLiteral .. => .cons rfl rfl .nil
  | .identifier .. => ⟨rfl, rfl⟩
  | .call span function arguments => by
    have inner := function.nodes_use
    have others := Expr.listNodes_use arguments
    rw [Expr.uses_call]
    -- A callee that is a name is no use of its own: the call stands for it.
    cases function with
    | identifier place name =>
      have called : Node.Uses [.expression (.call span (.identifier place name) arguments),
        .expression (.identifier place name)] [.called name] := ⟨rfl, rfl⟩
      exact called.append others
    | _ => exact (inner.append others).cons rfl rfl
  | .binary _ _ left right => (left.nodes_use.append right.nodes_use).cons rfl rfl
  | .unary _ _ operand => operand.nodes_use.cons rfl rfl
  | .member _ object _ _ => object.nodes_use.cons rfl rfl
  | .conditional _ condition thenValue elseValue =>
    ((condition.nodes_use.append thenValue.nodes_use).append elseValue.nodes_use).cons rfl rfl
  | .cast _ target operand => (target.nodes_use.append operand.nodes_use).cons rfl rfl
  | .sizeofExpr _ operand => operand.nodes_use.cons rfl rfl
  | .sizeofType _ type => type.nodes_use.cons rfl rfl
  | .compoundLiteral _ type initializer =>
    (type.nodes_use.append initializer.nodes_use).cons rfl rfl
  | .comma _ parts => (Expr.listNodes_use parts).cons rfl rfl
  | .typeArgument _ type => type.nodes_use.cons rfl rfl

theorem Expr.listNodes_use : ∀ values : List Expr, Node.Uses (Expr.listNodes values) (Expr.listUses values)
  | [] => .nil
  | value :: values => value.nodes_use.append (Expr.listNodes_use values)

theorem Initializer.nodes_use : ∀ initializer : Initializer, Node.Uses initializer.nodes initializer.uses
  | .expression _ value => value.nodes_use.cons rfl rfl
  | .list _ items => (Initializer.listNodes_use items).cons rfl rfl
  | .designated _ designators initializer =>
    ((Designator.nodes_use designators).append initializer.nodes_use).cons rfl rfl

theorem Initializer.listNodes_use : ∀ items : List Initializer,
    Node.Uses (Initializer.listNodes items) (Initializer.listUses items)
  | [] => .nil
  | item :: items => item.nodes_use.append (Initializer.listNodes_use items)

theorem Designator.nodes_use : ∀ designators : List Designator,
    Node.Uses (Designator.listNodes designators) (Designator.listUses designators)
  | [] => .nil
  | .index index :: rest => index.nodes_use.append (Designator.nodes_use rest)
  | .member _ :: rest => Designator.nodes_use rest

end

theorem optionalNodes_use {α : Type} {nodes : α → List Node} {uses : α → List Use}
    (each : ∀ value, Node.Uses (nodes value) (uses value)) (part : Option α) :
    Node.Uses (optionalNodes nodes part) (optionalUses uses part) := by
  cases part with
  | none => exact .nil
  | some value => exact each value

theorem CType.callees_nodes (type : CType) : Node.callees type.nodes = Use.callees type.uses :=
  type.nodes_use.callees

theorem Expr.callees_nodes (value : Expr) : Node.callees value.nodes = Use.callees value.uses :=
  value.nodes_use.callees

theorem Expr.callees_listNodes (values : List Expr) :
    Node.callees (Expr.listNodes values) = Use.callees (Expr.listUses values) :=
  (Expr.listNodes_use values).callees

theorem optionalInitializer_callees (part : Option Initializer) :
    Node.callees (optionalNodes Initializer.nodes part) = Use.callees (optionalUses Initializer.uses part) :=
  (optionalNodes_use Initializer.nodes_use part).callees

theorem optionalExpr_callees (part : Option Expr) :
    Node.callees (optionalNodes Expr.nodes part) = Use.callees (optionalUses Expr.uses part) :=
  (optionalNodes_use Expr.nodes_use part).callees

theorem Statement.listNodes_append (first second : List Statement) : Statement.listNodes (first ++ second) =
      Statement.listNodes first ++ Statement.listNodes second := by
  induction first with
  | nil => rfl
  | cons statement statements ih =>
    rw [List.cons_append, listNodes, listNodes, ih, List.append_assoc]

/-! ## Statements -/

theorem Occurrence.uses_placedAt {σ : Type} (scope : σ) (inBlock : Bool) (uses : List (Use × UsePlace)) :
    (Occurrence.placedAt scope inBlock uses).map Occurrence.use = uses.map Prod.fst := by
  simp [Occurrence.placedAt, Function.comp_def]

theorem Occurrence.uses_elsewhereAt {σ : Type} (scope : σ) (uses : List Use) :
    (Occurrence.elsewhereAt scope uses).map Occurrence.use = uses := by
  simp [Occurrence.elsewhereAt, Function.comp_def]

section Statements

variable {σ : Type} (scoping : Scoping σ)

theorem Declaration.nodes_use (declarations : List Declaration) (scope : σ) :
    Node.Uses (declarations.flatMap Declaration.nodes)
      ((Declaration.listOccurrences scoping scope declarations).map Occurrence.use) := by
  induction declarations generalizing scope with
  | nil => exact .nil
  | cons first rest ih =>
    have value := optionalNodes_use Initializer.nodes_use first.initializer
    have own : Node.Uses first.nodes (first.type.uses ++ optionalUses Initializer.uses first.initializer) :=
      (first.type.nodes_use.append value).cons rfl rfl
    rw [List.flatMap_cons, Declaration.listOccurrences, Declaration.occurrences]
    simp only [List.map_append, Occurrence.uses_elsewhereAt]
    exact own.append (ih _)

theorem Statement.nodes_use (statement : Statement) (inBlock : Bool) (scope : σ) : Node.Uses statement.nodes
      ((statement.occurrences scoping inBlock scope).map Occurrence.use) := by
  induction statement generalizing inBlock scope with
  | block span statements each =>
    refine .cons rfl rfl ?_
    rw [occurrences]
    generalize scoping.enter scope = inner
    induction statements generalizing inner with
    | nil => exact .nil
    | cons first rest ih =>
      rw [listNodes, listOccurrences, List.map_append]
      exact (each first (by simp) true inner).append
        (ih (fun other member => each other (by simp [member])) _)
  | declaration span declarations =>
    exact (Declaration.nodes_use scoping declarations scope).cons rfl rfl
  | expression span value =>
    rw [occurrences, Occurrence.uses_placedAt, value.map_fst_statementUses]
    exact value.nodes_use.cons rfl rfl
  | returnStatement span value =>
    cases value with
    | none => exact .cons rfl rfl .nil
    | some value =>
      rw [occurrences, Occurrence.uses_placedAt, Option.map_some, Option.getD_some, value.map_fst_placedUses]
      exact value.nodes_use.cons rfl rfl
  | typeDefinition span type =>
    rw [occurrences, Occurrence.uses_elsewhereAt]
    exact type.nodes_use.cons rfl rfl
  | ifElse span condition thenBranch elseBranch thenIh elseIh =>
    simp only [occurrences, List.map_append, Occurrence.uses_elsewhereAt, ← List.append_assoc]
    exact ((condition.nodes_use.append (thenIh _ _)).append (elseIh _ _)).cons rfl rfl
  | forLoop span init condition update body initIh bodyIh =>
    simp only [occurrences, List.map_append, Occurrence.uses_elsewhereAt, ← List.append_assoc]
    have head := (initIh false (scoping.enter scope)).append (optionalNodes_use Expr.nodes_use condition)
    exact ((head.append (optionalNodes_use Expr.nodes_use update)).append (bodyIh _ _)).cons rfl rfl
  | bareLoop span condition update body ih =>
    simp only [occurrences, List.map_append, Occurrence.uses_elsewhereAt]
    have head := (optionalNodes_use Expr.nodes_use condition).append (optionalNodes_use Expr.nodes_use update)
    exact (head.append (ih _ _)).cons rfl rfl
  | ifThen span condition thenBranch ih =>
    simp only [nodes, optionNodes, List.append_nil, occurrences, List.map_append, Occurrence.uses_elsewhereAt]
    exact (condition.nodes_use.append (ih _ _)).cons rfl rfl
  | doWhile span body condition ih =>
    simp only [occurrences, List.map_append, Occurrence.uses_elsewhereAt]
    exact ((ih _ _).append condition.nodes_use).cons rfl rfl
  | whileLoop span value inner ih | switch span value inner ih | caseLabel span value inner ih =>
    simp only [occurrences, List.map_append, Occurrence.uses_elsewhereAt]
    exact (value.nodes_use.append (ih _ _)).cons rfl rfl
  | defaultLabel _ inner ih | labelled _ _ inner ih => exact (ih _ _).cons rfl rfl
  | breakStatement | continueStatement | gotoStatement | empty => exact .cons rfl rfl .nil

theorem Statement.callees_nodes (statement : Statement) (inBlock : Bool) (scope : σ) :
    Node.callees statement.nodes =
      Use.callees ((statement.occurrences scoping inBlock scope).map Occurrence.use) :=
  (statement.nodes_use scoping inBlock scope).callees

end Statements

/-! ## Names -/

def Node.allNames (nodes : List Node) : List String := nodes.flatMap Node.names

@[simp] theorem Node.allNames_append (first second : List Node) :
    allNames (first ++ second) = allNames first ++ allNames second := List.flatMap_append

theorem Node.identifiers_subset_allNames (nodes : List Node) : identifiers nodes ⊆ allNames nodes := by
  intro name member
  obtain ⟨node, among, isIdentifier⟩ := List.mem_filterMap.mp member
  refine List.mem_flatMap.mpr ⟨node, among, ?_⟩
  cases node with
  | expression value =>
    cases value with
    | identifier place other =>
      cases isIdentifier
      exact List.mem_singleton_self _
    | _ => cases isIdentifier
  | _ => cases isIdentifier

theorem Node.Uses.mem_allNames {nodes : List Node} {uses : List Use} (stand : Node.Uses nodes uses)
    {use : Use} (member : use ∈ uses) : use.name ∈ Node.allNames nodes := by
  apply Node.identifiers_subset_allNames
  rw [stand.identifiers]
  exact List.mem_map_of_mem member

theorem Statement.callees_subset_allNames (statement : Statement) :
    Node.callees statement.nodes ⊆ Node.allNames statement.nodes := by
  intro name called
  have stand := statement.nodes_use (⟨(), fun _ => (), id, fun _ _ => ()⟩ : Scoping Unit) false ()
  rw [stand.callees, Use.mem_callees] at called
  exact stand.mem_allNames called

end InlineMacro
