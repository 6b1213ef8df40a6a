import InlineMacro.Proofs.Scope.Resolution
import InlineMacro.Proofs.Syntax.Words

/-!
# Items behind a traversal

A traversal that replaces the names that are used replaces identifiers and designated members among
the items of a tree. Types and expressions declare nothing but tags, constants and parameters of
function types, and these keep their names.
-/

set_option autoImplicit false

namespace InlineMacro

open Node (Spelled)

def EntityKind.isDeclared : EntityKind → Bool
  | declared _ => true
  | parameter | constant | tag => false

def NameUse.rename (aliasOf : String → String) (use : NameUse) : NameUse :=
  match use.kind with
  | .identifier | .member => { use with name := aliasOf use.name }
  | .typeName | .tag => use

/-- Items whose uses have other names, and which declare nothing that a declaration does. All names
in them are words. -/
inductive ScopeItem.Renamed (aliasOf : String → String) (word : String → Prop) :
    List ScopeItem → List ScopeItem → Prop where
  | nil : Renamed aliasOf word [] []
  | append {first second items others : List ScopeItem} : Renamed aliasOf word first second →
      Renamed aliasOf word items others →
      Renamed aliasOf word (first ++ items) (second ++ others)
  | use {use : NameUse} : word use.name →
      Renamed aliasOf word [.use use] [.use (use.rename aliasOf)]
  | declare {name : ScopedName} {entity : Entity} : word name.name →
      entity.kind.isDeclared = false →
      Renamed aliasOf word [.declare name entity] [.declare name entity]
  | scope {items others : List ScopeItem} : Renamed aliasOf word items others →
      Renamed aliasOf word [.scope items] [.scope others]

namespace ScopeItem.Renamed

variable {aliasOf : String → String} {word : String → Prop} {items others : List ScopeItem}

theorem introduced_eq (renamed : Renamed aliasOf word items others) :
    introduced others = introduced items := by
  induction renamed with
  | append _ _ former latter => rw [introduced_append, introduced_append, former, latter]
  | _ => rfl

theorem word_of_introduced (renamed : Renamed aliasOf word items others) :
    ∀ name ∈ introduced items, word name.name := by
  induction renamed with
  | append _ _ former latter =>
    rw [introduced_append]
    exact List.forall_mem_append.mpr ⟨former, latter⟩
  | declare isWord _ =>
    intro name member
    rwa [List.mem_singleton.mp member]
  | _ => exact fun _ member => absurd member List.not_mem_nil

theorem word_of_use (renamed : Renamed aliasOf word items others) :
    ∀ use ∈ listUses items, word use.name := by
  induction renamed with
  | append _ _ former latter =>
    rw [listUses_append]
    exact List.forall_mem_append.mpr ⟨former, latter⟩
  | use isWord =>
    intro use member
    rwa [List.mem_singleton.mp member]
  | scope _ ih =>
    intro use member
    exact ih use (by simpa [listUses, uses] using member)
  | _ => exact fun _ member => absurd member List.not_mem_nil

theorem listAfter_eq (renamed : Renamed aliasOf word items others) (table : NameTable) :
    listAfter table others = listAfter table items := by
  induction renamed generalizing table with
  | append _ _ former latter => rw [listAfter_append, listAfter_append, former, latter]
  | _ => rfl

theorem listUses_eq (renamed : Renamed aliasOf word items others) :
    listUses others = (listUses items).map (NameUse.rename aliasOf) := by
  induction renamed with
  | append _ _ former latter => rw [listUses_append, listUses_append, List.map_append, former, latter]
  | scope _ ih => simpa [listUses, uses] using ih
  | _ => rfl

theorem length_uses (renamed : Renamed aliasOf word items others) :
    (listUses others).length = (listUses items).length := by
  rw [renamed.listUses_eq, List.length_map]

theorem eq_of_uses (renamed : Renamed aliasOf word items others)
    (same : listUses others = listUses items) : others = items := by
  induction renamed with
  | append first _ former latter =>
    rw [listUses_append, listUses_append] at same
    obtain ⟨front, back⟩ := List.append_inj same first.length_uses
    rw [former front, latter back]
  | use _ => rw [List.singleton_inj.mp same]
  | scope _ ih => rw [ih (by simpa [listUses, uses] using same)]
  | _ => rfl

end ScopeItem.Renamed

section Traverse

variable {traversal : Traversal Id} {word : String → Prop}

def Traversal.KeepsBuiltin (traversal : Traversal Id) (word : String → Prop) : Prop :=
  ∀ name, word name →
    (traversal.renames name = "__builtin_offsetof" ↔ name = "__builtin_offsetof")

variable (keeps : traversal.KeepsBuiltin word)

include keeps

set_option linter.unusedSectionVars false

theorem Expr.takesMember_traverse (value : Expr) (within : Spelled word value.nodes) :
    (Id.run (value.traverse traversal)).takesMember = value.takesMember := by
  rw [takesMember, takesMember, value.identifier?_traverse traversal]
  cases value with
  | identifier span name =>
    have same := keeps name ((Node.within_cons.mp within).1 (.value name) (List.mem_singleton_self _))
    rw [Bool.eq_iff_iff]
    simpa [identifier?] using same
  | _ => rfl

omit keeps in
theorem ScopeItem.Renamed.tagUses (place : Span) {tag : Option String} (named : ∀ name ∈ tag, word name) :
    Renamed traversal.renames word (tagUses place tag) (tagUses place tag) := by
  cases tag with
  | none => exact .nil
  | some tag =>
    have isWord : word (NameUse.mk .tag tag place).name := named tag rfl
    exact .use isWord

omit keeps in
theorem ScopeItem.Renamed.tagItems (place : Span) {tag : Option String} (named : ∀ name ∈ tag, word name) :
    Renamed traversal.renames word (tagItems place tag) (tagItems place tag) := by
  cases tag with
  | none => exact .nil
  | some tag => exact .declare (named tag rfl) rfl

mutual

theorem CType.renamed_items (place : Span) : ∀ type : CType, Spelled word type.nodes →
    ScopeItem.Renamed traversal.renames word (type.items place)
      ((Id.run (type.traverse traversal)).items place)
  | .basic _ => fun _ => .nil
  | .pointer _ target => fun within =>
    target.renamed_items place (Node.within_type.mp within).2
  | .array element none => fun within =>
    element.renamed_items place (Node.within_type.mp within).2
  | .array element (some size) => fun within => by
    have parts := Node.within_append.mp (Node.within_type.mp within).2
    exact .append (element.renamed_items place parts.1) (size.renamed_items false parts.2)
  | .function result parameters _ => fun within => by
    obtain ⟨names, inside⟩ := Node.within_type.mp within
    have parts := Node.within_append.mp inside
    exact .append (result.renamed_items place parts.1)
      (.scope (Parameter.renamed_listItems parameters names parts.2))
  | .record _ tag none => fun within =>
    .tagUses place fun name member => (Node.within_type.mp within).1 name
      (List.mem_append_left _ (Option.mem_toList.mpr member))
  | .record _ tag (some fields) => fun within => by
    obtain ⟨names, inside⟩ := Node.within_type.mp within
    refine .append (.tagItems place fun name member => names name ?_)
      (Field.renamed_listItems place fields inside)
    exact List.mem_append_left _ (Option.mem_toList.mpr member)
  | .enumeration tag none => fun within =>
    .tagUses place fun name member => (Node.within_type.mp within).1 name
      (List.mem_append_left _ (Option.mem_toList.mpr member))
  | .enumeration tag (some enumerators) => fun within => by
    obtain ⟨names, inside⟩ := Node.within_type.mp within
    refine .append (.tagItems place fun name member => names name ?_)
      (Enumerator.renamed_listItems place enumerators (fun name member => names name ?_) inside)
    · exact List.mem_append_left _ (Option.mem_toList.mpr member)
    · exact List.mem_append_right _ member
  | .named name => fun within => by
    have isWord : word (NameUse.mk .typeName name place).name :=
      (Node.within_type.mp within).1 name (List.mem_singleton_self _)
    exact .use isWord
  | .qualified _ inner => fun within =>
    inner.renamed_items place (Node.within_type.mp within).2

theorem Parameter.renamed_listItems : ∀ parameters : List Parameter,
    (∀ name ∈ parameters.filterMap Parameter.name, word name) →
    Spelled word (Parameter.listNodes parameters) →
    ScopeItem.Renamed traversal.renames word (Parameter.listItems .parameter parameters)
      (Parameter.listItems .parameter (Id.run (Parameter.traverseList traversal parameters)))
  | [] => fun _ _ => .nil
  | ⟨none, type, span⟩ :: rest => fun names within => by
    have parts := Node.within_append.mp within
    exact .append (type.renamed_items span parts.1) (Parameter.renamed_listItems rest names parts.2)
  | ⟨some name, type, span⟩ :: rest => fun names within => by
    have parts := Node.within_append.mp within
    have named := List.forall_mem_cons.mp names
    exact .append (type.renamed_items span parts.1) (.append (.declare named.1 rfl)
      (Parameter.renamed_listItems rest named.2 parts.2))

theorem Field.renamed_listItems (place : Span) : ∀ fields : List Field,
    Spelled word (Field.listNodes fields) →
    ScopeItem.Renamed traversal.renames word (Field.listItems place fields)
      (Field.listItems place (Id.run (Field.traverseList traversal fields)))
  | [] => fun _ => .nil
  | ⟨_, type, none⟩ :: rest => fun within => by
    have parts := Node.within_append.mp within
    exact .append (type.renamed_items place parts.1) (Field.renamed_listItems place rest parts.2)
  | ⟨_, type, some width⟩ :: rest => fun within => by
    have parts := Node.within_append.mp within
    have front := Node.within_append.mp parts.1
    exact .append (.append (type.renamed_items place front.1) (width.renamed_items false front.2))
      (Field.renamed_listItems place rest parts.2)

theorem Enumerator.renamed_listItems (place : Span) : ∀ enumerators : List Enumerator,
    (∀ name ∈ enumerators.map Enumerator.name, word name) →
    Spelled word (Enumerator.listNodes enumerators) →
    ScopeItem.Renamed traversal.renames word (Enumerator.listItems place enumerators)
      (Enumerator.listItems place (Id.run (Enumerator.traverseList traversal enumerators)))
  | [] => fun _ _ => .nil
  | ⟨_, none⟩ :: rest => fun names within => by
    have named := List.forall_mem_cons.mp names
    exact .append (.declare named.1 rfl) (Enumerator.renamed_listItems place rest named.2 within)
  | ⟨_, some value⟩ :: rest => fun names within => by
    have named := List.forall_mem_cons.mp names
    have parts := Node.within_append.mp within
    exact .append (value.renamed_items false parts.1) (.append (.declare named.1 rfl)
      (Enumerator.renamed_listItems place rest named.2 parts.2))

theorem Expr.renamed_items (isMember : Bool) : ∀ value : Expr, Spelled word value.nodes →
    ScopeItem.Renamed traversal.renames word (value.items isMember)
      ((Id.run (value.traverse traversal)).items isMember)
  | .identifier span name => fun within => by
    have named := (Node.within_cons.mp within).1 (.value name) (List.mem_singleton_self _)
    cases isMember with
    | true =>
      have isWord : word (NameUse.mk .member name span).name := named
      exact .use isWord
    | false =>
      have isWord : word (NameUse.mk .identifier name span).name := named
      exact .use isWord
  | .binary _ operator left right => fun within => by
    have parts := Node.within_append.mp (Node.within_cons.mp within).2
    have others := (left.renamed_items false parts.1).append (right.renamed_items false parts.2)
    cases operator with
    | index =>
      exact (left.renamed_items isMember parts.1).append (right.renamed_items false parts.2)
    | _ => exact others
  | .unary _ _ operand => fun within =>
    operand.renamed_items false (Node.within_cons.mp within).2
  | .call _ function arguments => fun within => by
    have parts := Node.within_append.mp (Node.within_cons.mp within).2
    refine .append (function.renamed_items false parts.1) ?_
    have same := function.takesMember_traverse keeps parts.1
    change ScopeItem.Renamed _ _ _ (Expr.listItems (Id.run (function.traverse traversal)).takesMember _)
    rw [same]
    exact Expr.renamed_listItems _ arguments parts.2
  | .member _ object _ _ => fun within =>
    object.renamed_items isMember (Node.within_cons.mp within).2
  | .conditional _ condition thenValue elseValue => fun within => by
    have parts := Node.within_append.mp (Node.within_cons.mp within).2
    have front := Node.within_append.mp parts.1
    exact .append (.append (condition.renamed_items false front.1)
      (thenValue.renamed_items false front.2)) (elseValue.renamed_items false parts.2)
  | .cast span target operand => fun within => by
    have parts := Node.within_append.mp (Node.within_cons.mp within).2
    exact .append (target.renamed_items span parts.1) (operand.renamed_items false parts.2)
  | .sizeofExpr _ operand => fun within =>
    operand.renamed_items false (Node.within_cons.mp within).2
  | .sizeofType span type => fun within =>
    type.renamed_items span (Node.within_cons.mp within).2
  | .compoundLiteral span type initializer => fun within => by
    have parts := Node.within_append.mp (Node.within_cons.mp within).2
    exact .append (type.renamed_items span parts.1) (initializer.renamed_items parts.2)
  | .comma _ parts => fun within =>
    Expr.renamed_listItems false parts (Node.within_cons.mp within).2
  | .typeArgument span type => fun within =>
    type.renamed_items span (Node.within_cons.mp within).2
  | .intLiteral .. | .floatLiteral .. | .charLiteral .. | .stringLiteral .. => fun _ => .nil

theorem Expr.renamed_listItems (isMember : Bool) : ∀ values : List Expr,
    Spelled word (Expr.listNodes values) →
    ScopeItem.Renamed traversal.renames word (Expr.listItems isMember values)
      (Expr.listItems isMember (Id.run (Expr.traverseList traversal values)))
  | [] => fun _ => .nil
  | value :: values => fun within => by
    have parts := Node.within_append.mp within
    exact .append (value.renamed_items isMember parts.1) (Expr.renamed_listItems isMember values parts.2)

theorem Initializer.renamed_items : ∀ initializer : Initializer, Spelled word initializer.nodes →
    ScopeItem.Renamed traversal.renames word initializer.items (Id.run (initializer.traverse traversal)).items
  | .expression _ value => fun within =>
    value.renamed_items false (Node.within_cons.mp within).2
  | .list _ parts => fun within =>
    Initializer.renamed_listItems parts (Node.within_cons.mp within).2
  | .designated _ designators initializer => fun within => by
    have parts := Node.within_append.mp (Node.within_cons.mp within).2
    exact .append (Designator.renamed_listItems designators parts.1) (initializer.renamed_items parts.2)

theorem Initializer.renamed_listItems : ∀ initializers : List Initializer,
    Spelled word (Initializer.listNodes initializers) →
    ScopeItem.Renamed traversal.renames word (Initializer.listItems initializers)
      (Initializer.listItems (Id.run (Initializer.traverseList traversal initializers)))
  | [] => fun _ => .nil
  | part :: rest => fun within => by
    have parts := Node.within_append.mp within
    exact .append (part.renamed_items parts.1) (Initializer.renamed_listItems rest parts.2)

theorem Designator.renamed_listItems : ∀ designators : List Designator,
    Spelled word (Designator.listNodes designators) →
    ScopeItem.Renamed traversal.renames word (Designator.listItems designators)
      (Designator.listItems (Id.run (Designator.traverseList traversal designators)))
  | [] => fun _ => .nil
  | .index index :: rest => fun within => by
    have parts := Node.within_append.mp within
    exact .append (index.renamed_items false parts.1) (Designator.renamed_listItems rest parts.2)
  | .member _ :: rest => fun within => Designator.renamed_listItems rest within

end

theorem CType.renamed_definitionItems (place : Span) (type : CType) (within : Spelled word type.nodes) :
    ScopeItem.Renamed traversal.renames word (type.definitionItems place)
      ((Id.run (type.traverse traversal)).definitionItems place) := by
  have whole := type.renamed_items keeps place within
  cases type with
  | record kind tag fields =>
    cases fields with
    | none =>
      exact .tagItems place fun name member => (Node.within_type.mp within).1 name
        (List.mem_append_left _ (Option.mem_toList.mpr member))
    | some fields => exact whole
  | enumeration tag enumerators =>
    cases enumerators with
    | none =>
      exact .tagItems place fun name member => (Node.within_type.mp within).1 name
        (List.mem_append_left _ (Option.mem_toList.mpr member))
    | some enumerators => exact whole
  | array element size => cases size <;> exact whole
  | _ => exact whole

end Traverse

end InlineMacro
