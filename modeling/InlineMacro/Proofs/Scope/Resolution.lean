import InlineMacro.Proofs.Scope.Bindings
import InlineMacro.Syntax.Node

/-!
# What names resolve to

A tree is read as a sequence of uses and declarations of names, with the scopes that are open in
between, in the order in which a compiler sees them. A use resolves to the last declaration of its
name that is in scope, or to nothing that the function declares. An entity is known by the place of
its declaration.

Ordinary identifiers share one name space, tags have another one, and no declaration is one of a
member. A declared name is in scope from
its initializer on, a tag from the body of its type on, and a constant behind its value. Branches and
the bodies of loops are scopes of their own, and so are the parameters of a function type. What
`__builtin_offsetof` takes behind its type is a member and no identifier. A tag without a body is
that of the type in scope; if there is none, it is that of a type outside.
-/

set_option autoImplicit false

namespace InlineMacro

/-- The name spaces. -/
inductive NameSpace where
  | ordinary
  | tag
  | member
deriving DecidableEq, Repr

/-- A name in its name space. -/
structure ScopedName where
  space : NameSpace
  name : String
deriving DecidableEq, Repr

/-- What a name can stand for: what a declaration makes of it, a parameter of a function type, a
constant of an enumeration, or the type with a tag. -/
inductive EntityKind where
  | declared (kind : BindingKind)
  | parameter
  | constant
  | tag
deriving DecidableEq, Repr

/-- A declared entity, with the place of its declaration. -/
structure Entity where
  kind : EntityKind
  place : Span
deriving DecidableEq, Repr

/-- How a name is used. -/
inductive UseKind where
  | identifier
  | typeName
  | tag
  | member
deriving DecidableEq, Repr

def UseKind.space : UseKind → NameSpace
  | identifier | typeName => .ordinary
  | tag => .tag
  | member => .member

/-- The use of a name. -/
structure NameUse where
  kind : UseKind
  name : String
  place : Span
deriving DecidableEq, Repr

def NameUse.scoped (use : NameUse) : ScopedName := ⟨use.kind.space, use.name⟩

/-- What scopes are made of. -/
inductive ScopeItem where
  | use (use : NameUse)
  | declare (name : ScopedName) (entity : Entity)
  | scope (items : List ScopeItem)

abbrev NameTable := ScopedName → Option Entity

def NameTable.declare (table : NameTable) (name : ScopedName) (entity : Entity) : NameTable :=
  fun other => if other = name then some entity else table other

/-- A use of a name and what it resolves to. -/
structure Reference where
  use : NameUse
  entity : Option Entity
deriving DecidableEq, Repr

namespace ScopeItem

def after (table : NameTable) : ScopeItem → NameTable
  | declare name entity => table.declare name entity
  | use _ | scope _ => table

def listAfter (table : NameTable) (items : List ScopeItem) : NameTable :=
  items.foldl after table

mutual

def references (table : NameTable) : ScopeItem → List Reference
  | use found => [⟨found, table found.scoped⟩]
  | declare _ _ => []
  | scope items => listReferences table items

def listReferences (table : NameTable) : List ScopeItem → List Reference
  | [] => []
  | item :: items => item.references table ++ listReferences (item.after table) items

end

mutual

def uses : ScopeItem → List NameUse
  | use found => [found]
  | declare _ _ => []
  | scope items => listUses items

def listUses : List ScopeItem → List NameUse
  | [] => []
  | item :: items => item.uses ++ listUses items

end

def introduced (items : List ScopeItem) : List ScopedName :=
  items.filterMap fun
    | declare name _ => some name
    | _ => none

end ScopeItem

/-! ## Trees -/

def Declaration.entity (declaration : Declaration) : Entity :=
  ⟨.declared declaration.bindingKind, declaration.span⟩

def optionalItems {α : Type} (items : α → List ScopeItem) : Option α → List ScopeItem
  | none => []
  | some value => items value

def Expr.takesMember (function : Expr) : Bool :=
  function.identifier? == some "__builtin_offsetof"

def tagUses (place : Span) : Option String → List ScopeItem
  | none => []
  | some tag => [.use ⟨.tag, tag, place⟩]

def tagItems (place : Span) : Option String → List ScopeItem
  | none => []
  | some tag => [.declare ⟨.tag, tag⟩ ⟨.tag, place⟩]

mutual

def CType.items (place : Span) : CType → List ScopeItem
  | .basic _ => []
  | .pointer _ target => target.items place
  | .array element none => element.items place
  | .array element (some size) => element.items place ++ size.items false
  | .function result parameters _ =>
    result.items place ++ [.scope (Parameter.listItems .parameter parameters)]
  | .record _ tag none => tagUses place tag
  | .record _ tag (some fields) => tagItems place tag ++ Field.listItems place fields
  | .enumeration tag none => tagUses place tag
  | .enumeration tag (some enumerators) =>
    tagItems place tag ++ Enumerator.listItems place enumerators
  | .named name => [.use ⟨.typeName, name, place⟩]
  | .qualified _ inner => inner.items place

def Parameter.listItems (kind : EntityKind) : List Parameter → List ScopeItem
  | [] => []
  | ⟨none, type, span⟩ :: rest => type.items span ++ Parameter.listItems kind rest
  | ⟨some name, type, span⟩ :: rest =>
    type.items span ++ .declare ⟨.ordinary, name⟩ ⟨kind, span⟩ :: Parameter.listItems kind rest

def Field.listItems (place : Span) : List Field → List ScopeItem
  | [] => []
  | ⟨_, type, none⟩ :: rest => type.items place ++ Field.listItems place rest
  | ⟨_, type, some width⟩ :: rest =>
    type.items place ++ width.items false ++ Field.listItems place rest

def Enumerator.listItems (place : Span) : List Enumerator → List ScopeItem
  | [] => []
  | ⟨name, none⟩ :: rest =>
    .declare ⟨.ordinary, name⟩ ⟨.constant, place⟩ :: Enumerator.listItems place rest
  | ⟨name, some value⟩ :: rest =>
    value.items false ++
      .declare ⟨.ordinary, name⟩ ⟨.constant, place⟩ :: Enumerator.listItems place rest

def Expr.items (isMember : Bool) : Expr → List ScopeItem
  | .identifier span name => [.use ⟨if isMember then .member else .identifier, name, span⟩]
  | .binary _ .index left right => left.items isMember ++ right.items false
  | .binary _ _ left right => left.items false ++ right.items false
  | .unary _ _ operand => operand.items false
  | .call _ function arguments =>
    function.items false ++ Expr.listItems function.takesMember arguments
  | .member _ object _ _ => object.items isMember
  | .conditional _ condition thenValue elseValue =>
    condition.items false ++ thenValue.items false ++ elseValue.items false
  | .cast span target operand => target.items span ++ operand.items false
  | .sizeofExpr _ operand => operand.items false
  | .sizeofType span type => type.items span
  | .compoundLiteral span type initializer => type.items span ++ initializer.items
  | .comma _ parts => Expr.listItems false parts
  | .typeArgument span type => type.items span
  | .intLiteral .. | .floatLiteral .. | .charLiteral .. | .stringLiteral .. => []

def Expr.listItems (isMember : Bool) : List Expr → List ScopeItem
  | [] => []
  | part :: parts => part.items isMember ++ Expr.listItems isMember parts

def Initializer.items : Initializer → List ScopeItem
  | .expression _ value => value.items false
  | .list _ parts => Initializer.listItems parts
  | .designated _ designators initializer =>
    Designator.listItems designators ++ initializer.items

def Initializer.listItems : List Initializer → List ScopeItem
  | [] => []
  | part :: parts => part.items ++ Initializer.listItems parts

def Designator.listItems : List Designator → List ScopeItem
  | [] => []
  | .index index :: rest => index.items false ++ Designator.listItems rest
  | .member _ :: rest => Designator.listItems rest

end

def CType.definitionItems (place : Span) : CType → List ScopeItem
  | .record _ tag none | .enumeration tag none => tagItems place tag
  | type => type.items place

def Declaration.headItems (declaration : Declaration) : List ScopeItem :=
  declaration.type.items declaration.span ++
    [.declare ⟨.ordinary, declaration.name⟩ declaration.entity]

def Declaration.items (declaration : Declaration) : List ScopeItem :=
  declaration.headItems ++ optionalItems Initializer.items declaration.initializer

mutual

def Statement.items : Statement → List ScopeItem
  | .expression _ value => value.items false
  | .block _ statements => [.scope (Statement.listItems statements)]
  | .declaration _ declarations => declarations.flatMap Declaration.items
  | .typeDefinition span type => type.definitionItems span
  | .ifElse _ condition thenBranch none =>
    [.scope (condition.items false ++ [.scope thenBranch.items])]
  | .ifElse _ condition thenBranch (some elseBranch) =>
    [.scope (condition.items false ++ [.scope thenBranch.items, .scope elseBranch.items])]
  | .whileLoop _ condition body => [.scope (condition.items false ++ [.scope body.items])]
  | .forLoop _ none condition update body =>
    [.scope (optionalItems (Expr.items false) condition ++
      optionalItems (Expr.items false) update ++ [.scope body.items])]
  | .forLoop _ (some init) condition update body =>
    [.scope (init.items ++ (optionalItems (Expr.items false) condition ++
      optionalItems (Expr.items false) update ++ [.scope body.items]))]
  | .doWhile _ body condition => [.scope (.scope body.items :: condition.items false)]
  | .switch _ subject body => [.scope (subject.items false ++ [.scope body.items])]
  | .caseLabel _ value statement => value.items false ++ statement.items
  | .defaultLabel _ statement => statement.items
  | .labelled _ _ statement => statement.items
  | .returnStatement _ value => optionalItems (Expr.items false) value
  | .breakStatement _ | .continueStatement _ | .gotoStatement _ _ | .empty _ => []

def Statement.listItems : List Statement → List ScopeItem
  | [] => []
  | statement :: statements => statement.items ++ Statement.listItems statements

end

def Function.headTable (function : Function) : NameTable :=
  ScopeItem.listAfter (fun _ => none)
    (function.result.items function.span ++
      Parameter.listItems (.declared .object) function.parameters)

def Function.references (function : Function) : List Reference :=
  ScopeItem.listReferences function.headTable function.body.items

theorem Parameter.listItems_append (kind : EntityKind) (first second : List Parameter) :
    listItems kind (first ++ second) = listItems kind first ++ listItems kind second := by
  induction first with
  | nil => rfl
  | cons parameter parameters ih =>
    obtain ⟨_ | name, type, span⟩ := parameter <;>
      rw [List.cons_append, listItems, ih, listItems, List.append_assoc]
    rfl

namespace Statement

theorem listItems_append (first second : List Statement) :
    listItems (first ++ second) = listItems first ++ listItems second := by
  induction first with
  | nil => rfl
  | cons statement statements ih => rw [List.cons_append, listItems, ih, listItems, List.append_assoc]

@[simp] theorem listItems_singleton (statement : Statement) :
    listItems [statement] = statement.items := List.append_nil _

theorem items_ofDeclaration (declaration : Declaration) :
    (ofDeclaration declaration).items = declaration.items := List.append_nil _

end Statement

/-! ## Resolving -/

namespace NameTable

@[simp] theorem declare_self (table : NameTable) (name : ScopedName) (entity : Entity) :
    table.declare name entity name = some entity := if_pos rfl

theorem declare_of_ne (table : NameTable) {name other : ScopedName} (entity : Entity)
    (different : other ≠ name) : table.declare name entity other = table other :=
  if_neg different

end NameTable

namespace ScopeItem

variable {table : NameTable} {name : ScopedName}

theorem listAfter_append (table : NameTable) (first second : List ScopeItem) :
    listAfter table (first ++ second) = listAfter (listAfter table first) second :=
  List.foldl_append

theorem listReferences_append (table : NameTable) (first second : List ScopeItem) :
    listReferences table (first ++ second) =
      listReferences table first ++ listReferences (listAfter table first) second := by
  induction first generalizing table with
  | nil => rfl
  | cons item items ih =>
    rw [List.cons_append, listReferences, ih, listReferences, List.append_assoc]
    rfl

theorem listUses_append (first second : List ScopeItem) :
    listUses (first ++ second) = listUses first ++ listUses second := by
  induction first with
  | nil => rfl
  | cons item items ih => rw [List.cons_append, listUses, ih, listUses, List.append_assoc]

mutual

theorem map_use_references (table : NameTable) : ∀ item : ScopeItem,
    (item.references table).map Reference.use = item.uses
  | .use _ => rfl
  | .declare _ _ => rfl
  | .scope items => map_use_listReferences table items

theorem map_use_listReferences (table : NameTable) : ∀ items : List ScopeItem,
    (listReferences table items).map Reference.use = listUses items
  | [] => rfl
  | item :: items => by
    rw [listReferences, listUses, List.map_append, map_use_references, map_use_listReferences]

end

@[simp] theorem introduced_append (first second : List ScopeItem) :
    introduced (first ++ second) = introduced first ++ introduced second :=
  List.filterMap_append

theorem listAfter_of_not_introduced {items : List ScopeItem} (other : name ∉ introduced items)
    (table : NameTable) : listAfter table items name = table name := by
  induction items generalizing table with
  | nil => rfl
  | cons item items ih =>
    cases item with
    | use | scope => exact ih other table
    | declare own entity =>
      have apart : name ≠ own ∧ name ∉ introduced items := not_or.mp (mt List.mem_cons.mpr other)
      exact (ih apart.2 _).trans (table.declare_of_ne entity apart.1)

theorem listAfter_of_introduced {items : List ScopeItem} (own : name ∈ introduced items)
    (table other : NameTable) : listAfter table items name = listAfter other items name := by
  induction items generalizing table other with
  | nil => cases own
  | cons item items ih =>
    cases item with
    | use | scope => exact ih own table other
    | declare first entity =>
      by_cases again : name ∈ introduced items
      · exact ih again _ _
      · obtain rfl : name = first := (List.mem_cons.mp own).resolve_right again
        refine (listAfter_of_not_introduced again _).trans
          (Eq.trans ?_ (listAfter_of_not_introduced again _).symm)
        exact (table.declare_self name entity).trans (other.declare_self name entity).symm

theorem listAfter_of_introduced_nil {items : List ScopeItem} (nothing : introduced items = [])
    (table : NameTable) : listAfter table items = table :=
  funext fun name => listAfter_of_not_introduced (by rw [nothing]; exact List.not_mem_nil) table

theorem listAfter_comm {first second : List ScopeItem}
    (apart : ∀ name ∈ introduced first, name ∉ introduced second) (table : NameTable) :
    listAfter table (first ++ second) = listAfter table (second ++ first) := by
  funext name
  rw [listAfter_append, listAfter_append]
  by_cases own : name ∈ introduced first
  · rw [listAfter_of_not_introduced (apart name own), listAfter_of_introduced own]
  · rw [listAfter_of_not_introduced own]
    by_cases other : name ∈ introduced second
    · exact listAfter_of_introduced other _ _
    · rw [listAfter_of_not_introduced other, listAfter_of_not_introduced other,
        listAfter_of_not_introduced own]

mutual

theorem references_congr : ∀ (item : ScopeItem) {table other : NameTable},
    (∀ use ∈ item.uses, table use.scoped = other use.scoped) → item.references table = item.references other
  | .use found, _, _, same => by rw [references, references, same found (List.mem_singleton_self _)]
  | .declare _ _, _, _, _ => rfl
  | .scope items, _, _, same => listReferences_congr items same

theorem listReferences_congr : ∀ (items : List ScopeItem) {table other : NameTable},
    (∀ use ∈ listUses items, table use.scoped = other use.scoped) →
      listReferences table items = listReferences other items
  | [], _, _, _ => rfl
  | item :: items, table, other, same => by
    obtain ⟨own, rest⟩ := List.forall_mem_append.mp same
    rw [listReferences, listReferences, references_congr item own]
    refine congrArg (_ ++ ·) (listReferences_congr items fun use member => ?_)
    cases item with
    | use | scope => exact rest use member
    | declare name entity =>
      change table.declare name entity use.scoped = other.declare name entity use.scoped
      unfold NameTable.declare
      rw [rest use member]

end

end ScopeItem

/-! ## Identifiers as nodes -/

def ScopeItem.AmongNodes (items : List ScopeItem) (nodes : List Node) : Prop :=
  ∀ use ∈ listUses items, use.kind = .identifier →
    .expression (.identifier use.place use.name) ∈ nodes

namespace ScopeItem.AmongNodes

variable {items others : List ScopeItem} {nodes more : List Node}

theorem nil (nodes : List Node) : AmongNodes [] nodes :=
  fun _ member => absurd member List.not_mem_nil

theorem append (former : AmongNodes items nodes) (latter : AmongNodes others more) :
    AmongNodes (items ++ others) (nodes ++ more) := by
  intro use member isIdentifier
  rw [listUses_append] at member
  rcases List.mem_append.mp member with member | member
  · exact List.mem_append_left _ (former use member isIdentifier)
  · exact List.mem_append_right _ (latter use member isIdentifier)

theorem cons (inside : AmongNodes items nodes) (node : Node) : AmongNodes items (node :: nodes) :=
  fun use member isIdentifier => List.mem_cons_of_mem _ (inside use member isIdentifier)

theorem scope (inside : AmongNodes items nodes) : AmongNodes [.scope items] nodes := by
  intro use member isIdentifier
  rw [listUses, uses, listUses, List.append_nil] at member
  exact inside use member isIdentifier

theorem declare (inside : AmongNodes items nodes) (name : ScopedName) (entity : Entity) :
    AmongNodes (.declare name entity :: items) nodes := inside

theorem other (kind : UseKind) (notIdentifier : kind ≠ .identifier) (name : String) (place : Span)
    (nodes : List Node) : AmongNodes [.use ⟨kind, name, place⟩] nodes := by
  intro use member isIdentifier
  rw [List.mem_singleton.mp member] at isIdentifier
  exact absurd isIdentifier notIdentifier

theorem tagUses (place : Span) (tag : Option String) (nodes : List Node) :
    AmongNodes (tagUses place tag) nodes := by
  cases tag with
  | none => exact .nil _
  | some tag => exact .other .tag nofun tag place _

theorem tagged (inside : AmongNodes items nodes) (place : Span) (tag : Option String) :
    AmongNodes (tagItems place tag ++ items) nodes := by
  cases tag <;> exact inside

end ScopeItem.AmongNodes

mutual

theorem CType.items_among (place : Span) : ∀ type : CType, ScopeItem.AmongNodes (type.items place) type.nodes
  | .basic _ => .nil _
  | .pointer _ target => (target.items_among place).cons _
  | .array element none => (element.items_among place).cons _
  | .array element (some size) => ((element.items_among place).append (size.items_among false)).cons _
  | .function result parameters _ =>
    ((result.items_among place).append (Parameter.items_among .parameter parameters).scope).cons _
  | .record _ tag none => .tagUses place tag _
  | .record _ tag (some fields) => (((Field.items_among place fields).tagged place tag)).cons _
  | .enumeration tag none => .tagUses place tag _
  | .enumeration tag (some enumerators) =>
    ((Enumerator.items_among place enumerators).tagged place tag).cons _
  | .named name => .other .typeName nofun name place _
  | .qualified _ inner => (inner.items_among place).cons _

theorem Parameter.items_among (kind : EntityKind) : ∀ parameters : List Parameter,
    ScopeItem.AmongNodes (Parameter.listItems kind parameters) (Parameter.listNodes parameters)
  | [] => .nil _
  | ⟨none, type, span⟩ :: rest => (type.items_among span).append (Parameter.items_among kind rest)
  | ⟨some _, type, span⟩ :: rest =>
    (type.items_among span).append ((Parameter.items_among kind rest).declare _ _)

theorem Field.items_among (place : Span) : ∀ fields : List Field,
    ScopeItem.AmongNodes (Field.listItems place fields) (Field.listNodes fields)
  | [] => .nil _
  | ⟨_, type, none⟩ :: rest => (type.items_among place).append (Field.items_among place rest)
  | ⟨_, type, some width⟩ :: rest =>
    ((type.items_among place).append (width.items_among false)).append (Field.items_among place rest)

theorem Enumerator.items_among (place : Span) : ∀ enumerators : List Enumerator,
    ScopeItem.AmongNodes (Enumerator.listItems place enumerators) (Enumerator.listNodes enumerators)
  | [] => .nil _
  | ⟨_, none⟩ :: rest => (Enumerator.items_among place rest).declare _ _
  | ⟨_, some value⟩ :: rest =>
    (value.items_among false).append ((Enumerator.items_among place rest).declare _ _)

theorem Expr.items_among (isMember : Bool) : ∀ value : Expr,
    ScopeItem.AmongNodes (value.items isMember) value.nodes
  | .identifier span name => by
    cases isMember with
    | true => exact .other .member nofun name span _
    | false =>
      intro use member _
      rw [List.mem_singleton.mp member]
      exact List.mem_singleton_self _
  | .binary _ operator left right => by
    have others := ((left.items_among false).append (right.items_among false))
    cases operator with
    | index => exact ((left.items_among isMember).append (right.items_among false)).cons _
    | _ => exact others.cons _
  | .unary _ _ operand => (operand.items_among false).cons _
  | .call _ function arguments =>
    ((function.items_among false).append (Expr.listItems_among function.takesMember arguments)).cons _
  | .member _ object _ _ => (object.items_among isMember).cons _
  | .conditional _ condition thenValue elseValue =>
    (((condition.items_among false).append (thenValue.items_among false)).append
      (elseValue.items_among false)).cons _
  | .cast span target operand =>
    ((target.items_among span).append (operand.items_among false)).cons _
  | .sizeofExpr _ operand => (operand.items_among false).cons _
  | .sizeofType span type => (type.items_among span).cons _
  | .compoundLiteral span type initializer =>
    ((type.items_among span).append initializer.items_among).cons _
  | .comma _ parts => (Expr.listItems_among false parts).cons _
  | .typeArgument span type => (type.items_among span).cons _
  | .intLiteral .. | .floatLiteral .. | .charLiteral .. | .stringLiteral .. => .nil _

theorem Expr.listItems_among (isMember : Bool) : ∀ values : List Expr,
    ScopeItem.AmongNodes (Expr.listItems isMember values) (Expr.listNodes values)
  | [] => .nil _
  | value :: values =>
    (value.items_among isMember).append (Expr.listItems_among isMember values)

theorem Initializer.items_among : ∀ initializer : Initializer,
    ScopeItem.AmongNodes initializer.items initializer.nodes
  | .expression _ value => (value.items_among false).cons _
  | .list _ parts => (Initializer.listItems_among parts).cons _
  | .designated _ designators initializer =>
    ((Designator.items_among designators).append initializer.items_among).cons _

theorem Initializer.listItems_among : ∀ initializers : List Initializer,
    ScopeItem.AmongNodes (Initializer.listItems initializers) (Initializer.listNodes initializers)
  | [] => .nil _
  | part :: parts => part.items_among.append (Initializer.listItems_among parts)

theorem Designator.items_among : ∀ designators : List Designator,
    ScopeItem.AmongNodes (Designator.listItems designators) (Designator.listNodes designators)
  | [] => .nil _
  | .index index :: rest => (index.items_among false).append (Designator.items_among rest)
  | .member _ :: rest => Designator.items_among rest

end

theorem optionalItems_among {α : Type} {items : α → List ScopeItem} {nodes : α → List Node}
    (among : ∀ value, ScopeItem.AmongNodes (items value) (nodes value)) (part : Option α) :
    ScopeItem.AmongNodes (optionalItems items part) (optionalNodes nodes part) := by
  cases part with
  | none => exact .nil _
  | some value => exact among value

theorem Declaration.items_among (declaration : Declaration) :
    ScopeItem.AmongNodes declaration.items declaration.nodes := by
  refine ScopeItem.AmongNodes.cons ?_ _
  rw [Declaration.items, Declaration.headItems, List.append_assoc]
  exact (declaration.type.items_among _).append ((optionalItems_among Initializer.items_among _).declare _ _)

theorem CType.definitionItems_among (place : Span) (type : CType) :
    ScopeItem.AmongNodes (type.definitionItems place) type.nodes := by
  unfold CType.definitionItems
  split
  · simpa using (ScopeItem.AmongNodes.nil _).tagged place _
  · simpa using (ScopeItem.AmongNodes.nil _).tagged place _
  · exact type.items_among place

theorem Statement.listItems_among {statements : List Statement}
    (each : ∀ statement ∈ statements, ScopeItem.AmongNodes statement.items statement.nodes) :
    ScopeItem.AmongNodes (Statement.listItems statements) (Statement.listNodes statements) := by
  induction statements with
  | nil => exact .nil _
  | cons statement statements ih =>
    rw [List.forall_mem_cons] at each
    exact each.1.append (ih each.2)

theorem Statement.items_among (statement : Statement) :
    ScopeItem.AmongNodes statement.items statement.nodes := by
  have ofExpr := fun value : Expr => value.items_among false
  induction statement with
  | expression span value => exact (ofExpr value).cons _
  | block span statements each => exact (Statement.listItems_among each).scope.cons _
  | declaration span declarations =>
    refine ScopeItem.AmongNodes.cons ?_ _
    induction declarations with
    | nil => exact .nil _
    | cons first rest ih => exact first.items_among.append ih
  | typeDefinition span type => exact (type.definitionItems_among span).cons _
  | ifThen span condition thenBranch ih =>
    refine ScopeItem.AmongNodes.cons ?_ _
    rw [optionNodes, List.append_nil]
    exact ((ofExpr condition).append ih.scope).scope
  | ifElse span condition thenBranch elseBranch thenIh elseIh =>
    refine ScopeItem.AmongNodes.cons ?_ _
    rw [List.append_assoc]
    exact ((ofExpr condition).append (thenIh.scope.append elseIh.scope)).scope
  | whileLoop span value body ih => exact ((ofExpr value).append ih.scope).scope.cons _
  | switch span value body ih => exact ((ofExpr value).append ih.scope).scope.cons _
  | bareLoop span condition update body ih =>
    exact (((optionalItems_among ofExpr condition).append
      (optionalItems_among ofExpr update)).append ih.scope).scope.cons _
  | forLoop span init condition update body initIh bodyIh =>
    refine ScopeItem.AmongNodes.cons ?_ _
    rw [optionNodes, List.append_assoc, List.append_assoc, ← List.append_assoc _ _ body.nodes]
    exact (initIh.append (((optionalItems_among ofExpr condition).append
      (optionalItems_among ofExpr update)).append bodyIh.scope)).scope
  | doWhile span body condition ih => exact (ih.scope.append (ofExpr condition)).scope.cons _
  | caseLabel span value statement ih => exact ((ofExpr value).append ih).cons _
  | defaultLabel _ _ ih | labelled _ _ _ ih => exact ih.cons _
  | returnStatement span value => exact (optionalItems_among ofExpr value).cons _
  | _ => exact .nil _

end InlineMacro
