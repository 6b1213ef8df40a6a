import InlineMacro.Proofs.Scope.Resolution
import InlineMacro.Proofs.Scope.Calls
import InlineMacro.Proofs.Syntax.Parts

/-!
# References to something outside

An identifier refers to something outside of its function if no declaration in scope makes anything
else of its name. The passes find such identifiers by the names of the local objects alone, and so
miss those for which a block declares something outside where a local object has the name. Where no
block does, they find all of them.
-/

set_option autoImplicit false

namespace InlineMacro

open ScopeItem (listAfter listReferences)

/-- Whether a name stands for something outside of the function, given what the function has declared
under it. -/
def standsOutside : Option Entity → Bool
  | none => true
  | some entity => entity.kind == .declared .outside

def Reference.isGlobal (reference : Reference) : Bool :=
  reference.use.kind == .identifier && standsOutside reference.entity

theorem Reference.isGlobal_iff {reference : Reference} :
    reference.isGlobal ↔ reference.use.kind = .identifier ∧ standsOutside reference.entity := by
  rw [isGlobal, Bool.and_eq_true, beq_iff_eq]

/-! ## Expressions and types -/

/-- Items that bring nothing outside into scope, and whose identifiers have some names. -/
structure ScopeItem.Reads (items : List ScopeItem) (names : List String) : Prop where
  after : ∀ table name, standsOutside (listAfter table items name) → standsOutside (table name)
  found : ∀ table, ∀ reference ∈ listReferences table items, reference.isGlobal →
    standsOutside (table ⟨.ordinary, reference.use.name⟩) ∧ reference.use.name ∈ names

namespace ScopeItem.Reads

variable {items others : List ScopeItem} {names more : List String}

theorem nil (names : List String) : Reads [] names where
  after _ _ outside := outside
  found _ _ member := absurd member List.not_mem_nil

theorem append (former : Reads items names) (latter : Reads others more) :
    Reads (items ++ others) (names ++ more) where
  after table name outside := by
    rw [listAfter_append] at outside
    exact former.after table name (latter.after _ name outside)
  found table reference member isGlobal := by
    rw [listReferences_append] at member
    rcases List.mem_append.mp member with member | member
    · exact (former.found table reference member isGlobal).imp_right (List.mem_append_left _)
    · obtain ⟨outside, named⟩ := latter.found _ reference member isGlobal
      exact ⟨former.after table _ outside, List.mem_append_right _ named⟩

theorem scope (inside : Reads items names) : Reads [.scope items] names where
  after _ _ outside := outside
  found table reference member isGlobal := by
    rw [listReferences, references, listReferences, List.append_nil] at member
    exact inside.found table reference member isGlobal

theorem declare (inside : Reads items names) (name : ScopedName) {entity : Entity}
    (isLocal : standsOutside (some entity) = false) : Reads (.declare name entity :: items) names := by
  have before (table : NameTable) (other : ScopedName)
      (outside : standsOutside (table.declare name entity other)) : standsOutside (table other) := by
    by_cases same : other = name
    · rw [same, NameTable.declare_self, isLocal] at outside
      cases outside
    · rwa [NameTable.declare_of_ne table entity same] at outside
  refine ⟨fun table other outside => before table other (inside.after _ other outside),
    fun table reference member isGlobal => ?_⟩
  exact (inside.found _ reference member isGlobal).imp_left (before table _)

theorem identifier (name : String) (place : Span) :
    Reads [.use ⟨.identifier, name, place⟩] [name] where
  after _ _ outside := outside
  found table reference member isGlobal := by
    obtain rfl := List.mem_singleton.mp member
    exact ⟨(Reference.isGlobal_iff.mp isGlobal).2, List.mem_singleton_self _⟩

theorem other (kind : UseKind) (notIdentifier : kind ≠ .identifier) (name : String) (place : Span)
    (names : List String) : Reads [.use ⟨kind, name, place⟩] names where
  after _ _ outside := outside
  found table reference member isGlobal := by
    obtain rfl := List.mem_singleton.mp member
    exact absurd (Reference.isGlobal_iff.mp isGlobal).1 notIdentifier

theorem tagUses (place : Span) (tag : Option String) (names : List String) :
    Reads (tagUses place tag) names := by
  cases tag with
  | none => exact .nil _
  | some tag => exact .other .tag nofun tag place _

theorem tagged (inside : Reads items names) (place : Span) (tag : Option String) :
    Reads (tagItems place tag ++ items) names := by
  cases tag with
  | none => exact inside
  | some tag => exact inside.declare _ rfl

end ScopeItem.Reads

open ScopeItem (Reads)

abbrev Use.names (uses : List Use) : List String := uses.map Use.name

theorem Expr.names_calleeUses (function : Expr) :
    Use.names function.calleeUses = Use.names function.uses := by
  cases function <;> rfl

mutual

theorem CType.items_read (place : Span) : ∀ type : CType, Reads (type.items place) (Use.names type.uses)
  | .basic _ => .nil _
  | .pointer _ target => target.items_read place
  | .array element none => element.items_read place
  | .array element (some size) => by
    rw [CType.uses, Use.names, List.map_append]
    exact (element.items_read place).append (size.items_read false)
  | .function result parameters _ => by
    rw [CType.uses, Use.names, List.map_append]
    exact (result.items_read place).append (Parameter.listItems_read (by simp) parameters).scope
  | .record _ tag none => .tagUses place tag _
  | .record _ tag (some fields) => (Field.listItems_read place fields).tagged place tag
  | .enumeration tag none => .tagUses place tag _
  | .enumeration tag (some enumerators) =>
    (Enumerator.listItems_read place enumerators).tagged place tag
  | .named name => .other .typeName nofun name place _
  | .qualified _ inner => inner.items_read place

theorem Parameter.listItems_read {kind : EntityKind} (inside : kind ≠ .declared .outside) :
    ∀ parameters : List Parameter,
      Reads (Parameter.listItems kind parameters) (Use.names (Parameter.listUses parameters))
  | [] => .nil _
  | ⟨none, type, span⟩ :: rest => by
    rw [Parameter.listUses, Use.names, List.map_append]
    exact (type.items_read span).append (Parameter.listItems_read inside rest)
  | ⟨some name, type, span⟩ :: rest => by
    rw [Parameter.listUses, Use.names, List.map_append]
    refine (type.items_read span).append ((Parameter.listItems_read inside rest).declare _ ?_)
    simpa [standsOutside] using inside

theorem Field.listItems_read (place : Span) : ∀ fields : List Field,
    Reads (Field.listItems place fields) (Use.names (Field.listUses fields))
  | [] => .nil _
  | ⟨_, type, none⟩ :: rest => by
    rw [Field.listUses, Use.names, List.map_append]
    exact (type.items_read place).append (Field.listItems_read place rest)
  | ⟨_, type, some width⟩ :: rest => by
    rw [Field.listUses, Use.names, List.map_append, List.map_append]
    exact ((type.items_read place).append (width.items_read false)).append (Field.listItems_read place rest)

theorem Enumerator.listItems_read (place : Span) : ∀ enumerators : List Enumerator,
    Reads (Enumerator.listItems place enumerators) (Use.names (Enumerator.listUses enumerators))
  | [] => .nil _
  | ⟨_, none⟩ :: rest => (Enumerator.listItems_read place rest).declare _ rfl
  | ⟨_, some value⟩ :: rest => by
    rw [Enumerator.listUses, Use.names, List.map_append]
    exact (value.items_read false).append ((Enumerator.listItems_read place rest).declare _ rfl)

theorem Expr.items_read (isMember : Bool) : ∀ value : Expr,
    Reads (value.items isMember) (Use.names value.uses)
  | .identifier span name => by
    cases isMember with
    | true => exact .other .member nofun name span _
    | false => exact .identifier name span
  | .binary _ operator left right => by
    rw [Expr.uses, Use.names, List.map_append]
    cases operator with
    | index => exact (left.items_read isMember).append (right.items_read false)
    | _ => exact (left.items_read false).append (right.items_read false)
  | .unary _ _ operand => operand.items_read false
  | .call span function arguments => by
    rw [Expr.uses_call, Use.names, List.map_append]
    refine .append ?_ (Expr.listItems_read function.takesMember arguments)
    have names : List.map Use.name function.calleeUses = List.map Use.name function.uses :=
      function.names_calleeUses
    rw [names]
    exact function.items_read false
  | .member _ object _ _ => object.items_read isMember
  | .conditional _ condition thenValue elseValue => by
    rw [Expr.uses, Use.names, List.map_append, List.map_append]
    exact ((condition.items_read false).append (thenValue.items_read false)).append
      (elseValue.items_read false)
  | .cast span target operand => by
    rw [Expr.uses, Use.names, List.map_append]
    exact (target.items_read span).append (operand.items_read false)
  | .sizeofExpr _ operand => operand.items_read false
  | .sizeofType span type => type.items_read span
  | .compoundLiteral span type initializer => by
    rw [Expr.uses, Use.names, List.map_append]
    exact (type.items_read span).append initializer.items_read
  | .comma _ parts => Expr.listItems_read false parts
  | .typeArgument span type => type.items_read span
  | .intLiteral .. | .floatLiteral .. | .charLiteral .. | .stringLiteral .. => .nil _

theorem Expr.listItems_read (isMember : Bool) : ∀ values : List Expr,
    Reads (Expr.listItems isMember values) (Use.names (Expr.listUses values))
  | [] => .nil _
  | value :: values => by
    rw [Expr.listUses, Use.names, List.map_append]
    exact (value.items_read isMember).append (Expr.listItems_read isMember values)

theorem Initializer.items_read : ∀ initializer : Initializer,
    Reads initializer.items (Use.names initializer.uses)
  | .expression _ value => value.items_read false
  | .list _ parts => Initializer.listItems_read parts
  | .designated _ designators initializer => by
    rw [Initializer.uses, Use.names, List.map_append]
    exact (Designator.listItems_read designators).append initializer.items_read

theorem Initializer.listItems_read : ∀ initializers : List Initializer,
    Reads (Initializer.listItems initializers) (Use.names (Initializer.listUses initializers))
  | [] => .nil _
  | part :: parts => by
    rw [Initializer.listUses, Use.names, List.map_append]
    exact part.items_read.append (Initializer.listItems_read parts)

theorem Designator.listItems_read : ∀ designators : List Designator,
    Reads (Designator.listItems designators) (Use.names (Designator.listUses designators))
  | [] => .nil _
  | .index index :: rest => by
    rw [Designator.listUses, Use.names, List.map_append]
    exact (index.items_read false).append (Designator.listItems_read rest)
  | .member _ :: rest => Designator.listItems_read rest

end

theorem optionalItems_read {α : Type} {items : α → List ScopeItem} {uses : α → List Use}
    (each : ∀ value, Reads (items value) (Use.names (uses value))) (part : Option α) :
    Reads (optionalItems items part) (Use.names (optionalUses uses part)) := by
  cases part with
  | none => exact .nil _
  | some value => exact each value

theorem CType.definitionItems_read (place : Span) (type : CType) :
    Reads (type.definitionItems place) (Use.names type.uses) := by
  unfold CType.definitionItems
  split
  · simpa using (Reads.nil _).tagged place _
  · simpa using (Reads.nil _).tagged place _
  · exact type.items_read place

/-! ## Statements -/

/-- A scope in which no known name that stands for something outside is one of an object or a type.
The names of types are among those given. -/
structure NameTable.Shows (known : String → Bool) (types : List String) (table : NameTable)
    (scope : Bindings) : Prop where
  opened : scope ≠ []
  object : ∀ name, known name → standsOutside (table ⟨.ordinary, name⟩) →
    scope.namesObject name = false
  typeName : ∀ name, known name → standsOutside (table ⟨.ordinary, name⟩) →
    scope.namesType name = false
  among : ∀ name, known name → scope.namesType name → name ∈ types

/-- Each reference to something outside under a known name is an occurrence of the name where it is
left to stand for something outside. -/
def FindsGlobals (known : String → Bool) (references : List Reference)
    (occurrences : List (Occurrence Bindings)) : Prop :=
  ∀ reference ∈ references, reference.isGlobal → known reference.use.name →
    ∃ occurrence ∈ occurrences, occurrence.use.name = reference.use.name ∧
      occurrence.scope.exposes reference.use.name

section Statements

variable {known : String → Bool} {types : List String} {table : NameTable} {scope : Bindings}

def Declaration.TypesAmong (known : String → Bool) (types : List String)
    (declaration : Declaration) : Prop :=
  known declaration.name → (declaration.bindingKind = .typeName → declaration.name ∈ types) ∧
    (declaration.bindingKind = .outside → declaration.name ∉ types)

namespace NameTable.Shows

theorem exposes (agree : table.Shows known types scope) {name : String} (isKnown : known name)
    (outside : standsOutside (table ⟨.ordinary, name⟩)) : scope.exposes name := by
  rw [Bindings.exposes, agree.object name isKnown outside, agree.typeName name isKnown outside]
  rfl

theorem reads (agree : table.Shows known types scope) {items : List ScopeItem}
    {names : List String} (read : Reads items names) :
    NameTable.Shows known types (listAfter table items) scope where
  opened := agree.opened
  object name isKnown outside := agree.object name isKnown (read.after table _ outside)
  typeName name isKnown outside := agree.typeName name isKnown (read.after table _ outside)
  among := agree.among

theorem enter (agree : table.Shows known types scope) :
    table.Shows known types ((Scoping.bindings known).enter scope) :=
  ⟨List.cons_ne_nil _ _, agree.object, agree.typeName, agree.among⟩

theorem declare (agree : table.Shows known types scope) {declaration : Declaration}
    (declares : declaration.TypesAmong known types) :
    (table.declare ⟨.ordinary, declaration.name⟩ declaration.entity).Shows known types
      ((Scoping.bindings known).declare scope declaration) := by
  have others (name : String) (other : name ≠ declaration.name) :
      table.declare ⟨.ordinary, declaration.name⟩ declaration.entity ⟨.ordinary, name⟩ =
        table ⟨.ordinary, name⟩ :=
    table.declare_of_ne _ fun same => other (congrArg ScopedName.name same)
  unfold Scoping.bindings
  dsimp only
  split
  · next isKnown =>
    have own (outside : standsOutside (table.declare ⟨.ordinary, declaration.name⟩ declaration.entity
          ⟨.ordinary, declaration.name⟩)) : declaration.bindingKind = .outside := by
      rw [NameTable.declare_self] at outside
      simpa [standsOutside, Declaration.entity] using outside
    refine ⟨Bindings.add_ne_nil agree.opened _, fun name known outside => ?_,
      fun name known outside => ?_, fun name known typed => ?_⟩
    · rw [Bindings.namesObject_add agree.opened]
      by_cases same : name = declaration.name
      · rw [if_pos same, own (same ▸ outside)]
        rfl
      · rw [others name same] at outside
        rw [if_neg same]
        exact agree.object name known outside
    · rw [Bindings.namesType_add agree.opened, Bool.or_eq_false_iff]
      by_cases same : name = declaration.name
      · have isOutside := own (same ▸ outside)
        refine ⟨by simp [isOutside], Bool.eq_false_iff.mpr fun typed => ?_⟩
        exact (declares isKnown).2 isOutside (same ▸ agree.among name known typed)
      · rw [others name same] at outside
        exact ⟨by simp [Ne.symm same], agree.typeName name known outside⟩
    · rw [Bindings.namesType_add agree.opened, Bool.or_eq_true, Bool.and_eq_true, beq_iff_eq,
        beq_iff_eq] at typed
      rcases typed with ⟨rfl, isType⟩ | typed
      · exact (declares isKnown).1 isType
      · exact agree.among name known typed
  · next unknown =>
    have before (name : String) (isKnown : known name) (outside : standsOutside
        (table.declare ⟨.ordinary, declaration.name⟩ declaration.entity ⟨.ordinary, name⟩)) :
        standsOutside (table ⟨.ordinary, name⟩) := by
      rwa [others name fun same => unknown (same ▸ isKnown)] at outside
    exact ⟨agree.opened,
      fun name isKnown outside => agree.object name isKnown (before name isKnown outside),
      fun name isKnown outside => agree.typeName name isKnown (before name isKnown outside),
      agree.among⟩

end NameTable.Shows

namespace FindsGlobals

variable {references others : List Reference} {occurrences more : List (Occurrence Bindings)}

theorem nil (occurrences : List (Occurrence Bindings)) : FindsGlobals known [] occurrences :=
  fun _ member => absurd member List.not_mem_nil

theorem append (former : FindsGlobals known references occurrences)
    (latter : FindsGlobals known others more) :
    FindsGlobals known (references ++ others) (occurrences ++ more) := by
  intro reference member isGlobal isKnown
  rcases List.mem_append.mp member with member | member
  · obtain ⟨occurrence, among, found⟩ := former reference member isGlobal isKnown
    exact ⟨occurrence, List.mem_append_left _ among, found⟩
  · obtain ⟨occurrence, among, found⟩ := latter reference member isGlobal isKnown
    exact ⟨occurrence, List.mem_append_right _ among, found⟩

theorem ofReads {items : List ScopeItem} {uses : List Use} (read : Reads items (Use.names uses))
    (agree : table.Shows known types scope) (same : ∀ use ∈ uses, ∃ occurrence ∈ occurrences,
      occurrence.use = use ∧ occurrence.scope = scope) :
    FindsGlobals known (listReferences table items) occurrences := by
  intro reference member isGlobal isKnown
  obtain ⟨outside, named⟩ := read.found table reference member isGlobal
  obtain ⟨use, among, sameName⟩ := List.mem_map.mp named
  obtain ⟨occurrence, found, rfl, rfl⟩ := same use among
  exact ⟨occurrence, found, sameName, agree.exposes isKnown outside⟩

theorem elsewhereAt {items : List ScopeItem} {uses : List Use} (read : Reads items (Use.names uses))
    (agree : table.Shows known types scope) :
    FindsGlobals known (listReferences table items) (Occurrence.elsewhereAt scope uses) :=
  ofReads read agree fun _ member => ⟨_, List.mem_map_of_mem member, rfl, rfl⟩

theorem placedAt {items : List ScopeItem} {uses : List (Use × UsePlace)}
    (read : Reads items (Use.names (uses.map Prod.fst))) (agree : table.Shows known types scope)
    (inBlock : Bool) :
    FindsGlobals known (listReferences table items) (Occurrence.placedAt scope inBlock uses) := by
  refine ofReads read agree fun use member => ?_
  obtain ⟨placed, among, rfl⟩ := List.mem_map.mp member
  exact ⟨_, List.mem_map_of_mem among, rfl, rfl⟩

theorem behind {items rest : List ScopeItem} {uses : List Use} (read : Reads items (Use.names uses))
    (agree : table.Shows known types scope)
    (found : FindsGlobals known (listReferences (listAfter table items) rest) more) :
    FindsGlobals known (listReferences table (items ++ rest))
      (Occurrence.elsewhereAt scope uses ++ more) := by
  rw [ScopeItem.listReferences_append]
  exact (elsewhereAt read agree).append found

theorem scopeCons {items rest : List ScopeItem}
    (inside : FindsGlobals known (listReferences table items) occurrences)
    (found : FindsGlobals known (listReferences table rest) more) :
    FindsGlobals known (listReferences table (.scope items :: rest)) (occurrences ++ more) := by
  rw [ScopeItem.listReferences, ScopeItem.references]
  exact inside.append found

theorem inScope {items : List ScopeItem}
    (inside : FindsGlobals known (listReferences table items) occurrences) :
    FindsGlobals known (listReferences table [.scope items]) occurrences := by
  rw [ScopeItem.listReferences, ScopeItem.references, ScopeItem.listReferences, List.append_nil]
  exact inside

end FindsGlobals

def Statement.DeclaresOnly (property : Declaration → Prop) (statement : Statement) : Prop :=
  ∀ part ∈ statement.parts, ∀ declared ∈ part.declared, property declared

theorem Declaration.finds_globals {declarations : List Declaration}
    (declares : ∀ declared ∈ declarations, declared.TypesAmong known types)
    (agree : table.Shows known types scope) :
    FindsGlobals known (listReferences table (declarations.flatMap Declaration.items))
        (Declaration.listOccurrences (.bindings known) scope declarations) ∧
      NameTable.Shows known types (listAfter table (declarations.flatMap Declaration.items))
        (declarations.foldl (Scoping.bindings known).declare scope) := by
  induction declarations generalizing table scope with
  | nil => exact ⟨.nil _, agree⟩
  | cons first rest ih =>
    obtain ⟨own, declares⟩ := List.forall_mem_cons.mp declares
    have typed := first.type.items_read first.span
    have initialized := optionalItems_read Initializer.items_read first.initializer
    have declared := (agree.reads typed).declare own
    obtain ⟨found, still⟩ := ih declares (declared.reads initialized)
    simp only [List.flatMap_cons, Declaration.items, Declaration.headItems,
      ScopeItem.listReferences_append, ScopeItem.listAfter_append, listOccurrences, occurrences,
      ScopeItem.listReferences, ScopeItem.references, List.append_nil]
    exact ⟨((FindsGlobals.elsewhereAt typed agree).append (.elsewhereAt initialized declared)).append
      found, still⟩

namespace Statement

theorem finds_globals_block {statements : List Statement}
    (each : ∀ statement ∈ statements, ∀ (table : NameTable) (scope : Bindings),
      table.Shows known types scope → FindsGlobals known (listReferences table statement.items)
          (statement.occurrences (.bindings known) true scope) ∧
        NameTable.Shows known types (listAfter table statement.items)
          (statement.scopeAfter (.bindings known) scope)) (agree : table.Shows known types scope) :
    FindsGlobals known (listReferences table (listItems statements))
      (listOccurrences (.bindings known) scope statements) := by
  induction statements generalizing table scope with
  | nil => exact .nil _
  | cons first rest ih =>
    obtain ⟨here, behind⟩ := List.forall_mem_cons.mp each
    obtain ⟨found, still⟩ := here table scope agree
    rw [listItems, listOccurrences, ScopeItem.listReferences_append]
    exact found.append (ih behind still)

theorem IsLoopHead.finds_globals {init : Statement} (head : init.IsLoopHead)
    (declares : init.DeclaresOnly (·.TypesAmong known types))
    (agree : table.Shows known types scope) (inBlock : Bool) :
    FindsGlobals known (listReferences table init.items) (init.occurrences (.bindings known) inBlock scope) ∧
      NameTable.Shows known types (listAfter table init.items) (init.scopeAfter (.bindings known) scope) := by
  cases head with
  | expression span value =>
    have read := value.map_fst_statementUses ▸ value.items_read false
    exact ⟨.placedAt read agree inBlock, agree.reads read⟩
  | declaration span declarations =>
    exact Declaration.finds_globals (declares _ (self_mem_parts _)) agree
  | typeDefinition span type =>
    have read := type.definitionItems_read span
    exact ⟨.elsewhereAt read agree, agree.reads read⟩

theorem Braced.finds_globals {statement : Statement} (braced : statement.Braced)
    (declares : statement.DeclaresOnly (·.TypesAmong known types))
    (agree : table.Shows known types scope) (inBlock : Bool) :
    FindsGlobals known (listReferences table statement.items)
        (statement.occurrences (.bindings known) inBlock scope) ∧
      NameTable.Shows known types (listAfter table statement.items)
        (statement.scopeAfter (.bindings known) scope) := by
  have ofExpr (value : Expr) : Reads (value.items false) (Use.names value.uses) :=
    value.items_read false
  have loopHead (condition update : Option Expr) :
      Reads (optionalItems (Expr.items false) condition ++ optionalItems (Expr.items false) update)
        (Use.names (optionalUses Expr.uses condition ++ optionalUses Expr.uses update)) := by
    rw [Use.names, List.map_append]
    exact (optionalItems_read ofExpr condition).append (optionalItems_read ofExpr update)
  induction braced generalizing table scope inBlock with
  | expression span value =>
    exact IsLoopHead.finds_globals (.expression span value) declares agree inBlock
  | declaration span declarations =>
    exact IsLoopHead.finds_globals (.declaration span declarations) declares agree inBlock
  | typeDefinition span type =>
    exact IsLoopHead.finds_globals (.typeDefinition span type) declares agree inBlock
  | block span statements each ih =>
    simp only [DeclaresOnly, parts_block, List.forall_mem_cons, listParts, List.mem_flatMap] at declares
    refine ⟨(finds_globals_block (fun statement member table scope agree => ?_) agree.enter).inScope, agree⟩
    exact ih statement member (fun part inside => declares.2 part ⟨statement, member, inside⟩) agree true
  | ifElse span condition thenBranch elseBranch thenBlock elseBlock thenBraced elseBraced thenIh
      elseIh =>
    simp only [DeclaresOnly, parts_ifElse, List.forall_mem_cons, List.forall_mem_append] at declares
    have inside := agree.reads (ofExpr condition)
    rw [items, occurrences, scopeAfter, scopeAfter_of_isBlock _ _ thenBlock,
      scopeAfter_of_isBlock _ _ elseBlock]
    refine ⟨.inScope (.behind (ofExpr condition) agree (.scopeCons ?_ (.inScope ?_))), agree⟩
    · exact (thenIh declares.2.1 inside false).1
    · exact (elseIh declares.2.2 inside false).1
  | whileLoop span value body bodyBlock _ ih | switch span value body bodyBlock _ ih =>
    simp only [DeclaresOnly, parts_whileLoop, parts_switch, List.forall_mem_cons] at declares
    rw [items, occurrences, scopeAfter, scopeAfter_of_isBlock _ _ bodyBlock]
    refine ⟨.inScope (.behind (ofExpr value) agree (.inScope ?_)), agree⟩
    exact (ih declares.2 (agree.reads (ofExpr value)) false).1
  | bareLoop span condition update body bodyBlock _ ih =>
    simp only [DeclaresOnly, parts_bareLoop, List.forall_mem_cons] at declares
    rw [items, occurrences, scopeAfter, scopeAfter_of_isBlock _ _ bodyBlock]
    refine ⟨.inScope (.behind (loopHead condition update) agree (.inScope ?_)), agree⟩
    exact (ih declares.2 (agree.reads (loopHead condition update)) false).1
  | forLoop span init condition update body head bodyBlock _ ih =>
    simp only [DeclaresOnly, parts_forLoop, List.forall_mem_cons, List.forall_mem_append] at declares
    obtain ⟨found, opened⟩ := head.finds_globals declares.2.1 agree.enter false
    rw [items, occurrences]
    refine ⟨.inScope ?_, agree⟩
    rw [ScopeItem.listReferences_append]
    refine found.append (.behind (loopHead condition update) opened (.inScope ?_))
    exact (ih declares.2.2 (opened.reads (loopHead condition update)) false).1
  | doWhile span body condition bodyBlock _ ih =>
    simp only [DeclaresOnly, parts_doWhile, List.forall_mem_cons] at declares
    rw [items, occurrences, scopeAfter, scopeAfter_of_isBlock _ _ bodyBlock]
    refine ⟨.inScope (.scopeCons (ih declares.2 agree false).1 ?_), agree⟩
    exact .elsewhereAt (ofExpr condition) agree
  | caseLabel span value statement marked _ ih =>
    simp only [DeclaresOnly, parts_caseLabel, List.forall_mem_cons] at declares
    obtain ⟨found, still⟩ := ih declares.2 (agree.reads (ofExpr value)) false
    rw [items, occurrences, scopeAfter, ScopeItem.listAfter_append]
    exact ⟨.behind (ofExpr value) agree found, still⟩
  | defaultLabel span statement marked _ ih | labelled span label statement marked _ ih =>
    simp only [DeclaresOnly, parts_defaultLabel, parts_labelled, List.forall_mem_cons] at declares
    exact ih declares.2 agree false
  | returnStatement span value =>
    have read : Reads (optionalItems (Expr.items false) value) (Use.names
        (((value.map fun value => value.placedUses (.call .returned)).getD []).map Prod.fst)) := by
      cases value with
      | none => exact .nil _
      | some value => exact value.map_fst_placedUses (.call .returned) ▸ ofExpr value
    exact ⟨.placedAt read agree inBlock, agree.reads read⟩
  | breakStatement | continueStatement | gotoStatement | empty => exact ⟨.nil _, agree⟩

end Statement

end Statements

/-! ## Functions -/

theorem Parameter.standsOutside_after {parameters : List Parameter} {table : NameTable}
    {name : String} (outside : standsOutside
      (listAfter table (Parameter.listItems (.declared .object) parameters) ⟨.ordinary, name⟩)) :
    name ∉ parameters.filterMap Parameter.name := by
  induction parameters generalizing table with
  | nil => exact List.not_mem_nil
  | cons first rest ih =>
    obtain ⟨named, type, span⟩ := first
    cases named with
    | none =>
      rw [Parameter.listItems, ScopeItem.listAfter_append] at outside
      exact ih outside
    | some own =>
      rw [Parameter.listItems, ScopeItem.listAfter_append] at outside
      refine fun among => (List.mem_cons.mp among).elim (fun same => ?_) (ih outside)
      have declared := (Parameter.listItems_read (by simp) rest).after _ _ outside
      rw [same] at declared
      change standsOutside (NameTable.declare _ _ _ _) at declared
      rw [NameTable.declare_self] at declared
      cases declared

variable {known : String → Bool} {types : List String}

theorem Function.headTable_shows (function : Function) :
    function.headTable.Shows known types ((Scoping.bindings known).ofFunction function) := by
  have noType (name : String) :
      Bindings.namesType ((Scoping.bindings known).ofFunction function) name = false := by
    rw [Bindings.namesType, List.any_eq_false]
    intro binding member
    obtain ⟨other, -, rfl⟩ :=
      List.mem_map.mp ((List.mem_append.mp member).resolve_right List.not_mem_nil)
    simp
  refine ⟨List.cons_ne_nil _ _, fun name isKnown outside => ?_, fun name _ _ => noType name,
    fun name _ typed => absurd typed (Bool.eq_false_iff.mp (noType name))⟩
  rw [headTable, ScopeItem.listAfter_append] at outside
  have notAmong := Parameter.standsOutside_after outside
  have none : ((function.parameters.filterMap Parameter.name).filter known).find?
      (fun other => other == name) = Option.none := by
    rw [List.find?_eq_none]
    intro other member same
    exact notAmong (beq_iff_eq.mp same ▸ (List.mem_filter.mp member).1)
  simp [Bindings.namesObject, Scoping.bindings, List.find?_map, Function.comp_def, none]

/-- Each identifier of a known name that refers to something outside of the function is an occurrence
of the name where it is left to stand for something outside, if the function declares nothing outside
under the name of a type. -/
theorem Function.finds_globals {function : Function} (braced : function.body.Braced)
    (declares : function.body.DeclaresOnly (·.TypesAmong known types)) :
    FindsGlobals known function.references (function.body.occurrences (.bindings known) false
      ((Scoping.bindings known).ofFunction function)) :=
  (braced.finds_globals declares function.headTable_shows false).1

end InlineMacro
