import InlineMacro.Proofs.Scope.Calls

/-!
# Declarations of something outside

A declaration in a block can name something outside of the function, and so bring back a name that
a parameter or an object hides. Where no declaration does, a name that is left to stand for
something outside, once the objects have other names, was visible before.
-/

set_option autoImplicit false

namespace InlineMacro

namespace Statement

def objectNames (statements : List Statement) : List String :=
  ((statements.flatMap declared).filter fun declared => declared.bindingKind == .object).map
    Declaration.name

/-- Whether no declaration of a block is one of something outside under the name of an object that
is declared around the block or in it. -/
def declaresApart (objects : List String) (statements : List Statement) : Bool :=
  (statements.flatMap declared).all fun declared =>
    declared.bindingKind != .outside || !(objects ++ objectNames statements).contains declared.name

mutual

/-- Whether no block declares something outside under the name of an object that is declared around
it or in it. The head of a loop counts as a block that takes in the loop. -/
def keepsApart (objects : List String) : Statement → Bool
  | .block _ statements =>
    declaresApart objects statements && listKeepApart (objects ++ objectNames statements) statements
  | .ifElse _ _ thenBranch none => thenBranch.keepsApart objects
  | .ifElse _ _ thenBranch (some elseBranch) =>
    thenBranch.keepsApart objects && elseBranch.keepsApart objects
  | .whileLoop _ _ body => body.keepsApart objects
  | .forLoop _ none _ _ body => body.keepsApart objects
  | .forLoop _ (some init) _ _ body =>
    declaresApart objects [init] && body.keepsApart (objects ++ objectNames [init])
  | .doWhile _ body _ => body.keepsApart objects
  | .switch _ _ body => body.keepsApart objects
  | .caseLabel _ _ statement => statement.keepsApart objects
  | .defaultLabel _ statement => statement.keepsApart objects
  | .labelled _ _ statement => statement.keepsApart objects
  | _ => true

/-- Whether none of several statements has a block that declares something outside under the name
of an object. -/
def listKeepApart (objects : List String) : List Statement → Bool
  | [] => true
  | statement :: statements =>
    statement.keepsApart objects && listKeepApart objects statements

end

variable {statements : List Statement}

theorem listKeepApart_iff {objects : List String} :
    listKeepApart objects statements ↔ ∀ statement ∈ statements, statement.keepsApart objects := by
  induction statements with
  | nil => simp [listKeepApart]
  | cons first rest ih => simp [listKeepApart, ih]

theorem mem_objectNames {name : String} :
    name ∈ objectNames statements ↔ ∃ statement ∈ statements, ∃ declared ∈ statement.declared,
      declared.bindingKind = .object ∧ declared.name = name := by
  simp only [objectNames, List.mem_map, List.mem_filter, List.mem_flatMap, beq_iff_eq]
  constructor
  · rintro ⟨declared, ⟨⟨statement, member, among⟩, object⟩, named⟩
    exact ⟨statement, member, declared, among, object, named⟩
  · rintro ⟨statement, member, declared, among, object, named⟩
    exact ⟨declared, ⟨⟨statement, member, among⟩, object⟩, named⟩

theorem declaresApart_iff {objects : List String} :
    declaresApart objects statements ↔ ∀ statement ∈ statements, ∀ declared ∈ statement.declared,
      declared.bindingKind = .outside → declared.name ∉ objects ++ objectNames statements := by
  simp only [declaresApart, List.all_eq_true, List.mem_flatMap, Bool.or_eq_true, bne_iff_ne,
    Bool.not_eq_true', List.contains_eq_mem, decide_eq_false_iff_not]
  constructor
  · intro apart statement member declared among outside
    exact (apart declared ⟨statement, member, among⟩).resolve_left (absurd outside)
  · rintro apart declared ⟨statement, member, among⟩
    by_cases outside : declared.bindingKind = .outside
    · exact .inr (apart statement member declared among outside)
    · exact .inl outside

/-- Declarations under the names of some objects: they declare no further ones, and nothing outside
under such a name. -/
def DeclaredApart (objects : List String) (declarations : List Declaration) : Prop :=
  ∀ declared ∈ declarations, (declared.bindingKind = .object → declared.name ∈ objects) ∧
    (declared.bindingKind = .outside → declared.name ∉ objects)

theorem DeclaredApart.ofBlock {objects : List String} {statement : Statement}
    (isBlock : statement.isBlock) : DeclaredApart objects statement.declared := by
  rw [declared_of_isBlock isBlock]
  exact fun _ member => absurd member List.not_mem_nil

theorem DeclaredApart.ofMarked {objects : List String} {statement : Statement}
    (marked : statement.isMarked) : DeclaredApart objects statement.declared := by
  rw [declared_of_isMarked marked]
  exact fun _ member => absurd member List.not_mem_nil

theorem declaredApart_of_block {objects : List String}
    (apart : ∀ statement ∈ statements, ∀ declared ∈ statement.declared,
      declared.bindingKind = .outside → declared.name ∉ objects ++ objectNames statements) :
    ∀ statement ∈ statements, DeclaredApart (objects ++ objectNames statements) statement.declared := by
  refine fun statement member declared among => ⟨fun isObject => ?_, apart statement member declared among⟩
  exact List.mem_append_right _ (mem_objectNames.mpr ⟨statement, member, declared, among, isObject, rfl⟩)

end Statement

open Statement (DeclaredApart)

/-! ## Scopes -/

/-- What is left to stand for something outside, once the objects have other names, is visible. The
objects in scope are among those given. -/
structure Bindings.Separated (objects : List String) (scope : Bindings) : Prop where
  opened : scope ≠ []
  objects : ∀ binding ∈ scope.flatten, binding.kind = .object → binding.name ∈ objects
  visible : ∀ name, scope.exposes name → scope.hides name = false

namespace Bindings.Separated

variable {known : String → Bool} {objects : List String} {scope : Bindings}

theorem mono {wider : List String} (separated : scope.Separated objects) (subset : objects ⊆ wider) :
    scope.Separated wider :=
  ⟨separated.opened, fun binding member object => subset (separated.objects binding member object),
    separated.visible⟩

theorem enter (separated : scope.Separated objects) :
    Bindings.Separated objects ((Scoping.bindings known).enter scope) :=
  ⟨List.cons_ne_nil _ _, separated.objects, separated.visible⟩

theorem not_object (separated : scope.Separated objects) {name : String} (notAmong : name ∉ objects)
    (noType : scope.namesType name = false) : scope.hides name = false := by
  refine separated.visible name ?_
  have noObject : scope.namesObject name = false := by
    unfold namesObject
    cases found : scope.flatten.find? fun binding => binding.name == name with
    | none => rfl
    | some binding =>
      have same : binding.name = name := by simpa using List.find?_some found
      rw [Option.any_some, Bool.eq_false_iff]
      intro object
      have among := separated.objects binding (List.mem_of_find?_eq_some found) (beq_iff_eq.mp object)
      exact notAmong (same ▸ among)
  rw [exposes, noObject, noType]
  rfl

theorem ofObjects {names : List String} (among : names ⊆ objects) :
    Bindings.Separated objects [names.map (⟨·, .object⟩)] where
  opened := List.cons_ne_nil _ _
  objects binding member _ := by
    rw [List.flatten_singleton, List.mem_map] at member
    obtain ⟨name, found, rfl⟩ := member
    exact among found
  visible name exposed := by
    have noObject : Bindings.namesObject [names.map (⟨·, .object⟩)] name = false := by
      rw [exposes, Bool.and_eq_true, Bool.not_eq_true'] at exposed
      exact exposed.1
    rw [hides, List.any_eq_false]
    intro binding member
    unfold namesObject at noObject
    rw [List.flatten_singleton] at noObject member
    cases found : (names.map fun name => (⟨name, .object⟩ : Binding)).find? fun binding =>
        binding.name == name with
    | none =>
      have other := List.find?_eq_none.mp found binding member
      simpa using fun same => absurd same (by simpa using other)
    | some first =>
      obtain ⟨given, -, rfl⟩ := List.mem_map.mp (List.mem_of_find?_eq_some found)
      rw [found] at noObject
      cases noObject

theorem add (separated : scope.Separated objects) (binding : Binding)
    (object : binding.kind = .object → binding.name ∈ objects)
    (outside : binding.kind = .outside → binding.name ∉ objects) :
    (scope.add binding).Separated objects where
  opened := add_ne_nil separated.opened binding
  objects other member isObject := by
    have opened := separated.opened
    have before := separated.objects other
    cases scope with
    | nil => exact absurd rfl opened
    | cons frame frames =>
      rcases List.mem_cons.mp member with rfl | member
      · exact object isObject
      · exact before member isObject
  visible name exposed := by
    rw [exposes, namesObject_add separated.opened, namesType_add separated.opened] at exposed
    rw [hides_add separated.opened]
    by_cases same : name = binding.name
    · subst same
      have kept := outside
      cases kind : binding.kind with
      | object => simp [kind] at exposed
      | typeName => simp [kind] at exposed
      | outside =>
        have noType : scope.namesType binding.name = false := by simpa [kind] using exposed
        simpa using separated.not_object (outside kind) noType
    · have other : (binding.name == name) = false := by simpa using Ne.symm same
      rw [if_neg same, other] at exposed
      rw [other]
      exact separated.visible name (by simpa [exposes] using exposed)

theorem declareAll (separated : scope.Separated objects) (declarations : List Declaration)
    (apart : DeclaredApart objects declarations) :
    Bindings.Separated objects (declarations.foldl (Scoping.bindings known).declare scope) := by
  induction declarations generalizing scope with
  | nil => exact separated
  | cons first rest ih =>
    have next : Bindings.Separated objects ((Scoping.bindings known).declare scope first) := by
      unfold Scoping.bindings
      dsimp only
      split
      · exact separated.add _ (apart first (by simp)).1 (apart first (by simp)).2
      · exact separated
    exact ih next fun declared member => apart declared (by simp [member])

end Bindings.Separated

/-! ## Occurrences -/

def Occurrence.IsSeparated (occurrence : Occurrence Bindings) : Prop :=
  ∀ name, occurrence.scope.exposes name → occurrence.scope.hides name = false

section Occurrences

variable {known : String → Bool} {objects : List String} {scope : Bindings}

theorem Bindings.Separated.elsewhereAt (separated : scope.Separated objects) (uses : List Use) :
    ∀ occurrence ∈ Occurrence.elsewhereAt scope uses, occurrence.IsSeparated := by
  intro occurrence member
  obtain ⟨use, -, rfl⟩ := List.mem_map.mp member
  exact separated.visible

theorem Bindings.Separated.placedAt (separated : scope.Separated objects) (inBlock : Bool)
    (uses : List (Use × UsePlace)) :
    ∀ occurrence ∈ Occurrence.placedAt scope inBlock uses, occurrence.IsSeparated := by
  intro occurrence member
  obtain ⟨use, -, rfl⟩ := List.mem_map.mp member
  exact separated.visible

theorem Declaration.separated_listOccurrences (separated : scope.Separated objects)
    (declarations : List Declaration) (apart : DeclaredApart objects declarations) :
    ∀ occurrence ∈ Declaration.listOccurrences (.bindings known) scope declarations,
      occurrence.IsSeparated := by
  induction declarations generalizing scope with
  | nil => exact fun _ member => absurd member List.not_mem_nil
  | cons first rest ih =>
    have next : Bindings.Separated objects ((Scoping.bindings known).declare scope first) :=
      separated.declareAll [first] (by simpa [DeclaredApart] using apart first (by simp))
    intro occurrence member
    rw [Declaration.listOccurrences, Declaration.occurrences, List.append_assoc, List.mem_append,
      List.mem_append] at member
    rcases member with member | member | member
    · exact separated.elsewhereAt _ occurrence member
    · exact next.elsewhereAt _ occurrence member
    · exact ih next (fun declared among => apart declared (by simp [among])) occurrence member

namespace Statement

theorem separated_of_head {init : Statement} (head : init.IsLoopHead)
    (separated : scope.Separated objects) (apart : DeclaredApart objects init.declared) (inBlock : Bool) :
    ∀ occurrence ∈ init.occurrences (.bindings known) inBlock scope, occurrence.IsSeparated := by
  cases head with
  | expression span value => exact separated.placedAt inBlock value.statementUses
  | declaration span declarations =>
    exact Declaration.separated_listOccurrences separated declarations apart
  | typeDefinition span type => exact separated.elsewhereAt type.uses

theorem separated_block {statements : List Statement}
    (each : ∀ statement ∈ statements, statement.Braced ∧ ∀ scope : Bindings, scope.Separated objects →
      ∀ occurrence ∈ statement.occurrences (.bindings known) true scope, occurrence.IsSeparated)
    (apart : ∀ statement ∈ statements, DeclaredApart objects statement.declared)
    (separated : scope.Separated objects) :
    ∀ occurrence ∈ listOccurrences (.bindings known) scope statements, occurrence.IsSeparated := by
  induction statements generalizing scope with
  | nil => exact fun _ member => absurd member List.not_mem_nil
  | cons first rest ih =>
    obtain ⟨braced, holds⟩ := each first (by simp)
    intro occurrence member
    rcases List.mem_append.mp member with member | member
    · exact holds scope separated occurrence member
    · refine ih (fun statement among => each statement (by simp [among]))
        (fun statement among => apart statement (by simp [among])) ?_ occurrence member
      rw [braced.scopeAfter_eq]
      exact separated.declareAll first.declared (apart first (by simp))

theorem Braced.separated {statement : Statement} (braced : statement.Braced)
    (separated : scope.Separated objects) (apart : statement.keepsApart objects)
    (own : DeclaredApart objects statement.declared) (inBlock : Bool) :
    ∀ occurrence ∈ statement.occurrences (.bindings known) inBlock scope, occurrence.IsSeparated := by
  induction braced generalizing objects scope inBlock with
  | expression span value => exact separated.placedAt inBlock value.statementUses
  | block span entries each ih =>
    rw [keepsApart, Bool.and_eq_true, declaresApart_iff, listKeepApart_iff] at apart
    have declared := declaredApart_of_block apart.1
    refine separated_block (fun entry member => ⟨each entry member, fun scope separated => ?_⟩)
      declared (separated.enter.mono (List.subset_append_left _ _))
    exact ih entry member separated (apart.2 entry member) (declared entry member) true
  | declaration span declarations =>
    exact Declaration.separated_listOccurrences separated declarations own
  | typeDefinition span type => exact separated.elsewhereAt type.uses
  | ifElse span condition thenBranch elseBranch thenBlock elseBlock _ _ thenIh elseIh =>
    rw [keepsApart, Bool.and_eq_true] at apart
    intro occurrence member
    rw [occurrences, scopeAfter_of_isBlock _ _ thenBlock, List.mem_append, List.mem_append] at member
    rcases member with member | member | member
    · exact separated.elsewhereAt _ occurrence member
    · exact thenIh separated apart.1 (.ofBlock thenBlock) false occurrence member
    · exact elseIh separated apart.2 (.ofBlock elseBlock) false occurrence member
  | whileLoop span condition body bodyBlock _ ih | switch span subject body bodyBlock _ ih =>
    intro occurrence member
    rcases List.mem_append.mp member with member | member
    · exact separated.elsewhereAt _ occurrence member
    · exact ih separated apart (.ofBlock bodyBlock) false occurrence member
  | bareLoop span condition update body bodyBlock _ ih =>
    intro occurrence member
    rcases List.mem_append.mp member with member | member
    · exact separated.elsewhereAt _ occurrence member
    · exact ih separated apart (.ofBlock bodyBlock) false occurrence member
  | forLoop span init condition update body head bodyBlock _ ih =>
    rw [keepsApart, Bool.and_eq_true, declaresApart_iff] at apart
    have headApart := declaredApart_of_block apart.1 init (List.mem_singleton_self _)
    have opened : Bindings.Separated (objects ++ objectNames [init]) ((Scoping.bindings known).enter scope) :=
      separated.enter.mono (List.subset_append_left _ _)
    have behind : Bindings.Separated (objects ++ objectNames [init])
        (init.scopeAfter (.bindings known) ((Scoping.bindings known).enter scope)) := by
      rw [head.braced.scopeAfter_eq]
      exact opened.declareAll init.declared headApart
    intro occurrence member
    rw [occurrences, List.mem_append, List.mem_append] at member
    rcases member with member | member | member
    · exact separated_of_head head opened headApart false occurrence member
    · exact behind.elsewhereAt _ occurrence member
    · exact ih behind apart.2 (.ofBlock bodyBlock) false occurrence member
  | doWhile span body condition bodyBlock _ ih =>
    intro occurrence member
    rw [occurrences, scopeAfter_of_isBlock _ _ bodyBlock, List.mem_append] at member
    rcases member with member | member
    · exact ih separated apart (.ofBlock bodyBlock) false occurrence member
    · exact separated.elsewhereAt _ occurrence member
  | caseLabel span value statement marked _ ih =>
    intro occurrence member
    rcases List.mem_append.mp member with member | member
    · exact separated.elsewhereAt _ occurrence member
    · exact ih separated apart (.ofMarked marked) false occurrence member
  | defaultLabel span statement marked _ ih =>
    exact ih separated apart (.ofMarked marked) false
  | labelled span label statement marked _ ih =>
    exact ih separated apart (.ofMarked marked) false
  | returnStatement span value => exact separated.placedAt inBlock _
  | breakStatement | continueStatement | gotoStatement | empty =>
    exact fun _ member => absurd member List.not_mem_nil

end Statement

end Occurrences

/-- Whether no block of the body declares something outside under the name of a parameter or an
object around it. -/
def Function.keepsApart (function : Function) : Bool :=
  function.body.keepsApart (function.parameters.filterMap Parameter.name)

theorem Function.separated_calls {known : String → Bool} {function : Function}
    (braced : function.body.Braced) (isBlock : function.body.isBlock)
    (apart : function.keepsApart) : ∀ occurrence ∈ function.calls known, occurrence.IsSeparated := by
  have separated : Bindings.Separated (function.parameters.filterMap Parameter.name)
      ((Scoping.bindings known).ofFunction function) :=
    .ofObjects fun name member => (List.mem_filter.mp member).1
  intro occurrence member
  exact braced.separated separated apart (.ofBlock isBlock) false occurrence (List.mem_filter.mp member).1

end InlineMacro
