import InlineMacro.Proofs.Pass.RenameNames
import InlineMacro.Proofs.Pass.RenameReferences
import InlineMacro.Proofs.Run.Success

/-!
# Functions behind renaming

A parameter becomes the copy of its argument, or the argument itself. The head of the macro declares
the arguments, and its body starts with the copies. Every name in a function resolves behind renaming
to what it resolved to before, where nothing that renaming does not look at has the name of an object.
-/

set_option autoImplicit false

namespace InlineMacro

open Node (Spelled)
open ScopeItem (listAfter listReferences listKeptNames listObjectNames)

theorem CType.withoutBodies_traverse (traversal : Traversal Id) : ∀ type : CType,
    (Id.run (type.traverse traversal)).withoutBodies = Id.run (type.withoutBodies.traverse traversal)
  | .record _ none none | .record _ none (some _) | .record _ (some _) none
  | .record _ (some _) (some _) | .enumeration none none | .enumeration none (some _)
  | .enumeration (some _) none | .enumeration (some _) (some _) | .basic _ | .named _ => rfl
  | .pointer qualifiers target =>
    congrArg (CType.pointer qualifiers) (target.withoutBodies_traverse traversal)
  | .array element none => congrArg (CType.array · none) (element.withoutBodies_traverse traversal)
  | .array element (some size) =>
    congrArg (CType.array · (some (Id.run (size.traverse traversal))))
      (element.withoutBodies_traverse traversal)
  | .function result parameters isVariadic =>
    congrArg (CType.function · (Id.run (Parameter.traverseList traversal parameters)) isVariadic)
      (result.withoutBodies_traverse traversal)
  | .qualified qualifiers inner =>
    congrArg (CType.qualified qualifiers) (inner.withoutBodies_traverse traversal)

/-! ## Types -/

theorem listKeptNames_tagUses (place : Span) (tag : Option String) :
    listKeptNames (tagUses place tag) = [] := by
  cases tag <;> rfl

theorem listKeptNames_tagItems (place : Span) (tag : Option String) :
    listKeptNames (tagItems place tag) = [] := by
  cases tag <;> rfl

theorem Enumerator.listKeptNames_place (place other : Span) (enumerators : List Enumerator) :
    listKeptNames (Enumerator.listItems place enumerators) =
      listKeptNames (Enumerator.listItems other enumerators) := by
  induction enumerators with
  | nil => rfl
  | cons first rest ih =>
    obtain ⟨name, _ | value⟩ := first <;>
      simp only [Enumerator.listItems, ScopeItem.listKeptNames_append, listKeptNames, ScopeItem.keptNames, ih]

mutual

theorem CType.listKeptNames_place (place other : Span) : ∀ type : CType,
    listKeptNames (type.items place) = listKeptNames (type.items other)
  | .basic _ | .named _ => rfl
  | .pointer _ target => target.listKeptNames_place place other
  | .array element none => element.listKeptNames_place place other
  | .array element (some _) | .function element _ _ => by
    simp only [CType.items, ScopeItem.listKeptNames_append, element.listKeptNames_place place other]
  | .record _ tag none | .enumeration tag none =>
    (listKeptNames_tagUses place tag).trans (listKeptNames_tagUses other tag).symm
  | .record _ tag (some fields) => by
    simp only [CType.items, ScopeItem.listKeptNames_append, listKeptNames_tagItems,
      Field.listKeptNames_place place other fields]
  | .enumeration tag (some enumerators) => by
    simp only [CType.items, ScopeItem.listKeptNames_append, listKeptNames_tagItems,
      Enumerator.listKeptNames_place place other enumerators]
  | .qualified _ inner => inner.listKeptNames_place place other

theorem Field.listKeptNames_place (place other : Span) : ∀ fields : List Field,
    listKeptNames (Field.listItems place fields) = listKeptNames (Field.listItems other fields)
  | [] => rfl
  | ⟨_, type, none⟩ :: rest | ⟨_, type, some _⟩ :: rest => by
    simp only [Field.listItems, ScopeItem.listKeptNames_append,
      type.listKeptNames_place place other, Field.listKeptNames_place place other rest]

end

theorem CType.listKeptNames_withoutBodies (place : Span) : ∀ type : CType,
    listKeptNames (type.withoutBodies.items place) ⊆ listKeptNames (type.items place)
  | .basic _ | .named _ | .record _ none _ | .enumeration none _ => fun _ member => member
  | .record _ (some _) _ | .enumeration (some _) _ => fun _ member => absurd member List.not_mem_nil
  | .pointer _ target => target.listKeptNames_withoutBodies place
  | .array element none => element.listKeptNames_withoutBodies place
  | .array element (some _) | .function element _ _ => by
    simp only [withoutBodies, CType.items, ScopeItem.listKeptNames_append]
    exact List.append_subset.mpr ⟨List.Subset.trans (element.listKeptNames_withoutBodies place)
      (List.subset_append_left _ _), List.subset_append_right _ _⟩
  | .qualified _ inner => inner.listKeptNames_withoutBodies place

/-! ## Functions -/

def Function.resultTable (function : Function) : NameTable :=
  listAfter (fun _ => none) (function.result.items function.span)

def Function.items (function : Function) : List ScopeItem :=
  function.result.items function.span ++
    Parameter.listItems (.declared .object) function.parameters ++ function.body.items

def Function.headReferences (function : Function) : List Reference :=
  listReferences (fun _ => none)
    (function.result.items function.span ++
      Parameter.listItems (.declared .object) function.parameters)

/-- Nothing in a function that renaming does not look at has the name of an object, and the types of
parameters can be written a second time: they declare no constants then, and what they refer to is
not declared by later ones. -/
structure Function.KeepsApart (function : Function) : Prop where
  kept : ∀ name ∈ listKeptNames function.items, name ∉ listObjectNames function.items
  builtin : "__builtin_offsetof" ∉ listObjectNames function.items
  plain : ∀ parameter ∈ function.parameters,
    ScopeItem.introduced (parameter.type.withoutBodies.items .synthetic) = []
  earlier : function.parameters.Pairwise fun former latter =>
    ∀ use ∈ ScopeItem.listUses (former.type.withoutBodies.items .synthetic),
      use.scoped ∉ ScopeItem.introduced (latter.type.items latter.span)

theorem Function.keepsApart_iff {function : Function} : function.KeepsApart ↔
      (∀ name ∈ listKeptNames function.items, name ∉ listObjectNames function.items) ∧
      "__builtin_offsetof" ∉ listObjectNames function.items ∧
      (∀ parameter ∈ function.parameters,
        ScopeItem.introduced (parameter.type.withoutBodies.items .synthetic) = []) ∧
      function.parameters.Pairwise fun former latter =>
        ∀ use ∈ ScopeItem.listUses (former.type.withoutBodies.items .synthetic),
          use.scoped ∉ ScopeItem.introduced (latter.type.items latter.span) :=
  ⟨fun apart => ⟨apart.kept, apart.builtin, apart.plain, apart.earlier⟩,
    fun ⟨kept, builtin, plain, earlier⟩ => ⟨kept, builtin, plain, earlier⟩⟩

instance {function : Function} : Decidable function.KeepsApart :=
  decidable_of_iff' _ Function.keepsApart_iff

namespace Renaming

variable {start : Registry} {objects : List String}
  {parameters : List (Parameter × RenamedParameter)} {state : RenameState} {table renamed : NameTable}
  {items others : List ScopeItem}

/-! ## Parameters -/

theorem Follows.eq_of_notObject {reference result : Reference}
    (follows : Follows start parameters reference result)
    (noObject : reference.entity.any Entity.isObject = false) : result = reference := by
  cases follows with
  | other => rfl
  | object isObject _ | notType _ isObject =>
    rw [Option.any_some, isObject] at noObject
    cases noObject

theorem Followed.eq_of_notObject {references results : List Reference}
    (follows : List.Forall₂ (Follows start parameters) references results)
    (noObject : ∀ reference ∈ references, reference.entity.any Entity.isObject = false) :
    results = references := by
  induction follows with
  | nil => rfl
  | cons first _ ih =>
    rw [List.forall_mem_cons] at noObject
    rw [ih noObject.2, first.eq_of_notObject noObject.1]

theorem Followed.mem_of_notObject {references results : List Reference}
    (follows : List.Forall₂ (Follows start parameters) references results) {reference : Reference}
    (occurs : reference ∈ references) (noObject : reference.entity.any Entity.isObject = false) :
    reference ∈ results := by
  induction follows with
  | nil => cases occurs
  | cons first _ ih =>
    rcases List.mem_cons.mp occurs with rfl | occurs
    · rw [first.eq_of_notObject noObject]
      exact List.mem_cons_self
    · exact List.mem_cons_of_mem _ (ih occurs)

theorem listAfter_front {new copies : List ScopeItem}
    (apart : ∀ name ∈ ScopeItem.introduced new, name ∉ ScopeItem.introduced copies) (head : NameTable) :
    listAfter (listAfter head new) copies = listAfter (listAfter head copies) new := by
  rw [← ScopeItem.listAfter_append, ScopeItem.listAfter_comm apart, ScopeItem.listAfter_append]

/-- The head of a function and the copies of arguments mirror the head before renaming. The copies
declare new names. -/
structure HeadMirrors (start : Registry) (objects : List String)
    (parameters : List (Parameter × RenamedParameter)) (state : RenameState) (table head : NameTable)
    (copies : List ScopeItem) : Prop where
  mirrors : Mirrors start objects parameters state table (listAfter head copies)
  copied : ∀ name ∈ ScopeItem.introduced copies,
    name.space = .ordinary ∧ name.name ∉ start.used ∧ name.name ∈ state.registry.used

variable {head : NameTable} {copies : List ScopeItem}

theorem HeadMirrors.references (heads : HeadMirrors start objects parameters state table head copies)
    (behind : ScopeItem.Renamed state.table.aliasOf (· ∈ start.used) items others)
    (kept : ∀ name ∈ listKeptNames items, name ∉ objects)
    (noObject : ∀ reference ∈ listReferences table items, reference.entity.any Entity.isObject = false) :
    others = items ∧ listReferences head items = listReferences table items := by
  have same := Followed.eq_of_notObject (heads.mirrors.follows behind kept).1 noObject
  have uses := congrArg (List.map Reference.use) same
  rw [ScopeItem.map_use_listReferences, ScopeItem.map_use_listReferences] at uses
  obtain rfl := behind.eq_of_uses uses
  refine ⟨rfl, Eq.trans (ScopeItem.listReferences_congr _ fun use member => ?_) same⟩
  refine (ScopeItem.listAfter_of_not_introduced (fun introduced => ?_) head).symm
  exact (heads.copied _ introduced).2.1 (behind.word_of_use use member)

def copyOf (known argument : String) (type : CType) (place : Span) : Declaration :=
  { Declaration.ofVariable known type.withoutBodies with
    initializer := some (.expression place (.ofName argument)) }

section Copies

variable {known argument : String} {given : CType} {place : Span}

theorem items_copyOf : Statement.listItems [.ofDeclaration (copyOf known argument given place)] =
      given.withoutBodies.items .synthetic ++
        [.declare ⟨.ordinary, known⟩ (copyOf known argument given place).entity,
          .use ⟨.identifier, argument, .synthetic⟩] := by
  change (given.withoutBodies.items .synthetic ++
    [.declare ⟨.ordinary, known⟩ (copyOf known argument given place).entity] ++
      [.use ⟨.identifier, argument, .synthetic⟩] ++ []) ++ [] = _
  rw [List.append_nil, List.append_nil, List.append_assoc]
  rfl

theorem listUses_copyOf :
    ScopeItem.listUses (Statement.listItems [.ofDeclaration (copyOf known argument given place)]) =
      ScopeItem.listUses (given.withoutBodies.items .synthetic) ++ [⟨.identifier, argument, .synthetic⟩] := by
  rw [items_copyOf, ScopeItem.listUses_append]
  rfl

variable (plain : ScopeItem.introduced (given.withoutBodies.items .synthetic) = [])

include plain

theorem listAfter_copyOf (before : NameTable) :
    listAfter before (Statement.listItems [.ofDeclaration (copyOf known argument given place)]) =
      before.declare ⟨.ordinary, known⟩ (copyOf known argument given place).entity := by
  rw [items_copyOf, ScopeItem.listAfter_append, ScopeItem.listAfter_of_introduced_nil plain]
  rfl

theorem introduced_copyOf : ScopeItem.introduced
      (Statement.listItems [.ofDeclaration (copyOf known argument given place)]) = [⟨.ordinary, known⟩] := by
  rw [items_copyOf, ScopeItem.introduced_append, plain]
  rfl

theorem listReferences_copyOf (before : NameTable) (different : argument ≠ known) :
    listReferences before (Statement.listItems [.ofDeclaration (copyOf known argument given place)]) =
      listReferences before (given.withoutBodies.items .synthetic) ++
        [⟨⟨.identifier, argument, .synthetic⟩, before ⟨.ordinary, argument⟩⟩] := by
  have apart : (⟨.ordinary, argument⟩ : ScopedName) ≠ ⟨.ordinary, known⟩ := by simpa using different
  rw [items_copyOf, ScopeItem.listReferences_append, ScopeItem.listAfter_of_introduced_nil plain]
  change _ ++ [(⟨_, before.declare ⟨.ordinary, known⟩ _ ⟨.ordinary, argument⟩⟩ : Reference)] = _
  rw [NameTable.declare_of_ne _ _ apart]

end Copies

def typeNames (given : List Parameter) : List ScopedName :=
  given.flatMap fun parameter => ScopeItem.introduced (parameter.type.items parameter.span)

def copiedUses (given : List Parameter) : List NameUse :=
  given.flatMap fun parameter => ScopeItem.listUses (parameter.type.withoutBodies.items .synthetic)

abbrev headItems (given : List Parameter) : List ScopeItem :=
  Parameter.listItems (.declared .object) given

abbrev copyItems (results : List RenamedParameter) : List ScopeItem :=
  Statement.listItems (results.filterMap RenamedParameter.copy)

/-- The references of the copies of arguments: what the types of the parameters refer to, where these
stand, and the arguments. -/
inductive Copied (start : Registry) (parameters : List (Parameter × RenamedParameter)) :
    NameTable → List Parameter → List RenamedParameter → List Reference → Prop where
  | nil (table : NameTable) : Copied start parameters table [] [] []
  | kept {table : NameTable} {given : Parameter} {result : RenamedParameter} {rest : List Parameter}
    {results : List RenamedParameter} {references : List Reference} (noCopy : result.copy = none)
    (others : Copied start parameters (listAfter table (headItems [given])) rest results references) :
    Copied start parameters table (given :: rest) (result :: results) references
  | copy {table : NameTable} {given renamed : Parameter} {argument : String} {copied : Declaration}
    {rest : List Parameter} {results : List RenamedParameter} {types references : List Reference}
    (named : renamed.name = some argument)
    (initialized : copied.initializer = some (.expression given.span (.ofName argument)))
    (follows : List.Forall₂ (Follows start parameters)
      (listReferences (listAfter table (given.type.items given.span))
        (given.type.withoutBodies.items .synthetic)) types)
    (others : Copied start parameters (listAfter table (headItems [given])) rest results references) :
    Copied start parameters table (given :: rest) (⟨renamed, some (.ofDeclaration copied)⟩ :: results)
      (types ++ ⟨⟨.identifier, argument, .synthetic⟩, some ⟨.declared .object, given.span⟩⟩ ::
        references)

/-- What parameters of the function become, with the names in scope behind them. -/
structure CarriedParameters (start : Registry) (objects : List String)
    (parameters : List (Parameter × RenamedParameter)) (state : RenameState) (table head : NameTable)
    (copies : List ScopeItem) (given : List Parameter) (results : List RenamedParameter)
    (after : RenameState) : Prop where
  older : state.registry.used ⊆ after.registry.used
  heads : HeadMirrors start objects (parameters ++ given.zip results) after
    (listAfter table (headItems given))
    (listAfter head (headItems (results.map RenamedParameter.parameter))) (copies ++ copyItems results)
  references : (∀ reference ∈ listReferences table (headItems given),
      reference.entity.any Entity.isObject = false) →
    listReferences head (headItems (results.map RenamedParameter.parameter)) =
      listReferences table (headItems given)
  introduces : ∀ name ∈ ScopeItem.introduced (headItems (results.map RenamedParameter.parameter)),
    name.name ∉ state.registry.used ∨ name.name ∈ start.used ∧ name ∈ typeNames given
  mentions : ∀ use ∈ ScopeItem.listUses (copyItems results),
    use.name ∈ after.registry.used ∧ (use.name ∈ start.used → use ∈ copiedUses given)
  copied : Copied start (parameters ++ given.zip results) table given results
    (listReferences
      (listAfter (listAfter head (headItems (results.map RenamedParameter.parameter))) copies)
      (copyItems results))

section Parameters

variable (heads : HeadMirrors start objects parameters state table head copies)
  (behind : ScopeItem.Renamed state.table.aliasOf (· ∈ start.used) items others)

include heads

theorem HeadMirrors.grow {more : List (Parameter × RenamedParameter)} {after : RenameState}
    {given new copied : List ScopeItem}
    (apart : ∀ name ∈ ScopeItem.introduced new, name ∉ ScopeItem.introduced copies)
    (older : state.registry.used ⊆ after.registry.used)
    (isNew : ∀ name ∈ ScopeItem.introduced copied,
      name.space = .ordinary ∧ name.name ∉ start.used ∧ name.name ∈ after.registry.used)
    (mirrors : Mirrors start objects more after (listAfter table given)
      (listAfter (listAfter (listAfter head copies) new) copied)) :
    HeadMirrors start objects more after (listAfter table given) (listAfter head new)
      (copies ++ copied) where
  mirrors := by rwa [ScopeItem.listAfter_append, listAfter_front apart head]
  copied := by
    rw [ScopeItem.introduced_append]
    refine List.forall_mem_append.mpr ⟨fun name member => ?_, isNew⟩
    exact (heads.copied name member).imp_right fun ⟨other, old⟩ => ⟨other, older old⟩

include behind

theorem HeadMirrors.typeApart : ∀ name ∈ ScopeItem.introduced others, name ∉ ScopeItem.introduced copies := by
  intro name member copied
  rw [behind.introduced_eq] at member
  exact (heads.copied name copied).2.1 (behind.word_of_introduced name member)

theorem HeadMirrors.argumentApart {argument : String} {entity : Entity}
    (isNew : argument ∉ state.registry.used) :
    ∀ name ∈ ScopeItem.introduced (others ++ [.declare ⟨.ordinary, argument⟩ entity]),
      name ∉ ScopeItem.introduced copies := by
  rw [ScopeItem.introduced_append]
  refine List.forall_mem_append.mpr ⟨heads.typeApart behind, fun name member copied => ?_⟩
  obtain rfl := List.mem_singleton.mp member
  exact isNew (heads.copied _ copied).2.2

theorem HeadMirrors.argumentReferences {stem argument : String} {entity : Entity}
    (kept : ∀ name ∈ listKeptNames items, name ∉ objects)
    (noObject : ∀ reference ∈ listReferences table (items ++ [.declare ⟨.ordinary, stem⟩ entity]),
      reference.entity.any Entity.isObject = false) :
    listReferences head (others ++ [.declare ⟨.ordinary, argument⟩ entity]) =
      listReferences table (items ++ [.declare ⟨.ordinary, stem⟩ entity]) := by
  rw [ScopeItem.listReferences_append] at noObject
  obtain ⟨same, stays⟩ :=
    heads.references behind kept fun reference member => noObject reference (by simp [member])
  rw [ScopeItem.listReferences_append, ScopeItem.listReferences_append, same, stays]
  rfl

end Parameters

theorem headItems_named (stem : String) (given : CType) (span : Span) : headItems [⟨some stem, given, span⟩] =
      given.items span ++ [.declare ⟨.ordinary, stem⟩ ⟨.declared .object, span⟩] := rfl

theorem unnamed_carried (notObject : "__builtin_offsetof" ∉ objects)
    (heads : HeadMirrors start objects parameters state table head copies) (given : CType)
    (span : Span) (within : Spelled (· ∈ start.used) given.nodes)
    (kept : ∀ name ∈ listKeptNames (given.items span), name ∉ objects) :
    CarriedParameters start objects parameters state table head copies [⟨none, given, span⟩]
      [⟨⟨none, given, span⟩, none⟩] state := by
  have behind := given.renamed_items (heads.mirrors.keepsBuiltin notObject) span within
  have items : headItems [⟨none, given, span⟩] = given.items span := List.append_nil _
  constructor
  case older => exact fun _ member => member
  case heads =>
    have carried := (heads.mirrors.follows behind kept).2
    have apart := heads.typeApart behind
    rw [behind.listAfter_eq] at carried
    rw [behind.introduced_eq] at apart
    rw [List.map_singleton, items]
    exact heads.grow apart (fun _ member => member) nofun (carried.mono (List.subset_append_left _ _))
  case references =>
    rw [List.map_singleton, items]
    exact fun noObject => (heads.references behind kept noObject).2
  case introduces =>
    rw [List.map_singleton, items]
    exact fun name member => .inr ⟨behind.word_of_introduced name member, by simpa [typeNames]⟩
  case mentions => exact nofun
  case copied => exact .kept rfl (.nil _)

section Named

variable {given : CType} {stem argument : String} {span : Span}
  (notObject : "__builtin_offsetof" ∉ objects)
  (heads : HeadMirrors start objects parameters state table head copies)
  (within : Spelled (· ∈ start.used) given.nodes)
  (kept : ∀ name ∈ listKeptNames (given.items span), name ∉ objects)
  (isNew : argument ∉ state.registry.used)

include notObject heads within isNew

theorem named_introduces : ∀ name ∈ ScopeItem.introduced (headItems
        [⟨some argument, Id.run (given.traverse (aliasing state.table)), span⟩]),
      name.name ∉ state.registry.used ∨
        name.name ∈ start.used ∧ name ∈ typeNames [⟨some stem, given, span⟩] := by
  have behind := given.renamed_items (heads.mirrors.keepsBuiltin notObject) span within
  rw [headItems_named, ScopeItem.introduced_append, behind.introduced_eq]
  refine List.forall_mem_append.mpr ⟨fun name member => ?_, fun name member => ?_⟩
  · exact .inr ⟨behind.word_of_introduced name member, by simpa [typeNames]⟩
  · obtain rfl := List.mem_singleton.mp member
    exact .inl isNew

include kept

theorem bound_carried (isObject : stem ∈ objects) {registry : Registry}
    (older : state.registry.used ⊆ registry.used) (issued : argument ∈ registry.used)
    (notBuiltin : argument ≠ "__builtin_offsetof") :
    CarriedParameters start objects parameters state table head copies [⟨some stem, given, span⟩]
      [⟨⟨some argument, Id.run (given.traverse (aliasing state.table)), span⟩, none⟩]
      ⟨state.table.set stem ⟨argument, true⟩, registry⟩ := by
  have behind := given.renamed_items (heads.mirrors.keepsBuiltin notObject) span within
  have carried := (heads.mirrors.follows behind kept).2
  have notOld : argument ∉ start.used := fun old => isNew (heads.mirrors.older old)
  constructor
  case older => exact older
  case heads =>
    have unused (former : String) (formerUsed : former ∈ start.used)
        (same : state.table.aliasOf former = argument) : former = stem :=
      absurd (same ▸ carried.issued former formerUsed) isNew
    have becomes : Becomes start parameters stem ⟨.declared .object, span⟩ argument
      ⟨.declared .object, span⟩ := .object notOld rfl
    have stands : if Entity.isObject ⟨.declared .object, span⟩
        then stem ∈ objects ∧ argument ∉ start.used ∧
          Becomes start parameters stem ⟨.declared .object, span⟩ argument ⟨.declared .object, span⟩
        else argument = stem ∧ (⟨.declared .object, span⟩ : Entity) = ⟨.declared .object, span⟩ :=
      ⟨isObject, notOld, becomes⟩
    have mirrors := carried.set ⟨argument, true⟩ older issued unused
      (fun isBuiltin => absurd isBuiltin notBuiltin) nofun stands
    rw [List.map_singleton, headItems_named, headItems_named]
    refine heads.grow (heads.argumentApart behind isNew) older nofun ?_
    rw [ScopeItem.listAfter_append, ScopeItem.listAfter_append]
    exact mirrors.mono (List.subset_append_left _ _)
  case references =>
    rw [List.map_singleton, headItems_named, headItems_named]
    exact heads.argumentReferences behind kept
  case introduces => exact named_introduces notObject heads within isNew
  case mentions => exact nofun
  case copied => exact .kept rfl (.nil _)

theorem copied_follows : List.Forall₂ (Follows start parameters)
      (listReferences (listAfter table (given.items span)) (given.withoutBodies.items .synthetic))
      (listReferences (listAfter (listAfter head (headItems
          [⟨some argument, Id.run (given.traverse (aliasing state.table)), span⟩])) copies)
        ((Id.run (given.traverse (aliasing state.table))).withoutBodies.items .synthetic)) := by
  have keeps := heads.mirrors.keepsBuiltin notObject
  have inside := CType.within_withoutBodies given within
  have behind := given.renamed_items keeps span within
  have copyBehind := given.withoutBodies.renamed_items keeps .synthetic inside
  have carried := (heads.mirrors.follows behind kept).2
  have stillKept : ∀ name ∈ listKeptNames (given.withoutBodies.items .synthetic), name ∉ objects := by
    intro name member
    rw [given.withoutBodies.listKeptNames_place .synthetic span] at member
    exact kept name (given.listKeptNames_withoutBodies span member)
  have follows := (carried.follows copyBehind stillKept).1
  rw [CType.withoutBodies_traverse, headItems_named,
    listAfter_front (heads.argumentApart behind isNew) head, ScopeItem.listAfter_append]
  -- Only a use of the argument could tell the tables apart.
  convert follows using 1
  refine ScopeItem.listReferences_congr _ fun use member => ?_
  rw [copyBehind.listUses_eq] at member
  obtain ⟨former, formerMember, rfl⟩ := List.mem_map.mp member
  have issued := carried.rename_issued (copyBehind.word_of_use former formerMember)
  refine ScopeItem.listAfter_of_not_introduced (fun declared => ?_) _
  have same : (former.rename state.table.aliasOf).name = argument :=
    congrArg ScopedName.name (List.mem_singleton.mp declared)
  exact isNew (same ▸ issued)

theorem copied_carried (plain : ScopeItem.introduced (given.withoutBodies.items .synthetic) = [])
    {after : RenameState} {known : String} (older : state.registry.used ⊆ after.registry.used)
    (issued : argument ∈ after.registry.used) (different : argument ≠ known)
    (knownNew : known ∉ start.used) (knownIssued : known ∈ after.registry.used)
    (mirrored : ∀ other more, parameters ⊆ more →
      Becomes start more stem ⟨.declared .object, span⟩ known other → Mirrors start objects more after
        ((listAfter table (given.items span)).declare ⟨.ordinary, stem⟩ ⟨.declared .object, span⟩)
        (((listAfter (listAfter head copies)
          ((Id.run (given.traverse (aliasing state.table))).items span)).declare
            ⟨.ordinary, argument⟩ ⟨.declared .object, span⟩).declare ⟨.ordinary, known⟩ other)) :
    CarriedParameters start objects parameters state table head copies [⟨some stem, given, span⟩]
      [⟨⟨some argument, Id.run (given.traverse (aliasing state.table)), span⟩, some (.ofDeclaration
          (copyOf known argument (Id.run (given.traverse (aliasing state.table))) span))⟩] after := by
  have keeps := heads.mirrors.keepsBuiltin notObject
  have inside := CType.within_withoutBodies given within
  have behind := given.renamed_items keeps span within
  have copyBehind := given.withoutBodies.renamed_items keeps .synthetic inside
  rw [← CType.withoutBodies_traverse] at copyBehind
  have carried := (heads.mirrors.follows behind kept).2
  have follows := copied_follows notObject heads within kept isNew
  have notOld : argument ∉ start.used := fun old => isNew (heads.mirrors.older old)
  have staysPlain := copyBehind.introduced_eq.trans plain
  let copied := copyOf known argument (Id.run (given.traverse (aliasing state.table))) span
  let result : RenamedParameter :=
    ⟨⟨some argument, Id.run (given.traverse (aliasing state.table)), span⟩, some (.ofDeclaration copied)⟩
  constructor
  case older => exact older
  case heads =>
    have member : (⟨some stem, given, span⟩, result) ∈ parameters ++ [(_, result)] :=
      List.mem_append_right parameters (List.mem_singleton_self _)
    have mirrors := mirrored _ _ (List.subset_append_left _ _) (.parameter knownNew member rfl rfl rfl)
    rw [List.map_singleton, headItems_named, headItems_named]
    refine heads.grow (heads.argumentApart behind isNew) older ?_ ?_
    · change ∀ name ∈ ScopeItem.introduced (Statement.listItems [.ofDeclaration copied]), _
      rw [introduced_copyOf staysPlain]
      exact List.forall_mem_singleton.mpr ⟨rfl, knownNew, knownIssued⟩
    · change Mirrors _ _ _ _ _ (listAfter _ (Statement.listItems [.ofDeclaration copied]))
      rw [listAfter_copyOf staysPlain, ScopeItem.listAfter_append, ScopeItem.listAfter_append]
      exact mirrors
  case references =>
    rw [List.map_singleton, headItems_named, headItems_named]
    exact heads.argumentReferences behind kept
  case introduces => exact named_introduces notObject heads within isNew
  case mentions =>
    change ∀ use ∈ ScopeItem.listUses (Statement.listItems [.ofDeclaration copied]), _
    rw [listUses_copyOf]
    refine List.forall_mem_append.mpr ⟨fun use member => ?_, ?_⟩
    · rw [copyBehind.listUses_eq] at member
      obtain ⟨former, formerMember, rfl⟩ := List.mem_map.mp member
      have isWord := copyBehind.word_of_use former formerMember
      refine ⟨older (carried.rename_issued isWord), fun stillOld => ?_⟩
      have same := carried.rename_of_used isWord stillOld
      change former.rename state.table.aliasOf ∈ _
      rw [same]
      simpa [copiedUses] using formerMember
    · exact List.forall_mem_singleton.mpr ⟨issued, fun old => absurd old notOld⟩
  case copied =>
    change Copied _ _ _ _ _ (listReferences _ (Statement.listItems [.ofDeclaration copied]))
    rw [listReferences_copyOf staysPlain _ different]
    have declared : listAfter (listAfter head (headItems [result.parameter])) copies
        ⟨.ordinary, argument⟩ = some ⟨.declared .object, span⟩ := by
      rw [headItems_named, listAfter_front (heads.argumentApart behind isNew), ScopeItem.listAfter_append]
      exact NameTable.declare_self _ _ _
    rw [List.map_singleton, declared]
    exact .copy rfl rfl (follows.imp fun _ _ one => one.mono (List.subset_append_left _ _)) (.nil _)

end Named

theorem parameter_carried (notObject : "__builtin_offsetof" ∉ objects)
    (heads : HeadMirrors start objects parameters state table head copies) (given : Parameter)
    (named : ∀ name ∈ given.name, name ∈ start.used ∧ name ∈ objects)
    (within : Spelled (· ∈ start.used) given.type.nodes)
    (kept : ∀ name ∈ listKeptNames (given.type.items given.span), name ∉ objects)
    (plain : ScopeItem.introduced (given.type.withoutBodies.items .synthetic) = []) :
    Ensures (parameter given) state fun result after =>
      CarriedParameters start objects parameters state table head copies [given] [result] after := by
  obtain ⟨name, given, span⟩ := given
  cases name with
  | none => exact .pure (unnamed_carried notObject heads given span within kept)
  | some stem =>
    obtain ⟨used, isObject⟩ := named stem rfl
    let argument := (state.registry.fresh stem).1
    let numbered : RenameState := { state with registry := (state.registry.fresh stem).2 }
    have issues := Registry.fresh_issues stem state.registry
    have isNew : argument ∉ state.registry.used := issues.fresh _ (List.mem_singleton_self _)
    have issued : argument ∈ numbered.registry.used :=
      (issues.used _).mpr (.inl (List.mem_singleton_self _))
    have older : state.registry.used ⊆ numbered.registry.used := fun _ old => issues.mem_used old
    refine Renaming.parameter_cases (fun _ => ?_) fun _ => ?_
    · have behind := given.renamed_items (heads.mirrors.keepsBuiltin notObject) span within
      have carried := (heads.mirrors.follows behind kept).2
      have mirrors := (carried.declareNew ⟨.declared .object, span⟩ isNew).later older
      have declared : Entity.isObject ⟨.declared .object, span⟩ := rfl
      refine (mirrors.declareObject used declared isObject).mono fun known after holds => ?_
      obtain ⟨-, later, knownNew, knownIssued, origin, mirrored⟩ := holds
      have different : argument ≠ known := by
        rintro same
        rcases origin with aliased | isFresh
        · exact isNew (same ▸ aliased ▸ carried.issued stem used)
        · exact isFresh (same ▸ issued)
      exact copied_carried notObject heads within kept isNew plain (List.Subset.trans older later)
        (later issued) different knownNew knownIssued mirrored
    · exact bound_carried notObject heads within kept isNew isObject older issued
        (Registry.fresh_ne_builtin stem state.registry)

section Several

variable {given : Parameter} {result : RenamedParameter} {rest : List Parameter}
  {results : List RenamedParameter} {middle after : RenameState}

theorem headItems_cons (given : Parameter) (rest : List Parameter) :
    headItems (given :: rest) = headItems [given] ++ headItems rest :=
  Parameter.listItems_append _ [given] rest

theorem copyItems_cons (result : RenamedParameter) (results : List RenamedParameter) :
    copyItems (result :: results) = copyItems [result] ++ copyItems results := by
  unfold copyItems
  rw [← Statement.listItems_append, ← List.filterMap_append]
  rfl

theorem typeNames_cons (given : Parameter) (rest : List Parameter) :
    typeNames (given :: rest) = typeNames [given] ++ typeNames rest := by
  simp [typeNames]

theorem copiedUses_cons (given : Parameter) (rest : List Parameter) :
    copiedUses (given :: rest) = copiedUses [given] ++ copiedUses rest := by
  simp [copiedUses]

theorem Copied.mono {more : List (Parameter × RenamedParameter)} (among : parameters ⊆ more)
    {given : List Parameter} {references : List Reference}
    (copied : Copied start parameters table given results references) :
    Copied start more table given results references := by
  induction copied with
  | nil table => exact .nil table
  | kept noCopy _ ih => exact .kept noCopy ih
  | copy named initialized follows _ ih =>
    exact .copy named initialized (follows.imp fun _ _ one => one.mono among) ih

theorem Copied.cons {references more : List Reference}
    (first : Copied start parameters table [given] [result] references)
    (others : Copied start parameters (listAfter table (headItems [given])) rest results more) :
    Copied start parameters table (given :: rest) (result :: results) (references ++ more) := by
  cases first with
  | kept noCopy nothing =>
    cases nothing
    exact .kept noCopy others
  | copy named initialized follows nothing =>
    cases nothing
    rw [List.append_assoc, List.cons_append, List.nil_append]
    exact .copy named initialized follows others

theorem CarriedParameters.references_behind
    (first : CarriedParameters start objects parameters state table head copies [given] [result] middle)
    (others : CarriedParameters start objects (parameters ++ [(given, result)]) middle
      (listAfter table (headItems [given])) (listAfter head (headItems [result.parameter]))
      (copies ++ copyItems [result]) rest results after)
    (apart : ∀ use ∈ copiedUses [given], use.scoped ∉ typeNames rest) : listReferences
        (listAfter (listAfter (listAfter head (headItems [result.parameter]))
          (headItems (results.map RenamedParameter.parameter))) copies) (copyItems [result]) =
      listReferences (listAfter (listAfter head (headItems [result.parameter])) copies)
        (copyItems [result]) := by
  have notCopied : ∀ name ∈ ScopeItem.introduced (headItems (results.map RenamedParameter.parameter)),
      name ∉ ScopeItem.introduced copies := by
    intro name member copied
    have old := first.heads.copied name (by
      rw [ScopeItem.introduced_append]
      exact List.mem_append_left _ copied)
    rcases others.introduces name member with isNew | ⟨isWord, -⟩
    · exact isNew old.2.2
    · exact old.2.1 isWord
  rw [listAfter_front notCopied]
  refine ScopeItem.listReferences_congr _ fun use member => ?_
  refine ScopeItem.listAfter_of_not_introduced (fun declared => ?_) _
  obtain ⟨issued, stays⟩ := first.mentions use member
  rcases others.introduces use.scoped declared with isNew | ⟨isWord, named⟩
  · exact isNew issued
  · exact apart use (stays isWord) named

theorem CarriedParameters.cons
    (first : CarriedParameters start objects parameters state table head copies [given] [result] middle)
    (others : CarriedParameters start objects (parameters ++ [(given, result)]) middle
      (listAfter table (headItems [given])) (listAfter head (headItems [result.parameter]))
      (copies ++ copyItems [result]) rest results after)
    (apart : ∀ use ∈ copiedUses [given], use.scoped ∉ typeNames rest) :
    CarriedParameters start objects parameters state table head copies (given :: rest)
      (result :: results) after := by
  have pairs : parameters ++ (given :: rest).zip (result :: results) =
      parameters ++ [(given, result)] ++ rest.zip results := by
    rw [List.zip_cons_cons, List.append_assoc, List.singleton_append]
  have behind := first.references_behind others apart
  constructor
  case older => exact List.Subset.trans first.older others.older
  case heads =>
    rw [pairs, headItems_cons given, List.map_cons, headItems_cons result.parameter,
      copyItems_cons result, ScopeItem.listAfter_append, ScopeItem.listAfter_append,
      ← List.append_assoc]
    exact others.heads
  case references =>
    rw [headItems_cons given, List.map_cons, headItems_cons result.parameter,
      ScopeItem.listReferences_append, ScopeItem.listReferences_append]
    intro noObject
    rw [List.forall_mem_append] at noObject
    have stays := first.references noObject.1
    rw [others.references noObject.2]
    exact congrArg (· ++ _) stays
  case introduces =>
    rw [List.map_cons, headItems_cons result.parameter, ScopeItem.introduced_append, typeNames_cons]
    refine List.forall_mem_append.mpr ⟨fun name member => ?_, fun name member => ?_⟩
    · exact (first.introduces name member).imp_right (And.imp_right (List.mem_append_left _))
    · exact (others.introduces name member).imp (mt (@first.older _))
        (And.imp_right (List.mem_append_right _))
  case mentions =>
    rw [copyItems_cons result, ScopeItem.listUses_append, copiedUses_cons]
    refine List.forall_mem_append.mpr ⟨fun use member => ?_, fun use member => ?_⟩
    · exact (first.mentions use member).imp (@others.older _) fun stays old =>
        List.mem_append_left _ (stays old)
    · exact (others.mentions use member).imp_right fun stays old =>
        List.mem_append_right _ (stays old)
  case copied =>
    rw [pairs, List.map_cons, headItems_cons result.parameter, copyItems_cons result,
      ScopeItem.listAfter_append, ScopeItem.listReferences_append, behind,
      ← ScopeItem.listAfter_append _ copies]
    exact (first.copied.mono (List.subset_append_left _ _)).cons others.copied

end Several

theorem parameters_carried (notObject : "__builtin_offsetof" ∉ objects)
    (heads : HeadMirrors start objects parameters state table head copies) (given : List Parameter)
    (named : ∀ parameter ∈ given, ∀ name ∈ parameter.name, name ∈ start.used ∧ name ∈ objects)
    (within : ∀ parameter ∈ given, Spelled (· ∈ start.used) parameter.type.nodes)
    (kept : ∀ parameter ∈ given,
      ∀ name ∈ listKeptNames (parameter.type.items parameter.span), name ∉ objects)
    (plain : ∀ parameter ∈ given,
      ScopeItem.introduced (parameter.type.withoutBodies.items .synthetic) = [])
    (apart : given.Pairwise fun former latter =>
      ∀ use ∈ copiedUses [former], use.scoped ∉ typeNames [latter]) :
    Ensures (Renaming.parameters given) state fun results after =>
      CarriedParameters start objects parameters state table head copies given results after := by
  induction given generalizing parameters state table head copies with
  | nil =>
    have pairs : parameters ++ [].zip [] = parameters := List.append_nil _
    exact .pure
      { older := fun _ member => member
        heads := by
          rw [pairs]
          change HeadMirrors start objects parameters state table head (copies ++ [])
          rwa [List.append_nil]
        references := fun _ => rfl
        introduces := nofun
        mentions := nofun
        copied := .nil _ }
  | cons first rest ih =>
    simp only [List.forall_mem_cons] at named within kept plain
    rw [List.pairwise_cons] at apart
    refine (parameter_carried notObject heads first named.1 within.1 kept.1 plain.1).bind
      fun result middle former => ?_
    refine (ih former.heads named.2 within.2 kept.2 plain.2 apart.2).bind fun results after latter => ?_
    refine .pure (former.cons latter fun use member named => ?_)
    obtain ⟨parameter, isOne, declared⟩ := List.mem_flatMap.mp named
    exact apart.1 parameter isOne use member (by simpa [typeNames] using declared)

theorem Mirrors.empty (registry : Registry) (objects : List String) :
    Mirrors registry objects [] ⟨{}, registry⟩ (fun _ => none) (fun _ => none) where
  older _ member := member
  issued _ used := used
  unique _ _ _ _ same := same
  settled := .nothing
  object _ _ _ found := by cases found
  rest _ _ _ := ⟨rfl, rfl⟩
  apart _ _ := ⟨rfl, rfl⟩
  builtin _ _ same := same

section Members

variable {given : List Parameter} {parameter : Parameter} (member : parameter ∈ given)

include member

theorem headItems_of_mem : ∃ front back, headItems given = front ++ headItems [parameter] ++ back := by
  obtain ⟨front, back, rfl⟩ := List.append_of_mem member
  refine ⟨headItems front, headItems back, ?_⟩
  rw [headItems, Parameter.listItems_append, ← headItems, ← headItems, headItems_cons parameter,
    ← List.append_assoc]

theorem listKeptNames_parameter :
    listKeptNames (parameter.type.items parameter.span) ⊆ listKeptNames (headItems given) := by
  obtain ⟨front, back, same⟩ := headItems_of_mem member
  have inside : listKeptNames (parameter.type.items parameter.span) ⊆
      listKeptNames (headItems [parameter]) := by
    obtain ⟨_ | name, type, span⟩ := parameter <;>
      rw [headItems, Parameter.listItems, ScopeItem.listKeptNames_append] <;>
      exact List.subset_append_left _ _
  rw [same, ScopeItem.listKeptNames_append, ScopeItem.listKeptNames_append]
  exact List.Subset.trans inside
    (List.Subset.trans (List.subset_append_right _ _) (List.subset_append_left _ _))

theorem mem_listObjectNames_parameter {name : String} (named : parameter.name = some name) :
    name ∈ listObjectNames (headItems given) := by
  obtain ⟨front, back, same⟩ := headItems_of_mem member
  obtain ⟨_, type, span⟩ := parameter
  obtain rfl : _ = some name := named
  rw [same, headItems_named]
  simp [ScopeItem.listObjectNames_append, listObjectNames, ScopeItem.objectNames, Entity.isObject]

omit member in
theorem within_of_listNodes (within : Spelled (· ∈ start.used) (Parameter.listNodes given)) :
    ∀ parameter ∈ given, Spelled (· ∈ start.used) parameter.type.nodes := by
  induction given with
  | nil => exact nofun
  | cons first rest ih =>
    obtain ⟨name, type, span⟩ := first
    obtain ⟨here, behind⟩ := Node.within_append.mp within
    exact List.forall_mem_cons.mpr ⟨here, ih behind⟩

end Members

theorem whole_carried {function : Function} (isBlock : function.body.isBlock)
    (braced : function.body.Braced) (within : Spelled (· ∈ start.used) function.nodes)
    (apart : function.KeepsApart) :
    Ensures (whole function) ⟨{}, start⟩ fun result _ => ∃ middle span entries,
      CarriedParameters start (listObjectNames function.items) [] ⟨{}, start⟩ function.resultTable
        function.resultTable [] function.parameters result.1 middle ∧ result.2 = .block span entries ∧
      Followed start (function.parameters.zip result.1) function.headTable
        (listAfter (listAfter function.resultTable
          (headItems (result.1.map RenamedParameter.parameter))) (copyItems result.1))
        function.body.items [.scope (Statement.listItems entries)] := by
  obtain ⟨⟨-, named⟩, ⟨resultWithin, headWithin⟩, bodyWithin⟩ := Function.within_nodes.mp within
  have notObject := apart.builtin
  have kept := apart.kept
  obtain ⟨names, same⟩ : ∃ names, names = listObjectNames function.items := ⟨_, rfl⟩
  have objects : ∀ name ∈ listObjectNames function.items, name ∈ names := by simp [same]
  rw [← same] at notObject kept ⊢
  rw [Function.items] at kept objects
  simp only [ScopeItem.listKeptNames_append, ScopeItem.listObjectNames_append,
    List.forall_mem_append] at kept objects
  have begins : HeadMirrors start names [] ⟨{}, start⟩ function.resultTable function.resultTable [] := by
    refine ⟨?_, nofun⟩
    have mirrors := Mirrors.empty start names
    have behind := function.result.renamed_items (mirrors.keepsBuiltin notObject) function.span resultWithin
    have carried := (mirrors.follows behind kept.1.1).2
    rwa [behind.listAfter_eq] at carried
  refine (parameters_carried notObject begins function.parameters ?_ (within_of_listNodes headWithin)
    (fun parameter member name isKept => kept.1.2 name (listKeptNames_parameter member isKept))
    apart.plain ?_).bind fun results middle carried => ?_
  · intro parameter member name isName
    have isOne := mem_listObjectNames_parameter member (Option.mem_def.mp isName)
    exact ⟨named name (List.mem_filterMap.mpr ⟨parameter, member, isName⟩), objects.1.2 name isOne⟩
  · refine apart.earlier.imp fun {former latter} earlier use member => ?_
    simpa [typeNames] using earlier use (by simpa [copiedUses] using member)
  · refine (statement_carried notObject braced _ _ _ carried.heads.mirrors bodyWithin kept.2 objects.2).bind
      fun body after holds => .pure ?_
    obtain ⟨follows, -, isBlock⟩ := holds.imp_right (· isBlock)
    cases body with
    | block span entries =>
      refine ⟨middle, span, entries, carried, rfl, ?_⟩
      have same := ScopeItem.listAfter_append (fun _ => none) (function.result.items function.span)
        (headItems function.parameters)
      rw [Function.headTable, same]
      exact follows.follows
    | _ => cases isBlock

end Renaming

namespace Function

variable {function : Function} {registry : Registry}

/-- Every name in the body of a function refers behind renaming to what it referred to, an object
under its alias; the copies of arguments come first. Where the head refers to no parameter, its
references stay. -/
theorem renameLocals_references (isBlock : function.body.isBlock) (braced : function.body.Braced)
    (names : Node.allNames function.nodes ⊆ registry.used) (apart : function.KeepsApart) :
    ∃ copied others,
      (function.renameLocals registry).2.1.references = copied ++ others ∧
      Renaming.Copied registry (function.parameters.zip (function.renamedParts registry).1)
        function.resultTable function.parameters (function.renamedParts registry).1 copied ∧
      List.Forall₂
        (Renaming.Follows registry (function.parameters.zip (function.renamedParts registry).1))
        function.references others ∧
      ((∀ reference ∈ function.headReferences, reference.entity.any Entity.isObject = false) →
        (function.renameLocals registry).2.1.headReferences = function.headReferences) := by
  have whole := Renaming.whole_carried isBlock braced (Node.spelled_iff.mpr names) apart
  rw [function.renameLocals_eq registry, renamedParts]
  unfold Ensures at whole
  generalize (Renaming.whole function).run ⟨{}, registry⟩ = result at whole ⊢
  obtain ⟨⟨results, body⟩, after⟩ := result
  obtain ⟨middle, span, entries, carried, rfl, follows⟩ := whole
  dsimp only at carried follows ⊢
  refine ⟨_, _, ?_, carried.copied, follows, fun noObject => ?_⟩
  · have opens (table : NameTable) (items : List ScopeItem) :
        listReferences table [.scope items] = listReferences table items := List.append_nil _
    have head : (Renaming.assemble function (results, .block span entries)).headTable =
        listAfter function.resultTable
          (Renaming.headItems (results.map Renaming.RenamedParameter.parameter)) :=
      ScopeItem.listAfter_append _ _ _
    rw [references, head]
    change listReferences _ [.scope (Statement.listItems (_ ++ entries))] = _
    rw [opens, opens, Statement.listItems_append, ScopeItem.listReferences_append]
    rfl
  · rw [headReferences, ScopeItem.listReferences_append, List.forall_mem_append] at noObject
    have stays := carried.references noObject.2
    rw [headReferences, headReferences, ScopeItem.listReferences_append,
      ScopeItem.listReferences_append]
    exact congrArg _ stays

/-- Arrays, their sizes, a loop and an object that hides another keep what they refer to. -/
theorem renameLocals_references_in_scopes :
    ∃ unit, CompilationUnit.parse
        "void f(int n, int (*rows)[n], int xs[n]) {
          int x = n;
          for (int i = 0; i < x; i = i + 1) {
            enum { first }; int x = xs[first] + i; g(x, rows, sizeof(rows));
          }
        }" = .ok unit ∧
      ∃ function ∈ unit.functions.map normalize,
        ∃ registry : Registry,
          (function.body.isBlock ∧ function.body.Braced ∧
            Node.allNames function.nodes ⊆ registry.used ∧ function.KeepsApart) ∧
          ∃ copied others,
            (function.renameLocals registry).2.1.references = copied ++ others ∧
            Renaming.Copied registry (function.parameters.zip (function.renamedParts registry).1)
              function.resultTable function.parameters (function.renamedParts registry).1 copied ∧
            List.Forall₂
              (Renaming.Follows registry (function.parameters.zip (function.renamedParts registry).1))
              function.references others ∧
            ((∀ reference ∈ function.headReferences, reference.entity.any Entity.isObject = false) →
              (function.renameLocals registry).2.1.headReferences = function.headReferences) := by
  refine CompilationUnit.exists_parsed _
    (fun unit => decide (∃ function ∈ unit.functions.map normalize, function.KeepsApart))
    (by decide +kernel) ?_
  intro unit parses checked
  obtain ⟨function, member, apart⟩ := of_decide_eq_true checked
  obtain ⟨source, among, rfl⟩ := List.mem_map.mp member
  have formed := CompilationUnit.isFormed_of_parse parses source among
  have isBlock := isBlock_normalize formed.1
  have braced := braced_normalize formed.2
  exact ⟨_, member, ⟨Node.allNames source.normalize.nodes, 0, 0⟩,
    ⟨isBlock, braced, List.Subset.refl _, apart⟩,
    renameLocals_references isBlock braced (List.Subset.refl _) apart⟩

/-- A use of a constant that hides a parameter is taken for one of the parameter. -/
theorem renameLocals_takes_constant :
    ∃ unit, CompilationUnit.parse "void f(int x) { { enum { x }; use(x); } }" = .ok unit ∧
      ∃ function ∈ unit.functions.map normalize,
        ∃ registry : Registry,
          (function.body.isBlock ∧ function.body.Braced ∧
            Node.allNames function.nodes ⊆ registry.used) ∧
          ¬∃ copied others,
            (function.renameLocals registry).2.1.references = copied ++ others ∧
            List.Forall₂
              (Renaming.Follows registry (function.parameters.zip (function.renamedParts registry).1))
              function.references others := by
  refine CompilationUnit.exists_parsed _
    (fun unit => decide (∃ function ∈ unit.functions.map normalize,
      ∃ reference ∈ function.references, reference.entity.any Entity.isObject = false ∧
        reference ∉ (function.renameLocals ⟨Node.allNames function.nodes, 0, 0⟩).2.1.references))
    (by decide +kernel) ?_
  intro unit parses checked
  obtain ⟨function, member, reference, occurs, notObject, lost⟩ := of_decide_eq_true checked
  obtain ⟨source, among, rfl⟩ := List.mem_map.mp member
  have formed := CompilationUnit.isFormed_of_parse parses source among
  refine ⟨_, member, ⟨Node.allNames source.normalize.nodes, 0, 0⟩,
    ⟨isBlock_normalize formed.1, braced_normalize formed.2, List.Subset.refl _⟩, ?_⟩
  rintro ⟨copied, others, split, follows⟩
  refine lost ?_
  rw [split]
  exact List.mem_append_right _ (Renaming.Followed.mem_of_notObject follows occurs notObject)

end Function

end InlineMacro
