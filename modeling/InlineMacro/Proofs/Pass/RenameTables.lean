import InlineMacro.Proofs.Pass.RenameWords
import InlineMacro.Proofs.Scope.RenamedItems

/-!
# Names in scope behind renaming

A table of the names in scope is mirrored by one behind renaming: objects stand in it under their
aliases, and everything else under its own name. What resolves in the one to an object resolves in
the other to the same object, and nothing else changes, unless a constant, a parameter of a function
type or a designated member has the name of an object: renaming takes it for the object.
-/

set_option autoImplicit false

namespace InlineMacro

open Node (Spelled)
open ScopeItem (listAfter listReferences)

def Entity.isObject (entity : Entity) : Bool := entity.kind == .declared .object

namespace ScopeItem

mutual

/-- The names that are used or declared as no object, but where renaming looks for objects: those of
constants, of parameters of function types and of designated members. -/
def keptNames : ScopeItem → List String
  | use found => if found.kind = .member then [found.name] else []
  | declare ⟨.ordinary, name⟩ entity => if entity.kind.isDeclared then [] else [name]
  | declare _ _ => []
  | scope items => listKeptNames items

def listKeptNames : List ScopeItem → List String
  | [] => []
  | item :: items => item.keptNames ++ listKeptNames items

end

mutual

def objectNames : ScopeItem → List String
  | use _ => []
  | declare name entity => if entity.isObject then [name.name] else []
  | scope items => listObjectNames items

def listObjectNames : List ScopeItem → List String
  | [] => []
  | item :: items => item.objectNames ++ listObjectNames items

end

theorem listKeptNames_append (first second : List ScopeItem) :
    listKeptNames (first ++ second) = listKeptNames first ++ listKeptNames second := by
  induction first with
  | nil => rfl
  | cons item items ih =>
    rw [List.cons_append, listKeptNames, ih, listKeptNames, List.append_assoc]

theorem listObjectNames_append (first second : List ScopeItem) :
    listObjectNames (first ++ second) = listObjectNames first ++ listObjectNames second := by
  induction first with
  | nil => rfl
  | cons item items ih =>
    rw [List.cons_append, listObjectNames, ih, listObjectNames, List.append_assoc]

end ScopeItem

open ScopeItem (listKeptNames listObjectNames)

theorem Registry.fresh_ne_builtin (stem : String) (registry : Registry) :
    (fresh stem registry).1 ≠ "__builtin_offsetof" := by
  intro same
  have ends := congrArg (fun text => text.toList.getLast?) same
  simp only [fresh, numbered, String.toList_append, List.getLast?_append] at ends
  generalize firstFree (numbered stem) registry.used registry.nextName = number at ends
  have digits : (toString number).toList = Nat.toDigits 10 number := by simp
  rw [digits] at ends
  cases last : (Nat.toDigits 10 number).getLast? with
  | none =>
    have positive := Nat.length_toDigits_pos (b := 10) (n := number)
    rw [List.getLast?_eq_none_iff.mp last] at positive
    cases positive
  | some character =>
    have isDigit := Nat.isDigit_of_mem_toDigits (by decide) (by decide) (List.mem_of_getLast? last)
    rw [last, Option.some_or] at ends
    obtain rfl := Option.some.inj ends
    cases isDigit

/-- The name and the entity that stand for a parameter in the body: those of the copy of its argument
if there is one, or else those of the macro's parameter. -/
def Renaming.RenamedParameter.standsAs (renamed : Renaming.RenamedParameter) : Option (String × Entity) :=
  match renamed.copy with
  | some (.declaration _ [copied]) => some (copied.name, copied.entity)
  | _ => renamed.parameter.name.map (·, ⟨.declared .object, renamed.parameter.span⟩)

namespace Renaming

/-- What an object with a name becomes: it stays where it is declared, and a parameter becomes what
stands for it. The alias is new. -/
inductive Becomes (start : Registry) (parameters : List (Parameter × RenamedParameter))
    (name : String) (entity : Entity) (known : String) (other : Entity) : Prop where
  | object (isNew : known ∉ start.used) (same : other = entity)
  | parameter {given : Parameter} {result : RenamedParameter} (isNew : known ∉ start.used)
    (member : (given, result) ∈ parameters) (named : given.name = some name)
    (placed : entity = ⟨.declared .object, given.span⟩) (stands : result.standsAs = some (known, other))

/-- What a reference becomes: one to an object is to the same object under its alias, and every other
one is what it was. Where the name of an object is used as that of a type, it refers to no type. -/
inductive Follows (start : Registry) (parameters : List (Parameter × RenamedParameter)) :
    Reference → Reference → Prop where
  | object {place : Span} {name known : String} {entity other : Entity} (isObject : entity.isObject)
    (becomes : Becomes start parameters name entity known other) :
    Follows start parameters ⟨⟨.identifier, name, place⟩, some entity⟩
      ⟨⟨.identifier, known, place⟩, some other⟩
  | notType {place : Span} {name : String} {entity : Entity} (result : Option Entity)
    (isObject : entity.isObject) :
    Follows start parameters ⟨⟨.typeName, name, place⟩, some entity⟩ ⟨⟨.typeName, name, place⟩, result⟩
  | other {reference : Reference} (notObject : reference.entity.any Entity.isObject = false) :
    Follows start parameters reference reference

section More

variable {start : Registry} {parameters more : List (Parameter × RenamedParameter)}

theorem Becomes.mono (among : parameters ⊆ more) {name known : String} {entity other : Entity}
    (becomes : Becomes start parameters name entity known other) :
    Becomes start more name entity known other := by
  cases becomes with
  | object isNew same => exact .object isNew same
  | parameter isNew member named placed stands =>
    exact .parameter isNew (among member) named placed stands

theorem Follows.mono (among : parameters ⊆ more) {reference result : Reference}
    (follows : Follows start parameters reference result) : Follows start more reference result := by
  cases follows with
  | object isObject becomes => exact .object isObject (becomes.mono among)
  | notType result isObject => exact .notType result isObject
  | other notObject => exact .other notObject

end More

/-! ## Mirrored tables -/

/-- A table is mirrored by one behind renaming. All names that the function uses were in the registry
at the start. -/
structure Mirrors (start : Registry) (objects : List String)
    (parameters : List (Parameter × RenamedParameter)) (state : RenameState)
    (table renamed : NameTable) : Prop where
  older : start.used ⊆ state.registry.used
  issued : ∀ name ∈ start.used, state.table.aliasOf name ∈ state.registry.used
  unique : ∀ name ∈ start.used, ∀ other ∈ start.used,
    state.table.aliasOf name = state.table.aliasOf other → name = other
  settled : state.table.Settled (· ∉ start.used)
  object : ∀ name ∈ start.used, ∀ entity, table ⟨.ordinary, name⟩ = some entity → entity.isObject →
    name ∈ objects ∧ state.table.aliasOf name ∉ start.used ∧ ∃ other,
      renamed ⟨.ordinary, state.table.aliasOf name⟩ = some other ∧
        Becomes start parameters name entity (state.table.aliasOf name) other
  rest : ∀ name ∈ start.used, (table ⟨.ordinary, name⟩).any Entity.isObject = false →
    state.table.aliasOf name = name ∧ renamed ⟨.ordinary, name⟩ = table ⟨.ordinary, name⟩
  apart : ∀ name : ScopedName, name.space ≠ .ordinary →
    renamed name = table name ∧ (table name).any Entity.isObject = false
  builtin : ∀ name ∈ start.used, state.table.aliasOf name = "__builtin_offsetof" →
    name = "__builtin_offsetof"

namespace Mirrors

variable {start : Registry} {objects : List String}
  {parameters : List (Parameter × RenamedParameter)} {state : RenameState} {table renamed : NameTable}

variable {name : String}

theorem kept (mirrors : Mirrors start objects parameters state table renamed)
    (used : name ∈ start.used) (notObject : name ∉ objects) :
    state.table.aliasOf name = name ∧ (table ⟨.ordinary, name⟩).any Entity.isObject = false := by
  have noObject : (table ⟨.ordinary, name⟩).any Entity.isObject = false := by
    cases found : table ⟨.ordinary, name⟩ with
    | none => rfl
    | some entity =>
      cases isObject : entity.isObject with
      | false => exact isObject
      | true => exact absurd (mirrors.object name used entity found isObject).1 notObject
  exact ⟨(mirrors.rest name used noObject).1, noObject⟩

variable {use : NameUse}

theorem rename_issued (mirrors : Mirrors start objects parameters state table renamed)
    (isWord : use.name ∈ start.used) : (use.rename state.table.aliasOf).name ∈ state.registry.used := by
  obtain ⟨kind, name, place⟩ := use
  cases kind with
  | identifier | member => exact mirrors.issued name isWord
  | typeName | tag => exact mirrors.older isWord

theorem rename_of_used (mirrors : Mirrors start objects parameters state table renamed)
    (isWord : use.name ∈ start.used) (stillOld : (use.rename state.table.aliasOf).name ∈ start.used) :
    use.rename state.table.aliasOf = use := by
  obtain ⟨kind, name, place⟩ := use
  have fixed (old : state.table.aliasOf name ∈ start.used) : state.table.aliasOf name = name := by
    cases noObject : (table ⟨.ordinary, name⟩).any Entity.isObject with
    | false => exact (mirrors.rest name isWord noObject).1
    | true =>
      obtain ⟨entity, found, isObject⟩ := (Option.any_eq_true _ _).mp noObject
      exact absurd old (mirrors.object name isWord entity found isObject).2.1
  cases kind with
  | identifier | member =>
    change (⟨_, state.table.aliasOf name, place⟩ : NameUse) = ⟨_, name, place⟩
    rw [fixed stillOld]
  | typeName | tag => rfl

theorem mono (mirrors : Mirrors start objects parameters state table renamed)
    {more : List (Parameter × RenamedParameter)} (among : parameters ⊆ more) :
    Mirrors start objects more state table renamed where
  older := mirrors.older
  issued := mirrors.issued
  unique := mirrors.unique
  settled := mirrors.settled
  object name used entity found isObject := by
    obtain ⟨member, isNew, other, resolved, becomes⟩ := mirrors.object name used entity found isObject
    exact ⟨member, isNew, other, resolved, becomes.mono among⟩
  rest := mirrors.rest
  apart := mirrors.apart
  builtin := mirrors.builtin

theorem declareNew (mirrors : Mirrors start objects parameters state table renamed)
    (entity : Entity) (isNew : name ∉ state.registry.used) :
    Mirrors start objects parameters state table (renamed.declare ⟨.ordinary, name⟩ entity) where
  older := mirrors.older
  issued := mirrors.issued
  unique := mirrors.unique
  settled := mirrors.settled
  object former used found declared isObject := by
    obtain ⟨member, other, result, resolved, becomes⟩ :=
      mirrors.object former used found declared isObject
    refine ⟨member, other, result, ?_, becomes⟩
    rw [NameTable.declare_of_ne, resolved]
    intro same
    have aliased : state.table.aliasOf former = name := by simpa using same
    exact isNew (aliased ▸ mirrors.issued former used)
  rest former used noObject := by
    rw [NameTable.declare_of_ne]
    · exact mirrors.rest former used noObject
    · intro same
      have named : former = name := by simpa using same
      exact isNew (named ▸ mirrors.older used)
  apart former space := by
    rw [NameTable.declare_of_ne]
    · exact mirrors.apart former space
    · exact fun same => space (congrArg ScopedName.space same)
  builtin := mirrors.builtin

theorem later (mirrors : Mirrors start objects parameters state table renamed) {registry : Registry}
    (older : state.registry.used ⊆ registry.used) :
    Mirrors start objects parameters ⟨state.table, registry⟩ table renamed where
  older := List.Subset.trans mirrors.older older
  issued name used := older (mirrors.issued name used)
  unique := mirrors.unique
  settled := mirrors.settled
  object := mirrors.object
  rest := mirrors.rest
  apart := mirrors.apart
  builtin := mirrors.builtin

theorem back (mirrors : Mirrors start objects parameters state table renamed) {after : RenameState}
    (same : after.table = state.table) (older : state.registry.used ⊆ after.registry.used) :
    Mirrors start objects parameters after table renamed := by
  obtain ⟨aliases, registry⟩ := after
  obtain rfl : aliases = state.table := same
  exact mirrors.later older

theorem enter (mirrors : Mirrors start objects parameters state table renamed) :
    Mirrors start objects parameters { state with table := state.table.enter } table renamed where
  older := mirrors.older
  issued := mirrors.issued
  unique := mirrors.unique
  settled := mirrors.settled.enter
  object := mirrors.object
  rest := mirrors.rest
  apart := mirrors.apart
  builtin := mirrors.builtin

variable {entity : Entity}

theorem declare (mirrors : Mirrors start objects parameters state table renamed)
    (used : name ∈ start.used) (notObject : entity.isObject = false)
    (fixed : state.table.aliasOf name = name) :
    Mirrors start objects parameters state (table.declare ⟨.ordinary, name⟩ entity)
      (renamed.declare ⟨.ordinary, name⟩ entity) where
  builtin := mirrors.builtin
  older := mirrors.older
  issued := mirrors.issued
  unique := mirrors.unique
  settled := mirrors.settled
  object other otherUsed found declared isObject := by
    by_cases same : other = name
    · subst same
      rw [NameTable.declare_self, Option.some.injEq] at declared
      subst declared
      rw [notObject] at isObject
      cases isObject
    · have different : (⟨.ordinary, other⟩ : ScopedName) ≠ ⟨.ordinary, name⟩ := by simpa using same
      rw [NameTable.declare_of_ne _ _ different] at declared
      obtain ⟨among, isNew, result, stands, becomes⟩ :=
        mirrors.object other otherUsed found declared isObject
      refine ⟨among, isNew, result, ?_, becomes⟩
      rw [NameTable.declare_of_ne, stands]
      intro equal
      have aliased : state.table.aliasOf other = name := by simpa using equal
      exact isNew (aliased ▸ used)
  rest other otherUsed noObject := by
    by_cases same : other = name
    · subst same
      exact ⟨fixed, (NameTable.declare_self _ _ _).trans (NameTable.declare_self _ _ _).symm⟩
    · have different : (⟨.ordinary, other⟩ : ScopedName) ≠ ⟨.ordinary, name⟩ := by simpa using same
      rw [NameTable.declare_of_ne _ _ different] at noObject ⊢
      rw [NameTable.declare_of_ne _ _ different]
      exact mirrors.rest other otherUsed noObject
  apart other space := by
    have different : other ≠ ⟨.ordinary, name⟩ := fun same => space (congrArg ScopedName.space same)
    rw [NameTable.declare_of_ne _ _ different, NameTable.declare_of_ne _ _ different]
    exact mirrors.apart other space

theorem declareApart (mirrors : Mirrors start objects parameters state table renamed)
    {name : ScopedName} (notObject : entity.isObject = false) (space : name.space ≠ .ordinary) :
    Mirrors start objects parameters state (table.declare name entity) (renamed.declare name entity) where
  builtin := mirrors.builtin
  older := mirrors.older
  issued := mirrors.issued
  unique := mirrors.unique
  settled := mirrors.settled
  object other used found declared isObject := by
    have different : (⟨.ordinary, other⟩ : ScopedName) ≠ name := fun same =>
      space (congrArg ScopedName.space same).symm
    rw [NameTable.declare_of_ne _ _ different] at declared
    obtain ⟨among, isNew, result, stands, becomes⟩ := mirrors.object other used found declared isObject
    refine ⟨among, isNew, result, ?_, becomes⟩
    rw [NameTable.declare_of_ne, stands]
    exact fun same => space (congrArg ScopedName.space same).symm
  rest other used noObject := by
    have different : (⟨.ordinary, other⟩ : ScopedName) ≠ name := fun same =>
      space (congrArg ScopedName.space same).symm
    rw [NameTable.declare_of_ne _ _ different] at noObject ⊢
    rw [NameTable.declare_of_ne _ _ different]
    exact mirrors.rest other used noObject
  apart other otherSpace := by
    by_cases same : other = name
    · subst same
      rw [NameTable.declare_self, NameTable.declare_self]
      exact ⟨rfl, notObject⟩
    · rw [NameTable.declare_of_ne _ _ same, NameTable.declare_of_ne _ _ same]
      exact mirrors.apart other otherSpace

theorem known (mirrors : Mirrors start objects parameters state table renamed) {after : RenameState}
    {known : String} {other : Entity}
    (older : state.registry.used ⊆ after.registry.used) (issued : known ∈ after.registry.used)
    (aliases : ∀ former, after.table.aliasOf former =
      if former = name then known else state.table.aliasOf former)
    (settled : after.table.Settled (· ∉ start.used))
    (unique : ∀ former ∈ start.used, state.table.aliasOf former = known → former = name)
    (notBuiltin : known = "__builtin_offsetof" → name = "__builtin_offsetof")
    (stands : if entity.isObject
      then name ∈ objects ∧ known ∉ start.used ∧ Becomes start parameters name entity known other
      else known = name ∧ other = entity) :
    Mirrors start objects parameters after (table.declare ⟨.ordinary, name⟩ entity)
      (renamed.declare ⟨.ordinary, known⟩ other) where
  builtin former formerUsed same := by
    rw [aliases] at same
    split at same
    · next isName => exact isName.trans (notBuiltin same)
    · exact mirrors.builtin former formerUsed same
  older := List.Subset.trans mirrors.older older
  issued former formerUsed := by
    rw [aliases]
    split
    · exact issued
    · exact older (mirrors.issued former formerUsed)
  unique first firstUsed second secondUsed same := by
    rw [aliases, aliases] at same
    split at same <;> rename_i isFirst <;> split at same <;> rename_i isSecond
    · rw [isFirst, isSecond]
    · exact isFirst.trans (unique second secondUsed same.symm).symm
    · exact (unique first firstUsed same).trans isSecond.symm
    · exact mirrors.unique first firstUsed second secondUsed same
  settled := settled
  object former formerUsed found declared isObject := by
    rw [aliases]
    by_cases same : former = name
    · subst same
      rw [NameTable.declare_self, Option.some.injEq] at declared
      subst declared
      rw [if_pos isObject] at stands
      rw [if_pos rfl]
      exact ⟨stands.1, stands.2.1, other, NameTable.declare_self _ _ _, stands.2.2⟩
    · have different : (⟨.ordinary, former⟩ : ScopedName) ≠ ⟨.ordinary, name⟩ := by simpa using same
      rw [NameTable.declare_of_ne _ _ different] at declared
      obtain ⟨among, isNew, result, resolved, becomes⟩ :=
        mirrors.object former formerUsed found declared isObject
      rw [if_neg same]
      refine ⟨among, isNew, result, ?_, becomes⟩
      rw [NameTable.declare_of_ne, resolved]
      intro equal
      exact same (unique former formerUsed (by simpa using equal))
  rest former formerUsed noObject := by
    rw [aliases]
    by_cases same : former = name
    · subst same
      rw [NameTable.declare_self, Option.any_some] at noObject
      rw [noObject, if_neg nofun] at stands
      rw [if_pos rfl, stands.1, stands.2, NameTable.declare_self, NameTable.declare_self]
      exact ⟨rfl, rfl⟩
    · have different : (⟨.ordinary, former⟩ : ScopedName) ≠ ⟨.ordinary, name⟩ := by simpa using same
      rw [NameTable.declare_of_ne _ _ different] at noObject ⊢
      obtain ⟨fixed, resolved⟩ := mirrors.rest former formerUsed noObject
      rw [if_neg same, NameTable.declare_of_ne, resolved]
      · exact ⟨fixed, rfl⟩
      · intro equal
        exact same (unique former formerUsed (fixed.trans (by simpa using equal)))
  apart former space := by
    rw [NameTable.declare_of_ne, NameTable.declare_of_ne]
    · exact mirrors.apart former space
    · exact fun same => space (congrArg ScopedName.space same)
    · exact fun same => space (congrArg ScopedName.space same)

theorem set (mirrors : Mirrors start objects parameters state table renamed)
    {other : Entity} (entry : Alias) {registry : Registry}
    (older : state.registry.used ⊆ registry.used) (issued : entry.name ∈ registry.used)
    (unique : ∀ former ∈ start.used, state.table.aliasOf former = entry.name → former = name)
    (notBuiltin : entry.name = "__builtin_offsetof" → name = "__builtin_offsetof")
    (settled : entry.isReplaceable = false → entry.name ∉ start.used) (stands : if entity.isObject
      then name ∈ objects ∧ entry.name ∉ start.used ∧ Becomes start parameters name entity entry.name other
      else entry.name = name ∧ other = entity) :
    Mirrors start objects parameters ⟨state.table.set name entry, registry⟩
      (table.declare ⟨.ordinary, name⟩ entity) (renamed.declare ⟨.ordinary, entry.name⟩ other) := by
  exact mirrors.known older issued (fun former => AliasTable.aliasOf_set _ _ _ _)
    (mirrors.settled.set name settled) unique notBuiltin stands

theorem bindOwn (mirrors : Mirrors start objects parameters state table renamed)
    (used : name ∈ start.used) (notObject : entity.isObject = false) :
    Mirrors start objects parameters { state with table := state.table.bind name name }
      (table.declare ⟨.ordinary, name⟩ entity) (renamed.declare ⟨.ordinary, name⟩ entity) := by
  refine mirrors.set ⟨name, true⟩ (fun _ member => member) (mirrors.older used) ?_ id nofun
    (by rw [notObject]; exact ⟨rfl, rfl⟩)
  intro former formerUsed same
  cases found : table ⟨.ordinary, former⟩ with
  | none => exact (mirrors.rest former formerUsed (by rw [found]; rfl)).1.symm.trans same
  | some declared =>
    cases isObject : declared.isObject with
    | false => exact (mirrors.rest former formerUsed (by rw [found]; exact isObject)).1.symm.trans same
    | true =>
      have isNew := (mirrors.object former formerUsed declared found isObject).2.1
      exact absurd (same ▸ used) isNew

theorem declareObject (mirrors : Mirrors start objects parameters state table renamed)
    (used : name ∈ start.used) (isObject : entity.isObject) (isOne : name ∈ objects) :
    Ensures (Renaming.declare name) state fun known after =>
      after.table.outer = state.table.outer ∧ state.registry.used ⊆ after.registry.used ∧
        known ∉ start.used ∧ known ∈ after.registry.used ∧
        (known = state.table.aliasOf name ∨ known ∉ state.registry.used) ∧
        ∀ other more, parameters ⊆ more → Becomes start more name entity known other →
          Mirrors start objects more after (table.declare ⟨.ordinary, name⟩ entity)
            (renamed.declare ⟨.ordinary, known⟩ other) := by
  refine Renaming.declare_cases (fun known found aliased => ?_) fun issues => ?_
  · have isNew := mirrors.settled _ List.mem_cons_self name known found
    have issued : known ∈ state.registry.used := aliased ▸ mirrors.issued name used
    refine ⟨rfl, fun _ member => member, isNew, issued, .inl aliased.symm, fun other more wider becomes => ?_⟩
    refine (mirrors.mono wider).known (fun _ member => member) issued (fun former => ?_)
      mirrors.settled (fun former formerUsed known => ?_)
      (fun isBuiltin => mirrors.builtin name used (aliased.trans isBuiltin)) ?_
    · split
      · next same => rw [same, aliased]
      · rfl
    · exact mirrors.unique former formerUsed name used (known.trans aliased.symm)
    · rw [if_pos isObject]
      exact ⟨isOne, isNew, becomes⟩
  · have isFresh := issues.fresh _ (List.mem_singleton_self _)
    have isNew : (Registry.fresh name state.registry).1 ∉ start.used := fun old =>
      isFresh (mirrors.older old)
    have issued := (issues.used _).mpr (.inl (List.mem_singleton_self _))
    refine ⟨rfl, fun _ member => issues.mem_used member, isNew, issued, .inr isFresh,
      fun other more wider becomes => (mirrors.mono wider).set ⟨_, false⟩
        (fun _ member => issues.mem_used member) issued (fun former formerUsed known => ?_)
        (fun isBuiltin => absurd isBuiltin (Registry.fresh_ne_builtin name state.registry))
        (fun _ => isNew) ?_⟩
    · have aliased := mirrors.issued former formerUsed
      rw [known] at aliased
      exact absurd aliased isFresh
    · rw [if_pos isObject]
      exact ⟨isOne, isNew, becomes⟩

/-! ## Items -/

theorem followsUse (mirrors : Mirrors start objects parameters state table renamed)
    (isWord : use.name ∈ start.used) (kept : ∀ name ∈ listKeptNames [.use use], name ∉ objects) :
    Follows start parameters ⟨use, table use.scoped⟩
      ⟨use.rename state.table.aliasOf, renamed (use.rename state.table.aliasOf).scoped⟩ := by
  obtain ⟨kind, name, place⟩ := use
  have ordinary (isOrdinary : kind.space = .ordinary)
      (noObject : (table ⟨.ordinary, name⟩).any Entity.isObject = false) :
      Follows start parameters ⟨⟨kind, name, place⟩, table ⟨.ordinary, name⟩⟩
        ⟨NameUse.rename state.table.aliasOf ⟨kind, name, place⟩,
          renamed ⟨.ordinary, (NameUse.rename state.table.aliasOf ⟨kind, name, place⟩).name⟩⟩ := by
    obtain ⟨fixed, resolved⟩ := mirrors.rest name isWord noObject
    have same : NameUse.rename state.table.aliasOf ⟨kind, name, place⟩ = ⟨kind, name, place⟩ := by
      cases kind <;> simp [NameUse.rename, fixed]
    rw [same, resolved]
    exact .other noObject
  cases kind with
  | identifier =>
    cases noObject : (table ⟨.ordinary, name⟩).any Entity.isObject with
    | false => exact ordinary rfl noObject
    | true =>
      change Follows start parameters ⟨⟨.identifier, name, place⟩, table ⟨.ordinary, name⟩⟩
        ⟨⟨.identifier, state.table.aliasOf name, place⟩, renamed ⟨.ordinary, state.table.aliasOf name⟩⟩
      cases found : table ⟨.ordinary, name⟩ with
      | none =>
        rw [found] at noObject
        cases noObject
      | some entity =>
        rw [found] at noObject
        obtain ⟨-, -, other, resolved, becomes⟩ := mirrors.object name isWord entity found noObject
        rw [resolved]
        exact .object noObject becomes
  | typeName =>
    cases noObject : (table ⟨.ordinary, name⟩).any Entity.isObject with
    | false => exact ordinary rfl noObject
    | true =>
      change Follows start parameters ⟨⟨.typeName, name, place⟩, table ⟨.ordinary, name⟩⟩
        ⟨⟨.typeName, name, place⟩, renamed ⟨.ordinary, name⟩⟩
      cases found : table ⟨.ordinary, name⟩ with
      | none =>
        rw [found] at noObject
        cases noObject
      | some entity =>
        rw [found] at noObject
        exact .notType _ noObject
  | tag =>
    change Follows start parameters ⟨⟨.tag, name, place⟩, table ⟨.tag, name⟩⟩
      ⟨⟨.tag, name, place⟩, renamed ⟨.tag, name⟩⟩
    obtain ⟨same, noObject⟩ := mirrors.apart ⟨.tag, name⟩ nofun
    rw [same]
    exact .other noObject
  | member =>
    have notObject : name ∉ objects := kept name (by simp [listKeptNames, ScopeItem.keptNames])
    change Follows start parameters ⟨⟨.member, name, place⟩, table ⟨.member, name⟩⟩
      ⟨⟨.member, state.table.aliasOf name, place⟩, renamed ⟨.member, state.table.aliasOf name⟩⟩
    obtain ⟨same, noObject⟩ := mirrors.apart ⟨.member, name⟩ nofun
    rw [(mirrors.kept isWord notObject).1, same]
    exact .other noObject

theorem follows (mirrors : Mirrors start objects parameters state table renamed)
    {items others : List ScopeItem}
    (behind : ScopeItem.Renamed state.table.aliasOf (· ∈ start.used) items others)
    (kept : ∀ name ∈ listKeptNames items, name ∉ objects) :
    List.Forall₂ (Follows start parameters) (listReferences table items) (listReferences renamed others) ∧
      Mirrors start objects parameters state (listAfter table items) (listAfter renamed others) := by
  induction behind generalizing table renamed with
  | nil => exact ⟨.nil, mirrors⟩
  | append _ _ former latter =>
    rw [ScopeItem.listKeptNames_append] at kept
    obtain ⟨firstKept, secondKept⟩ := List.forall_mem_append.mp kept
    obtain ⟨firstFollow, between⟩ := former mirrors firstKept
    obtain ⟨secondFollow, after⟩ := latter between secondKept
    rw [ScopeItem.listReferences_append, ScopeItem.listReferences_append,
      ScopeItem.listAfter_append, ScopeItem.listAfter_append]
    exact ⟨List.rel_append firstFollow secondFollow, after⟩
  | @use use isWord =>
    refine ⟨.cons ?_ .nil, mirrors⟩
    exact mirrors.followsUse isWord kept
  | @declare name entity isWord notDeclared =>
    refine ⟨.nil, ?_⟩
    obtain ⟨space, name⟩ := name
    have notObject : entity.isObject = false := by
      cases isObject : entity.isObject with
      | false => rfl
      | true =>
        rw [beq_iff_eq.mp isObject] at notDeclared
        cases notDeclared
    cases space with
    | ordinary =>
      have other : name ∉ objects := kept name (by
        simp [listKeptNames, ScopeItem.keptNames, notDeclared])
      exact mirrors.declare isWord notObject (mirrors.kept isWord other).1
    | tag => exact mirrors.declareApart notObject nofun
    | member => exact mirrors.declareApart notObject nofun
  | scope _ ih =>
    have inside : ∀ name ∈ listKeptNames _, name ∉ objects := fun name member =>
      kept name (List.mem_append_left _ member)
    refine ⟨?_, mirrors⟩
    have found := (ih mirrors inside).1
    simpa only [listReferences, ScopeItem.references, List.append_nil] using found

end Mirrors

end Renaming

end InlineMacro
