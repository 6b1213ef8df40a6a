import InlineMacro.Proofs.Association
import InlineMacro.Proofs.Pass.FlattenRewriting

/-!
# Calls behind renaming

Renaming gives every object of a function a name that no function has. A call of a known function
is left exactly where the innermost binding of its name is no object, and what still hides it then
is a type of that name.
-/

set_option autoImplicit false

namespace InlineMacro

namespace Bindings

def renamed (scope : Bindings) : Bindings :=
  scope.map fun frame => frame.filter fun binding => binding.kind != .object

def renamedCalls (calls : List (Occurrence Bindings)) : List (Occurrence Bindings) :=
  (calls.filter fun occurrence => !occurrence.scope.namesObject occurrence.use.name).map
    (Occurrence.mapScope renamed)

@[simp] theorem renamedCalls_append (first second : List (Occurrence Bindings)) :
    renamedCalls (first ++ second) = renamedCalls first ++ renamedCalls second := by
  simp [renamedCalls]

theorem renamed_add (scope : Bindings) (binding : Binding) : (scope.add binding).renamed =
      if binding.kind != .object then scope.renamed.add binding else scope.renamed := by
  cases scope with
  | nil => simp [add, renamed]
  | cons frame frames =>
    cases kind : binding.kind != .object <;> simp [add, renamed, kind]

theorem hides_renamed (scope : Bindings) (name : String) :
    scope.renamed.hides name = scope.namesType name := by
  simp only [hides, namesType, renamed, List.any_flatten, List.any_map, Function.comp_def, List.any_filter]
  congr 1
  funext frame
  congr 1
  funext binding
  cases binding.kind <;> cases binding.name == name <;> rfl

end Bindings

namespace AliasTable

/-! ## Aliases -/

theorem aliasOf_set (table : AliasTable) (name other : String) (entry : Alias) :
    (table.set name entry).aliasOf other = if other = name then entry.name else table.aliasOf other := by
  unfold aliasOf scopes
  simp only [set, List.findSome?_cons, Association.find?_insert]
  by_cases same : other = name
  · simp [same]
  · simp only [same, if_false]

/-- The aliases that no declaration replaces have a property. -/
def Settled (property : String → Prop) (table : AliasTable) : Prop :=
  ∀ aliases ∈ table.scopes, ∀ name given, aliases.find? name = some ⟨given, false⟩ → property given

namespace Settled

variable {property : String → Prop} {table : AliasTable}

theorem nothing : Settled property {} := by
  intro aliases member name given found
  rw [List.mem_singleton.mp member] at found
  cases found

theorem enter (settled : table.Settled property) : table.enter.Settled property :=
  List.forall_mem_cons.mpr ⟨fun _ _ found => (by cases found), settled⟩

theorem set (settled : table.Settled property) (name : String) {entry : Alias}
    (own : entry.isReplaceable = false → property entry.name) : (table.set name entry).Settled property := by
  obtain ⟨current, outer⟩ := List.forall_mem_cons.mp settled
  refine List.forall_mem_cons.mpr ⟨fun other given found => ?_, outer⟩
  change (table.current.insert name entry).find? other = _ at found
  rw [Association.find?_insert] at found
  split at found
  · cases found
    exact own rfl
  · exact current other given found

theorem mono {wider : String → Prop} (settled : table.Settled property) (names : ∀ name, property name → wider name) :
    table.Settled wider :=
  fun aliases member name given found => names given (settled aliases member name given found)

end Settled

/-- The aliases in a table fit a scope: objects have names that are not known, and every other
known name stands for itself. -/
structure Reflects (known : String → Bool) (table : AliasTable) (scope : Bindings) : Prop where
  opened : scope ≠ []
  keeps : ∀ name, known name → scope.namesObject name = false → table.aliasOf name = name
  renames : ∀ name, known (table.aliasOf name) →
    table.aliasOf name = name ∧ scope.namesObject name = false
  settled : table.Settled (known · = false)

namespace Reflects

variable {known : String → Bool} {table : AliasTable} {scope : Bindings}

theorem enter (reflects : Reflects known table scope) :
    Reflects known table.enter ((Scoping.bindings known).enter scope) where
  opened := List.cons_ne_nil _ _
  keeps name isKnown notObject := reflects.keeps name isKnown notObject
  renames name isKnown := reflects.renames name isKnown
  settled := reflects.settled.enter

theorem set (reflects : Reflects known table scope) (name : String) (entry : Alias)
    (kind : BindingKind)
    (fits : if kind = .object then known entry.name = false else entry.name = name)
    (settled : entry.isReplaceable = false → known entry.name = false) :
    Reflects known (table.set name entry)
      (if known name then scope.add ⟨name, kind⟩ else scope) where
  opened := by
    split
    · exact Bindings.add_ne_nil reflects.opened _
    · exact reflects.opened
  keeps other isKnown notObject := by
    rw [aliasOf_set]
    by_cases same : other = name
    · subst same
      rw [if_pos isKnown, Bindings.namesObject_add reflects.opened] at notObject
      have notObject : kind ≠ .object := by simpa using notObject
      simpa [notObject] using fits
    · rw [if_neg same]
      refine reflects.keeps other isKnown ?_
      split at notObject
      · simpa [Bindings.namesObject_add reflects.opened, same] using notObject
      · exact notObject
  renames other isKnown := by
    rw [aliasOf_set] at isKnown ⊢
    by_cases same : other = name
    · subst same
      rw [if_pos rfl] at isKnown ⊢
      by_cases isObject : kind = .object
      · rw [if_pos isObject, isKnown] at fits
        cases fits
      · rw [if_neg isObject] at fits
        rw [fits] at isKnown
        refine ⟨fits, ?_⟩
        rw [if_pos isKnown, Bindings.namesObject_add reflects.opened]
        simpa using isObject
    · rw [if_neg same] at isKnown ⊢
      obtain ⟨keeps, notObject⟩ := reflects.renames other isKnown
      refine ⟨keeps, ?_⟩
      split
      · simpa [Bindings.namesObject_add reflects.opened, same] using notObject
      · exact notObject
  settled := reflects.settled.set name settled

theorem again (reflects : Reflects known table scope) {name : String}
    (unknown : known (table.aliasOf name) = false) :
    Reflects known table (if known name then scope.add ⟨name, .object⟩ else scope) := by
  split
  · refine ⟨Bindings.add_ne_nil reflects.opened _, ?_, ?_, reflects.settled⟩
    · intro other isKnown notObject
      rw [Bindings.namesObject_add reflects.opened] at notObject
      split at notObject
      · cases notObject
      · exact reflects.keeps other isKnown notObject
    · intro other isKnown
      obtain ⟨keeps, notObject⟩ := reflects.renames other isKnown
      refine ⟨keeps, ?_⟩
      have different : other ≠ name := by
        rintro rfl
        rw [unknown] at isKnown
        cases isKnown
      simpa [Bindings.namesObject_add reflects.opened, different] using notObject
  · exact reflects

end Reflects

theorem declare_cases (name : String) (table : AliasTable) (registry : Registry) :
    (∃ given, table.current.find? name = some ⟨given, false⟩ ∧
      declare name table registry = (given, table, registry)) ∨ declare name table registry =
      ((registry.fresh name).1, table.set name ⟨(registry.fresh name).1, false⟩,
        (registry.fresh name).2) := by
  unfold declare
  split
  · next given found => exact .inl ⟨given, found, rfl⟩
  · exact .inr rfl

end AliasTable

/-! ## Uses behind renaming -/

namespace Renaming

variable {known : String → Bool} {table : AliasTable} {scope : Bindings}

theorem renames_aliasing (table : AliasTable) : (aliasing table).renames = table.aliasOf := rfl

theorem elsewhereAt_eq_placedAt {σ : Type} (scope : σ) (uses : List Use) :
    Occurrence.elsewhereAt scope uses = Occurrence.placedAt scope false (Use.elsewhere uses) := by
  simp [Occurrence.elsewhereAt, Occurrence.placedAt, Use.elsewhere]

theorem callsAmong_placedAt_renamed (reflects : AliasTable.Reflects known table scope)
    (inBlock : Bool) (uses : List (Use × UsePlace)) :
    Occurrence.callsAmong known (Occurrence.placedAt scope.renamed inBlock
        (uses.map (Use.renamePlaced table.aliasOf))) = Bindings.renamedCalls
        (Occurrence.callsAmong known (Occurrence.placedAt scope inBlock uses)) := by
  induction uses with
  | nil => rfl
  | cons placed uses ih =>
    obtain ⟨use, place⟩ := placed
    unfold Occurrence.placedAt Occurrence.callsAmong Bindings.renamedCalls at ih ⊢
    rw [List.map_cons, List.map_cons, List.map_cons, List.filter_cons, List.filter_cons, ih]
    cases use with
    | mentioned name => rfl
    | called name =>
      by_cases left : known (table.aliasOf name) = true
      · obtain ⟨same, notObject⟩ := reflects.renames name left
        rw [same] at left
        simp [Use.renamePlaced, Use.rename, Use.isCallOf, same, left, notObject, Use.name,
          Occurrence.mapScope]
      · by_cases isKnown : known name = true
        · have isObject : scope.namesObject name = true := by
            by_contra notObject
            rw [Bool.not_eq_true] at notObject
            rw [reflects.keeps name isKnown notObject] at left
            exact left isKnown
          simp [Use.renamePlaced, Use.rename, Use.isCallOf, left, isKnown, isObject, Use.name]
        · simp [Use.renamePlaced, Use.rename, Use.isCallOf, left, isKnown]

theorem callsAmong_elsewhereAt_renamed (reflects : AliasTable.Reflects known table scope) (uses : List Use) :
    Occurrence.callsAmong known (Occurrence.elsewhereAt scope.renamed (uses.map (Use.rename table.aliasOf))) =
      Bindings.renamedCalls (Occurrence.callsAmong known (Occurrence.elsewhereAt scope uses)) := by
  rw [elsewhereAt_eq_placedAt, elsewhereAt_eq_placedAt, ← Use.map_renamePlaced_elsewhere]
  exact callsAmong_placedAt_renamed reflects false _

/-! ## Declarations -/

/-- A state of renaming fits a scope, and all known names are in use. -/
structure Fits (known : String → Bool) (scope : Bindings) (state : RenameState) : Prop where
  reflects : AliasTable.Reflects known state.table scope
  old : ∀ name, known name → name ∈ state.registry.used

/-- A declared name keeps the alias that it was declared with in the same scope, or else gets a fresh one. -/
theorem declare_cases {name : String} {state : RenameState} {post : String → RenameState → Prop}
    (again : ∀ given, state.table.current.find? name = some ⟨given, false⟩ →
      state.table.aliasOf name = given → post given state)
    (new : Registry.Issues state.registry (state.registry.fresh name).2 [(state.registry.fresh name).1] →
      post (state.registry.fresh name).1
        ⟨state.table.set name ⟨(state.registry.fresh name).1, false⟩, (state.registry.fresh name).2⟩) :
    Ensures (declare name) state post := by
  have cases := AliasTable.declare_cases name state.table state.registry
  unfold declare
  refine .bindGet ?_
  rcases cases with ⟨given, found, same⟩ | same
  · rw [same]
    exact .bindSet (.pure (again given found (by simp [AliasTable.aliasOf, AliasTable.scopes, found])))
  · rw [same]
    exact .bindSet (.pure (new (Registry.fresh_issues name state.registry)))

/-- A parameter whose argument is copied into what the body knows it as. -/
def RenamedParameter.copying (argument : String) (type : CType) (span : Span) (known : String) :
    RenamedParameter :=
  ⟨⟨some argument, type, span⟩, some (.ofDeclaration { Declaration.ofVariable known type.withoutBodies with
    initializer := some (.expression span (.ofName argument)) })⟩

/-- A parameter of a macro gets a fresh name. Its argument is copied, or stands for the parameter. -/
theorem parameter_cases {stem : String} {given : CType} {span : Span} {state : RenameState}
    {post : RenamedParameter → RenameState → Prop}
    (copied : (Id.run (given.traverse (aliasing state.table))).isMovable →
      Ensures (declare stem) ⟨state.table, (state.registry.fresh stem).2⟩ fun known after =>
        post (.copying (state.registry.fresh stem).1 (Id.run (given.traverse (aliasing state.table))) span known)
          after)
    (bound : (Id.run (given.traverse (aliasing state.table))).isMovable = false →
      post ⟨⟨some (state.registry.fresh stem).1, Id.run (given.traverse (aliasing state.table)), span⟩, none⟩
        ⟨state.table.bind stem (state.registry.fresh stem).1, (state.registry.fresh stem).2⟩) :
    Ensures (parameter ⟨some stem, given, span⟩) state post := by
  have made : Ensures (fresh stem) state fun name after =>
      name = (state.registry.fresh stem).1 ∧ ⟨state.table, (state.registry.fresh stem).2⟩ = after := ⟨rfl, rfl⟩
  refine made.bind fun name middle same => ?_
  obtain ⟨rfl, rfl⟩ := same
  have typed : Ensures (type given) ⟨state.table, (state.registry.fresh stem).2⟩ fun type after =>
      type = Id.run (given.traverse (aliasing state.table)) ∧
        ⟨state.table, (state.registry.fresh stem).2⟩ = after := ⟨rfl, rfl⟩
  refine typed.bind fun type middle same => ?_
  obtain ⟨rfl, rfl⟩ := same
  dsimp only
  split
  · next movable => exact (copied movable).bind fun known after holds => .pure holds
  · next notMovable => exact .bindModify (.pure (bound (Bool.eq_false_iff.mpr notMovable)))

theorem declare_ensures (name : String) (state : RenameState) (fits : Fits known scope state) :
    Ensures (declare name) state fun given after =>
      known given = false ∧ after.table.outer = state.table.outer ∧
        Fits known (if known name then scope.add ⟨name, .object⟩ else scope) after := by
  obtain ⟨reflects, old⟩ := fits
  refine declare_cases (fun given found aliased => ?_) fun issues => ?_
  · have unknown := reflects.settled _ List.mem_cons_self name given found
    exact ⟨unknown, rfl, reflects.again (aliased ▸ unknown), old⟩
  · have unknown : known (state.registry.fresh name).1 = false := by
      rw [Bool.eq_false_iff]
      exact fun isKnown => issues.fresh _ List.mem_cons_self (old _ isKnown)
    refine ⟨unknown, rfl, ?_, fun other isKnown => issues.mem_used (old other isKnown)⟩
    exact reflects.set name _ .object (by simpa using unknown) fun _ => unknown

theorem bind_ensures (name : String) (kind : BindingKind) (notObject : kind ≠ .object)
    (state : RenameState) (fits : Fits known scope state) : Ensures (bind name name) state fun _ after =>
      after.table.outer = state.table.outer ∧
        Fits known (if known name then scope.add ⟨name, kind⟩ else scope) after := by
  refine ⟨rfl, ?_, fits.old⟩
  exact fits.reflects.set name ⟨name, true⟩ kind (by simp [notObject]) (by simp)

theorem keepsName_eq (declaration : Declaration) :
    keepsName declaration.type declaration.storage = (declaration.bindingKind != .object) := by
  unfold keepsName Declaration.bindingKind
  cases declaration.type.isFunction || declaration.storage == some .external with
  | true => rfl
  | false => cases declaration.storage == some .typeAlias <;> rfl

/-- What renaming makes of a part of a function that declares something. -/
structure RenamesDeclarations (known : String → Bool) (scope : Bindings)
    (given result : List Declaration) : Prop where
  calls : Occurrence.callsAmong known
      (Declaration.listOccurrences (.bindings known) scope.renamed result) =
    Bindings.renamedCalls (Occurrence.callsAmong known
      (Declaration.listOccurrences (.bindings known) scope given))
  scopeAfter : result.foldl (Scoping.bindings known).declare scope.renamed =
    (given.foldl (Scoping.bindings known).declare scope).renamed

theorem declare_renamed (scope : Bindings) (given result : Declaration)
    (sameKind : result.bindingKind = given.bindingKind)
    (name : if given.bindingKind = .object then known result.name = false
      else result.name = given.name) : (Scoping.bindings known).declare scope.renamed result =
      ((Scoping.bindings known).declare scope given).renamed := by
  simp only [Scoping.bindings, sameKind]
  by_cases isObject : given.bindingKind = .object
  · rw [if_pos isObject] at name
    simp only [name, isObject, Bool.false_eq_true, if_false]
    split
    · rw [Bindings.renamed_add]
      rfl
    · rfl
  · rw [if_neg isObject] at name
    rw [name]
    split
    · rw [Bindings.renamed_add, if_pos (by simpa using isObject)]
    · rfl

theorem bindingKind_traverse (traversal : Traversal Id) (given : Declaration) (name : String)
    (initializer : Option Initializer) :
    ({ given with
      name := name
      type := Id.run (given.type.traverse traversal)
      initializer := initializer } : Declaration).bindingKind = given.bindingKind := by
  simp only [Declaration.bindingKind, given.type.isFunction_traverse traversal]

theorem keepsName_traverse (traversal : Traversal Id) (type : CType) (storage : Option StorageClass) :
    keepsName (Id.run (type.traverse traversal)) storage = keepsName type storage := by
  simp only [keepsName, type.isFunction_traverse traversal]

theorem optionalUses_traverse (traversal : Traversal Id) (given : Option Initializer) :
    optionalUses Initializer.uses (given.map fun value => Id.run (value.traverse traversal)) =
      (optionalUses Initializer.uses given).map (Use.rename traversal.renames) := by
  cases given with
  | none => rfl
  | some initializer => exact initializer.uses_traverse traversal

theorem initialize_ensures (given : Declaration) {table : AliasTable} (name : String)
    (state : RenameState) (before : AliasTable.Reflects known table scope)
    (named : if given.bindingKind = .object then known name = false else name = given.name)
    (fits : Fits known ((Scoping.bindings known).declare scope given) state) :
    Ensures (do
        let initializer ← option initializer given.initializer
        return { given with
          name := name
          type := Id.run (given.type.traverse (aliasing table))
          initializer := initializer }) state fun result after =>
      after = state ∧
        (Scoping.bindings known).declare scope.renamed result =
          ((Scoping.bindings known).declare scope given).renamed ∧
        Occurrence.callsAmong known (result.occurrences (.bindings known) scope.renamed) =
          Bindings.renamedCalls
            (Occurrence.callsAmong known (given.occurrences (.bindings known) scope)) := by
  have initialized : Ensures (option initializer given.initializer) state fun result after =>
      result = (given.initializer.map fun value =>
        Id.run (value.traverse (aliasing state.table))) ∧ state = after := by
    cases given.initializer <;> exact ⟨rfl, rfl⟩
  refine initialized.bind fun renamedInitializer after holds => ?_
  obtain ⟨sameInitializer, sameState⟩ := holds
  subst sameInitializer sameState
  have scopes := declare_renamed scope given _
    (bindingKind_traverse (aliasing table) given name (given.initializer.map fun value =>
      Id.run (value.traverse (aliasing state.table)))) named
  refine .pure ⟨rfl, scopes, ?_⟩
  simp only [Declaration.occurrences, Occurrence.callsAmong_append, Bindings.renamedCalls_append,
    scopes, optionalUses_traverse, CType.uses_traverse, renames_aliasing,
    callsAmong_elsewhereAt_renamed before, callsAmong_elsewhereAt_renamed fits.reflects]

theorem declaration_ensures (given : Declaration) (state : RenameState) (fits : Fits known scope state) :
    Ensures (declaration given) state fun result after =>
      after.table.outer = state.table.outer ∧
        Fits known ((Scoping.bindings known).declare scope given) after ∧
        (Scoping.bindings known).declare scope.renamed result =
          ((Scoping.bindings known).declare scope given).renamed ∧
        Occurrence.callsAmong known (result.occurrences (.bindings known) scope.renamed) =
          Bindings.renamedCalls
            (Occurrence.callsAmong known (given.occurrences (.bindings known) scope)) := by
  have typed : Ensures (type given.type) state fun result after =>
      result = Id.run (given.type.traverse (aliasing state.table)) ∧ state = after := ⟨rfl, rfl⟩
  refine typed.bind fun renamedType same holds => ?_
  obtain ⟨sameType, sameState⟩ := holds
  subst sameType sameState
  rw [keepsName_traverse, keepsName_eq]
  by_cases isObject : given.bindingKind = .object
  · rw [if_neg (by simp [isObject])]
    refine (declare_ensures given.name state fits).bind fun name middle holds => ?_
    obtain ⟨unknown, outer, behind⟩ := holds
    have declared : Fits known ((Scoping.bindings known).declare scope given) middle := by
      simpa [Scoping.bindings, isObject] using behind
    refine (initialize_ensures given name middle fits.reflects (by simpa [isObject] using unknown)
      declared).mono fun result after holds => ?_
    obtain ⟨rfl, rest⟩ := holds
    exact ⟨outer, declared, rest⟩
  · rw [if_pos (by simpa using isObject)]
    refine (bind_ensures given.name given.bindingKind isObject state fits).bind
      fun _ middle holds => ?_
    obtain ⟨outer, declared⟩ := holds
    refine (initialize_ensures given given.name middle fits.reflects (by simp [isObject])
      declared).mono fun result after holds => ?_
    obtain ⟨rfl, rest⟩ := holds
    exact ⟨outer, declared, rest⟩

theorem declarations_ensures (given : List Declaration) (state : RenameState)
    (fits : Fits known scope state) : Ensures (declarations given) state fun result after =>
      after.table.outer = state.table.outer ∧
        Fits known (given.foldl (Scoping.bindings known).declare scope) after ∧
        RenamesDeclarations known scope given result := by
  induction given generalizing state scope with
  | nil => exact ⟨rfl, fits, rfl, rfl⟩
  | cons first rest ih =>
    refine (declaration_ensures first state fits).bind fun renamed middle holds => ?_
    obtain ⟨outer, fits, scopes, calls⟩ := holds
    refine (ih middle fits).bind fun others after holds => ?_
    obtain ⟨outerToo, fits, renames⟩ := holds
    refine .pure ⟨outerToo.trans outer, fits, ?_, ?_⟩
    · simp only [Declaration.listOccurrences, Occurrence.callsAmong_append,
        Bindings.renamedCalls_append, calls, scopes, renames.calls]
    · rw [List.foldl_cons, List.foldl_cons, scopes, renames.scopeAfter]

/-! ## Statements -/

theorem expr_ensures (value : Expr) (state : RenameState) : Ensures (expr value) state fun result after =>
      result = Id.run (value.traverse (aliasing state.table)) ∧ state = after := ⟨rfl, rfl⟩

theorem option_ensures (value : Option Expr) (state : RenameState) :
    Ensures (option expr value) state fun result after =>
      result = value.map (fun value => Id.run (value.traverse (aliasing state.table))) ∧
        state = after := by
  cases value <;> exact ⟨rfl, rfl⟩

theorem optionalExprUses_traverse (traversal : Traversal Id) (given : Option Expr) :
    optionalUses Expr.uses (given.map fun value => Id.run (value.traverse traversal)) =
      (optionalUses Expr.uses given).map (Use.rename traversal.renames) := by
  cases given with
  | none => rfl
  | some value => exact value.uses_traverse traversal

/-- A statement behind renaming: the calls in it are those that are left. -/
structure Renames (known : String → Bool) (scope : Bindings) (state : RenameState)
    (entry result : Statement) (after : RenameState) : Prop where
  outer : after.table.outer = state.table.outer
  fits : Fits known (entry.scopeAfter (.bindings known) scope) after
  braced : result.Braced
  sameForm : result.SameForm entry
  scopeAfter : result.scopeAfter (.bindings known) scope.renamed =
    (entry.scopeAfter (.bindings known) scope).renamed
  calls : ∀ inBlock, result.calls known inBlock scope.renamed =
    Bindings.renamedCalls (entry.calls known inBlock scope)

/-- Statements of a block behind renaming. -/
structure RenamesAll (known : String → Bool) (scope : Bindings) (state : RenameState)
    (entries result : List Statement) (after : RenameState) : Prop where
  outer : after.table.outer = state.table.outer
  fits : Fits known (Statement.listScopeAfter (.bindings known) scope entries) after
  braced : ∀ statement ∈ result, statement.Braced
  calls : Statement.listCalls known scope.renamed result =
    Bindings.renamedCalls (Statement.listCalls known scope entries)

theorem closed_table {state after : RenameState}
    (outer : after.table.outer = state.table.enter.outer) : after.table.leave = state.table := by
  obtain ⟨⟨current, others⟩, registry⟩ := after
  cases outer
  rfl

theorem head_ensures {entry : Statement} (head : entry.IsLoopHead) (state : RenameState)
    (fits : Fits known scope state) : Ensures (statement entry) state (Renames known scope state entry) := by
  cases head with
  | expression span value =>
    rw [statement]
    refine (expr_ensures value state).bind fun result after holds => ?_
    obtain ⟨same, sameState⟩ := holds
    subst same sameState
    refine .pure ⟨rfl, fits, .expression span _, ⟨rfl, rfl, fun _ => .expression span _⟩, rfl, ?_⟩
    intro inBlock
    simp only [Statement.calls, Statement.occurrences, Expr.statementUses_traverse,
      renames_aliasing, callsAmong_placedAt_renamed fits.reflects]
  | declaration span given =>
    rw [statement]
    refine (declarations_ensures given state fits).bind fun result after holds => ?_
    obtain ⟨outer, fits, renames⟩ := holds
    exact .pure ⟨outer, fits, .declaration span result,
      ⟨rfl, rfl, fun _ => .declaration span result⟩, renames.scopeAfter, fun _ => renames.calls⟩
  | typeDefinition span given =>
    rw [statement]
    refine .pure ⟨rfl, fits, .typeDefinition span _, ⟨rfl, rfl, fun _ => .typeDefinition span _⟩,
      rfl, ?_⟩
    intro inBlock
    simp only [Statement.calls, Statement.occurrences, CType.uses_traverse,
      renames_aliasing, callsAmong_elsewhereAt_renamed fits.reflects]

theorem statements_ensures {entries : List Statement}
    (each : ∀ entry ∈ entries, ∀ (state : RenameState) (scope : Bindings), Fits known scope state →
      Ensures (statement entry) state (Renames known scope state entry))
    (state : RenameState) (fits : Fits known scope state) :
    Ensures (statements entries) state (RenamesAll known scope state entries) := by
  induction entries generalizing state scope with
  | nil =>
    rw [statements]
    exact .pure ⟨rfl, fits, fun _ member => absurd member List.not_mem_nil, rfl⟩
  | cons entry entries ih =>
    rw [statements]
    refine (each entry (by simp) state scope fits).bind fun first middle renames => ?_
    refine (ih (fun other member => each other (by simp [member])) middle renames.fits).bind
      fun rest after renamesAll => ?_
    refine .pure ⟨renamesAll.outer.trans renames.outer, renamesAll.fits, ?_, ?_⟩
    · intro statement member
      rcases List.mem_cons.mp member with rfl | member
      · exact renames.braced
      · exact renamesAll.braced statement member
    · rw [Statement.listCalls_cons, Statement.listCalls_cons, Bindings.renamedCalls_append,
        renames.calls, renames.scopeAfter, renamesAll.calls]

theorem statement_ensures {entry : Statement} (braced : entry.Braced) (state : RenameState)
    (fits : Fits known scope state) :
    Ensures (statement entry) state (Renames known scope state entry) := by
  induction braced generalizing state scope with
  | expression span value => exact head_ensures (.expression span value) state fits
  | declaration span given => exact head_ensures (.declaration span given) state fits
  | typeDefinition span given => exact head_ensures (.typeDefinition span given) state fits
  | block span entries each ih =>
    rw [statement]
    refine .bindModify ?_
    have opened : Fits known ((Scoping.bindings known).enter scope)
        { state with table := state.table.enter } := ⟨fits.reflects.enter, fits.old⟩
    refine (statements_ensures (fun entry member state scope => ih entry member state) _
      opened).bind fun result after renamesAll => ?_
    have closed := closed_table renamesAll.outer
    refine .bindModify (.pure ⟨?_, ⟨?_, renamesAll.fits.old⟩, .block span result renamesAll.braced,
      ⟨rfl, rfl, fun head => by cases head⟩, rfl, fun inBlock => renamesAll.calls⟩)
    · change after.table.leave.outer = _
      rw [closed]
    · change AliasTable.Reflects known after.table.leave scope
      rw [closed]
      exact fits.reflects
  | ifElse span condition thenBranch elseBranch thenBlock elseBlock thenBraced elseBraced thenIh
      elseIh =>
    rw [statement]
    refine (expr_ensures condition state).bind fun first after holds => ?_
    obtain ⟨same, sameState⟩ := holds
    subst same sameState
    refine (thenIh state fits).bind fun thenResult middle thenRenames => ?_
    refine (elseIh middle thenRenames.fits).bind fun elseResult after elseRenames => ?_
    have thenStays := thenRenames.sameForm.isBlock.trans thenBlock
    have elseStays := elseRenames.sameForm.isBlock.trans elseBlock
    refine .pure ⟨elseRenames.outer.trans thenRenames.outer, elseRenames.fits,
      .ifElse span _ _ _ thenStays elseStays thenRenames.braced elseRenames.braced,
      ⟨rfl, rfl, fun head => by cases head⟩, ?_, ?_⟩
    · simp only [Statement.scopeAfter, thenRenames.scopeAfter, elseRenames.scopeAfter]
    · intro inBlock
      have thenCalls := thenRenames.calls false
      have elseCalls := elseRenames.calls false
      simp only [Statement.calls] at thenCalls elseCalls
      simp only [Statement.calls, Statement.occurrences, Occurrence.callsAmong_append,
        Bindings.renamedCalls_append, Expr.uses_traverse, renames_aliasing,
        callsAmong_elsewhereAt_renamed fits.reflects, thenRenames.scopeAfter, thenCalls, elseCalls]
  | whileLoop span value body bodyBlock _ ih | switch span value body bodyBlock _ ih =>
    rw [statement]
    refine (expr_ensures value state).bind fun first after holds => ?_
    obtain ⟨same, sameState⟩ := holds
    subst same sameState
    refine (ih state fits).bind fun result after renames => ?_
    have stays := renames.sameForm.isBlock.trans bodyBlock
    refine .pure ⟨renames.outer, renames.fits, by constructor; exacts [stays, renames.braced],
      ⟨rfl, rfl, fun head => by cases head⟩, renames.scopeAfter, ?_⟩
    intro inBlock
    have calls := renames.calls false
    simp only [Statement.calls] at calls
    simp only [Statement.calls, Statement.occurrences, Occurrence.callsAmong_append,
      Bindings.renamedCalls_append, Expr.uses_traverse, renames_aliasing,
      callsAmong_elsewhereAt_renamed fits.reflects, calls]
  | bareLoop span condition update body bodyBlock bodyBraced ih =>
    rw [statement]
    refine (option_ensures condition state).bind fun first after holds => ?_
    obtain ⟨same, sameState⟩ := holds
    subst same sameState
    refine (option_ensures update state).bind fun second after holds => ?_
    obtain ⟨same, sameState⟩ := holds
    subst same sameState
    refine (ih state fits).bind fun result after renames => ?_
    have stays := renames.sameForm.isBlock.trans bodyBlock
    refine .pure ⟨renames.outer, renames.fits, .bareLoop span _ _ result stays renames.braced,
      ⟨rfl, rfl, fun head => by cases head⟩, renames.scopeAfter, ?_⟩
    intro inBlock
    have calls := renames.calls false
    simp only [Statement.calls] at calls
    simp only [Statement.calls, Statement.occurrences, Occurrence.callsAmong_append,
      Bindings.renamedCalls_append, optionalExprUses_traverse, ← List.map_append, renames_aliasing,
      callsAmong_elsewhereAt_renamed fits.reflects, calls]
  | forLoop span init condition update body head bodyBlock bodyBraced ih =>
    rw [statement]
    refine .bindModify ?_
    have opened : Fits known ((Scoping.bindings known).enter scope)
        { state with table := state.table.enter } := ⟨fits.reflects.enter, fits.old⟩
    refine (head_ensures head _ opened).bind fun start middle starts => ?_
    refine (option_ensures condition middle).bind fun first after holds => ?_
    obtain ⟨same, sameState⟩ := holds
    subst same sameState
    refine (option_ensures update middle).bind fun second after holds => ?_
    obtain ⟨same, sameState⟩ := holds
    subst same sameState
    refine (ih middle starts.fits).bind fun result after renames => ?_
    have stays := renames.sameForm.isBlock.trans bodyBlock
    have closed := closed_table (renames.outer.trans starts.outer)
    refine .bindModify (.pure ⟨?_, ⟨?_, renames.fits.old⟩, .forLoop span start _ _ result
      (starts.sameForm.loopHead head) stays renames.braced, ⟨rfl, rfl, fun head => by cases head⟩,
      rfl, ?_⟩)
    · change after.table.leave.outer = _
      rw [closed]
    · change AliasTable.Reflects known after.table.leave scope
      rw [closed]
      exact fits.reflects
    · intro inBlock
      have calls := renames.calls false
      have startCalls := starts.calls false
      have startAfter := starts.scopeAfter
      change start.scopeAfter (.bindings known) ((Scoping.bindings known).enter scope.renamed) = _
        at startAfter
      change start.calls known false ((Scoping.bindings known).enter scope.renamed) = _ at startCalls
      simp only [Statement.calls] at calls startCalls
      simp only [Statement.calls, Statement.occurrences, Occurrence.callsAmong_append,
        Bindings.renamedCalls_append, optionalExprUses_traverse, ← List.map_append,
        renames_aliasing, startAfter, startCalls,
        callsAmong_elsewhereAt_renamed starts.fits.reflects, calls]
  | doWhile span body condition bodyBlock bodyBraced ih =>
    rw [statement]
    refine (ih state fits).bind fun result middle renames => ?_
    refine (expr_ensures condition middle).bind fun first after holds => ?_
    obtain ⟨same, sameState⟩ := holds
    subst same sameState
    have stays := renames.sameForm.isBlock.trans bodyBlock
    refine .pure ⟨renames.outer, renames.fits, .doWhile span result _ stays renames.braced,
      ⟨rfl, rfl, fun head => by cases head⟩, renames.scopeAfter, ?_⟩
    intro inBlock
    have calls := renames.calls false
    simp only [Statement.calls] at calls
    simp only [Statement.calls, Statement.occurrences, Occurrence.callsAmong_append,
      Bindings.renamedCalls_append, Expr.uses_traverse, renames_aliasing, renames.scopeAfter,
      callsAmong_elsewhereAt_renamed renames.fits.reflects, calls]
  | caseLabel span value labelled marked labelledBraced ih =>
    rw [statement]
    refine (expr_ensures value state).bind fun first after holds => ?_
    obtain ⟨same, sameState⟩ := holds
    subst same sameState
    refine (ih state fits).bind fun result after renames => ?_
    have stays := renames.sameForm.isMarked.trans marked
    refine .pure ⟨renames.outer, renames.fits, .caseLabel span _ result stays renames.braced,
      ⟨rfl, rfl, fun head => by cases head⟩, renames.scopeAfter, ?_⟩
    intro inBlock
    have calls := renames.calls false
    simp only [Statement.calls] at calls
    simp only [Statement.calls, Statement.occurrences, Occurrence.callsAmong_append,
      Bindings.renamedCalls_append, Expr.uses_traverse, renames_aliasing,
      callsAmong_elsewhereAt_renamed fits.reflects, calls]
  | defaultLabel _ _ marked _ ih | labelled _ _ _ marked _ ih =>
    rw [statement]
    refine (ih state fits).bind fun result after renames => ?_
    have stays := renames.sameForm.isMarked.trans marked
    exact .pure ⟨renames.outer, renames.fits, by constructor; exacts [stays, renames.braced],
      ⟨rfl, rfl, fun head => by cases head⟩, renames.scopeAfter, fun _ => renames.calls false⟩
  | returnStatement span value =>
    rw [statement]
    refine (option_ensures value state).bind fun result after holds => ?_
    obtain ⟨same, sameState⟩ := holds
    subst same sameState
    refine .pure ⟨rfl, fits, .returnStatement span _, ⟨rfl, rfl, fun head => by cases head⟩, rfl, ?_⟩
    intro inBlock
    cases value with
    | none => rfl
    | some value =>
      simp only [Statement.calls, Statement.occurrences, Option.map_some, Option.getD_some,
        Expr.placedUses_traverse, renames_aliasing, callsAmong_placedAt_renamed fits.reflects]
  | breakStatement | continueStatement | gotoStatement | empty =>
    rw [statement]
    exact .pure ⟨rfl, fits, by constructor, .refl _, rfl, fun _ => rfl⟩

/-! ## Parameters -/

def parameterScope (known : String → Bool) (scope : Bindings) (given : List Parameter) : Bindings :=
  ((given.filterMap Parameter.name).filter known).foldl (fun scope name => scope.add ⟨name, .object⟩)
    scope

/-- An object that can be declared at the start of a body, without calling anything known as long as
the types of the parameters do not. -/
structure IsFresh (known : String → Bool) (given : List Parameter) (declared : Declaration) :
    Prop where
  unknown : known declared.name = false
  typed : CallFree known (Parameter.listUses given) → CallFree known declared.type.uses
  initialized : CallFree known (optionalUses Initializer.uses declared.initializer)

/-- Parameters behind renaming: their names and those of their copies are unknown. -/
structure RenamesParameters (known : String → Bool) (scope : Bindings) (given : List Parameter)
    (result : List RenamedParameter) (after : RenameState) : Prop where
  fits : Fits known (parameterScope known scope given) after
  unknown : ∀ renamed ∈ result, ∀ name, renamed.parameter.name = some name → known name = false
  copies : ∃ objects : List Declaration, result.filterMap (·.copy) = objects.map .ofDeclaration ∧
    ∀ declared ∈ objects, IsFresh known given declared

theorem callFree_traverse (reflects : AliasTable.Reflects known table scope) {uses : List Use}
    (callFree : CallFree known uses) : CallFree known (uses.map (Use.rename table.aliasOf)) := by
  intro name called
  obtain ⟨use, member, same⟩ := List.mem_map.mp called
  cases use with
  | mentioned other => cases same
  | called other =>
    obtain rfl : table.aliasOf other = name := by simpa [Use.rename] using same
    cases isKnown : known (table.aliasOf other) with
    | false => rfl
    | true =>
      obtain ⟨keeps, -⟩ := reflects.renames other isKnown
      rw [← isKnown, keeps]
      exact callFree other member

theorem fresh_ensures (stem : String) (state : RenameState) (fits : Fits known scope state) :
    Ensures (fresh stem) state fun name after =>
      known name = false ∧ after.table = state.table ∧ Fits known scope after := by
  have issues := Registry.fresh_issues stem state.registry
  refine .bindGet (.bindSet (.pure ⟨?_, rfl, fits.reflects, ?_⟩))
  · rw [Bool.eq_false_iff]
    exact fun isKnown => issues.fresh _ List.mem_cons_self (fits.old _ isKnown)
  · exact fun other isKnown => issues.mem_used (fits.old other isKnown)

theorem parameterScope_cons (scope : Bindings) (given : Parameter) (rest : List Parameter) :
    parameterScope known scope (given :: rest) =
      parameterScope known (parameterScope known scope [given]) rest := by
  unfold parameterScope
  rw [← List.foldl_append, ← List.filter_append, ← List.filterMap_append]
  rfl

theorem parameterScope_singleton (scope : Bindings) (name : String) (type : CType) (span : Span) :
    parameterScope known scope [⟨some name, type, span⟩] =
      if known name then scope.add ⟨name, .object⟩ else scope := by
  cases isKnown : known name <;> simp [parameterScope, isKnown]

theorem parameter_ensures (given : Parameter) (state : RenameState) (fits : Fits known scope state) :
    Ensures (parameter given) state fun result after =>
      RenamesParameters known scope [given] [result] after := by
  obtain ⟨name, given, span⟩ := given
  cases name with
  | none => exact Ensures.pure ⟨fits, by simp, [], rfl, by simp⟩
  | some name =>
    refine (fresh_ensures name state fits).bind fun argument middle holds => ?_
    obtain ⟨unknown, sameTable, fits⟩ := holds
    have typed : Ensures (type given) middle fun result after =>
        result = Id.run (given.traverse (aliasing middle.table)) ∧ middle = after := ⟨rfl, rfl⟩
    refine typed.bind fun renamedType same holds => ?_
    obtain ⟨sameType, sameState⟩ := holds
    subst sameType sameState
    dsimp only
    have typeFree (callFree : CallFree known given.uses) :
        CallFree known (Id.run (given.traverse (aliasing middle.table))).uses := by
      rw [CType.uses_traverse]
      exact callFree_traverse fits.reflects callFree
    split
    · refine (declare_ensures name middle fits).bind fun copied after holds => ?_
      obtain ⟨unknownCopy, -, fits⟩ := holds
      refine .pure ⟨parameterScope_singleton scope name given span ▸ fits, ?_, [_], rfl, ?_⟩
      · simpa using unknown
      · intro declared member
        obtain rfl := List.mem_singleton.mp member
        refine ⟨unknownCopy, ?_, ?_⟩
        · intro callFree other called
          exact typeFree (fun name inside => callFree name (List.mem_append_left _ inside)) other
            (CType.uses_withoutBodies_subset _ called)
        · intro other called
          cases List.mem_singleton.mp called
    · have bound : Ensures (bind name argument) middle fun _ after =>
          Fits known (parameterScope known scope [⟨some name, given, span⟩]) after := by
        rw [parameterScope_singleton]
        exact ⟨fits.reflects.set name ⟨argument, true⟩ .object (by simpa using unknown) (by simp),
          fits.old⟩
      refine bound.bind fun _ after fits => ?_
      exact .pure ⟨fits, by simpa using unknown, [], rfl, by simp⟩

theorem parameters_ensures (given : List Parameter) (state : RenameState) (fits : Fits known scope state) :
    Ensures (parameters given) state fun result after =>
      RenamesParameters known scope given result after := by
  induction given generalizing state scope with
  | nil => exact Ensures.pure ⟨fits, by simp, [], rfl, by simp⟩
  | cons first rest ih =>
    obtain ⟨name, type, span⟩ := first
    refine (parameter_ensures ⟨name, type, span⟩ state fits).bind fun renamed middle holds => ?_
    refine (ih middle holds.fits).bind fun others after othersHold => ?_
    obtain ⟨objects, copies, fresh⟩ := holds.copies
    obtain ⟨otherObjects, otherCopies, otherFresh⟩ := othersHold.copies
    refine .pure ⟨parameterScope_cons scope ⟨name, type, span⟩ rest ▸ othersHold.fits, ?_,
      objects ++ otherObjects, ?_, ?_⟩
    · intro result member
      rcases List.mem_cons.mp member with rfl | member
      · exact holds.unknown result (by simp)
      · exact othersHold.unknown result member
    · rw [List.map_append, ← copies, ← otherCopies, ← List.filterMap_append]
      rfl
    · intro declared member
      rcases List.mem_append.mp member with member | member
      · refine ⟨(fresh declared member).unknown, fun callFree => ?_, (fresh declared member).initialized⟩
        refine (fresh declared member).typed fun name called => ?_
        rw [Parameter.listUses, Parameter.listUses, List.append_nil] at called
        exact callFree name (List.mem_append_left _ called)
      · refine ⟨(otherFresh declared member).unknown, fun callFree => ?_,
          (otherFresh declared member).initialized⟩
        exact (otherFresh declared member).typed fun name called =>
          callFree name (List.mem_append_right _ called)

end Renaming

/-! ## The function -/

theorem AliasTable.Reflects.congr {known : String → Bool} {table : AliasTable}
    {scope other : Bindings} (reflects : Reflects known table scope) (opened : other ≠ [])
    (same : ∀ name, other.namesObject name = scope.namesObject name) :
    Reflects known table other where
  opened := opened
  keeps name isKnown notObject := reflects.keeps name isKnown (same name ▸ notObject)
  renames name isKnown := same name ▸ reflects.renames name isKnown
  settled := reflects.settled

theorem AliasTable.reflects_nothing (known : String → Bool) : Reflects known {} [[]] where
  opened := List.cons_ne_nil _ _
  keeps _ _ _ := rfl
  renames _ _ := ⟨rfl, rfl⟩
  settled := .nothing

theorem Renaming.namesObject_parameterScope (names : List String) (scope : Bindings)
    (opened : scope ≠ []) (name : String) :
    (names.foldl (fun scope name => Bindings.add scope ⟨name, .object⟩) scope).namesObject name =
      (names.contains name || scope.namesObject name) := by
  induction names generalizing scope with
  | nil => simp
  | cons first rest ih =>
    rw [List.foldl_cons, ih _ (Bindings.add_ne_nil opened _), Bindings.namesObject_add opened,
      List.contains_cons]
    by_cases same : name = first
    · simp [same]
    · have other : (name == first) = false := by simpa using same
      simp [same, other]

theorem Bindings.namesObject_objects (names : List String) (name : String) :
    Bindings.namesObject [names.map (⟨·, .object⟩)] name = names.contains name := by
  unfold namesObject
  rw [List.flatten_singleton]
  induction names with
  | nil => rfl
  | cons first rest ih =>
    rw [List.map_cons, List.find?_cons, List.contains_cons]
    by_cases same : first = name
    · simp [same]
    · have other : (first == name) = false := by simpa using same
      have otherToo : (name == first) = false := by simpa using Ne.symm same
      rw [other, otherToo, Bool.false_or]
      exact ih

namespace Renaming

def whole (function : Function) : Renaming (List RenamedParameter × Statement) := do
  let parameters ← parameters function.parameters
  let body ← statement function.body
  pure (parameters, body)

def assemble (function : Function) (renamed : List RenamedParameter × Statement) : Function :=
  { function with
    parameters := renamed.1.map RenamedParameter.parameter
    body := renamed.2.precededBy (renamed.1.filterMap RenamedParameter.copy) }

end Renaming

theorem Function.renameLocals_eq (function : Function) (registry : Registry) :
    function.renameLocals registry = let (renamed, state) := (Renaming.whole function).run ⟨{}, registry⟩
      let result := Renaming.assemble function renamed
      (result.parameters.filterMap Parameter.name, result, state.registry) := rfl

/-- A function behind renaming. -/
structure Function.RenamedFrom (known : String → Bool) (function result : Function)
    (after : Registry) : Prop where
  name : result.name = function.name
  type : result.result = function.result
  old : ∀ name, known name → name ∈ after.used
  unknown : (result.parameters.filterMap Parameter.name).filter known = []
  braced : result.body.Braced
  isBlock : result.body.isBlock
  calls : CallFree known (Parameter.listUses function.parameters) →
    result.calls known = Bindings.renamedCalls (function.calls known)
  sites : (result.calls known).filter (·.inBlock) =
    (Bindings.renamedCalls (function.calls known)).filter (·.inBlock)

namespace Renaming

variable {known : String → Bool}

/-- What is known of the parameters and the body of a function behind renaming. -/
structure RenamesWhole (known : String → Bool) (function : Function)
    (renamed : List RenamedParameter × Statement) (after : RenameState) : Prop where
  unknown : ∀ parameter ∈ renamed.1, ∀ name, parameter.parameter.name = some name →
    known name = false
  copies : ∃ objects : List Declaration,
    renamed.1.filterMap RenamedParameter.copy = objects.map .ofDeclaration ∧
    ∀ declared ∈ objects, IsFresh known function.parameters declared
  body : ∃ before, Renames known ((Scoping.bindings known).ofFunction function) before
    function.body renamed.2 after

theorem whole_ensures (function : Function) (registry : Registry) (braced : function.body.Braced)
    (old : ∀ name, known name → name ∈ registry.used) :
    Ensures (whole function) ⟨{}, registry⟩ (RenamesWhole known function) := by
  refine (parameters_ensures function.parameters ⟨{}, registry⟩
    ⟨AliasTable.reflects_nothing known, old⟩).bind fun parameters middle holds => ?_
  have fits : Fits known ((Scoping.bindings known).ofFunction function) middle := by
    refine ⟨holds.fits.reflects.congr (List.cons_ne_nil _ _) fun name => ?_, holds.fits.old⟩
    rw [parameterScope, namesObject_parameterScope _ _ (List.cons_ne_nil _ _)]
    exact (Bindings.namesObject_objects _ name).trans (Bool.or_false _).symm
  refine (statement_ensures braced middle fits).bind fun body after renames => ?_
  exact .pure ⟨holds.unknown, holds.copies, middle, renames⟩

theorem RenamesWhole.filter_known {function : Function}
    {renamed : List RenamedParameter × Statement} {after : RenameState}
    (renames : RenamesWhole known function renamed after) :
    ((renamed.1.map RenamedParameter.parameter).filterMap Parameter.name).filter known = [] := by
  rw [List.filter_eq_nil_iff]
  intro name member isKnown
  obtain ⟨parameter, among, named⟩ := List.mem_filterMap.mp member
  obtain ⟨original, found, rfl⟩ := List.mem_map.mp among
  rw [renames.unknown original found name named] at isKnown
  cases isKnown

theorem renamed_ofFunction (function : Function) :
    Bindings.renamed ((Scoping.bindings known).ofFunction function) = [[]] := by
  have noneLeft : ∀ names : List String, (names.map fun name => (⟨name, .object⟩ : Binding)).filter
        (fun binding => binding.kind != .object) = [] := by
    intro names
    rw [List.filter_map]
    simp [Function.comp_def]
  simp only [Scoping.bindings, Bindings.renamed, List.map_cons, List.map_nil, noneLeft]

end Renaming

theorem Function.renameLocals_renamedFrom {known : String → Bool} (function : Function)
    (registry : Registry) (braced : function.body.Braced) (isBlock : function.body.isBlock)
    (old : ∀ name, known name → name ∈ registry.used) :
    Function.RenamedFrom known function (function.renameLocals registry).2.1
      (function.renameLocals registry).2.2 := by
  rw [renameLocals_eq]
  have renames := Renaming.whole_ensures function registry braced old
  unfold Ensures at renames
  generalize (Renaming.whole function).run ⟨{}, registry⟩ = result at renames ⊢
  obtain ⟨⟨parameters, body⟩, after⟩ := result
  obtain ⟨objects, copies, fresh⟩ := renames.copies
  obtain ⟨before, bodyRenames⟩ := renames.body
  have noneKnown := renames.filter_known
  have bodyCalls := bodyRenames.calls false
  rw [Renaming.renamed_ofFunction] at bodyCalls
  have stays := bodyRenames.sameForm.isBlock.trans isBlock
  have bodyBraced := bodyRenames.braced
  dsimp only at copies noneKnown bodyCalls stays bodyBraced ⊢
  cases body with
  | block span statements =>
    cases bodyBraced with
    | block _ _ each =>
      refine ⟨rfl, rfl, bodyRenames.fits.old, noneKnown, .block span _ fun statement member => ?_,
        rfl, ?_, ?_⟩
      · rcases List.mem_append.mp member with member | member
        · rw [copies] at member
          obtain ⟨copied, -, rfl⟩ := List.mem_map.mp member
          exact .declaration _ _
        · exact each statement member
      · intro callFree
        refine Eq.trans ?_ bodyCalls
        rw [calls]
        simp only [Scoping.bindings, Renaming.assemble, noneKnown, copies]
        exact Statement.listCalls_objects objects (fun declared member => (fresh declared member).unknown)
          (fun declared member => (fresh declared member).typed callFree)
          (fun declared member => (fresh declared member).initialized) _ statements
      · rw [← show _ = Bindings.renamedCalls (function.calls known) from bodyCalls, calls]
        simp only [Scoping.bindings, Renaming.assemble, noneKnown, copies]
        obtain ⟨inside, outside, same⟩ := Statement.exists_listCalls_objects objects
          (fun declared member => (fresh declared member).unknown)
          ((Scoping.bindings known).enter [[]]) statements
        have none : inside.filter (·.inBlock) = [] :=
          List.filter_eq_nil_iff.mpr fun occurrence member => by simp [outside occurrence member]
        refine (congrArg (List.filter (·.inBlock)) same).trans ?_
        rw [List.filter_append, none]
        rfl
  | _ => cases stays

end InlineMacro
