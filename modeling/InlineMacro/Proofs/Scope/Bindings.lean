import InlineMacro.Proofs.Scope.Occurrence
import InlineMacro.Proofs.Syntax.Induction

/-!
# What a name is bound to

The scopes of occurrences as the names of the local objects in them. A statement changes the
innermost block at most, so closing a block brings back the scope around it.

A second reading of scopes keeps every declaration of a known name with what it makes of the name:
an object, a type, or something outside of the function. The first reading, by the names of local
objects, follows from it.
-/

set_option autoImplicit false

namespace InlineMacro

/-! ## Scopes as names of local objects -/

def Scoping.locals : Scoping LocalNames where
  outside := {}
  ofFunction := .ofFunction
  enter := .enter
  declare := .declare

/-! ## Opening and closing blocks -/

namespace LocalNames

theorem tail_declare (locals : LocalNames) (declaration : Declaration) :
    (locals.declare declaration).frames.tail = locals.frames.tail := by
  unfold declare
  split
  · cases frames : locals.frames with
    | nil => simp [add, frames]
    | cons frame outer => simp [add, frames]
  · rfl

theorem tail_foldl_declare (locals : LocalNames) (declarations : List Declaration) :
    (declarations.foldl declare locals).frames.tail = locals.frames.tail := by
  induction declarations generalizing locals with
  | nil => rfl
  | cons first rest ih =>
    rw [List.foldl_cons, ih, tail_declare]

theorem declare_outside (declaration : Declaration) : LocalNames.declare {} declaration = {} := by
  unfold declare
  split <;> rfl

theorem leave_of_tail {opened locals : LocalNames}
    (same : opened.frames.tail = locals.enter.frames.tail) : opened.leave = locals := by
  unfold leave
  rw [same]
  rfl

end LocalNames

theorem Statement.tail_scopeAfter (statement : Statement) (locals : LocalNames) :
    (statement.scopeAfter Scoping.locals locals).frames.tail = locals.frames.tail := by
  induction statement generalizing locals with
  | declaration span declarations => exact locals.tail_foldl_declare declarations
  | ifThen span condition thenBranch ih => exact ih locals
  | ifElse span condition thenBranch elseBranch thenTail elseTail =>
    exact (elseTail _).trans (thenTail locals)
  | whileLoop span condition body ih => exact ih locals
  | bareLoop span condition update body ih => exact ih locals
  | doWhile span body condition ih => exact ih locals
  | switch span subject body ih => exact ih locals
  | caseLabel span value statement ih => exact ih locals
  | defaultLabel span statement ih => exact ih locals
  | labelled span label statement ih => exact ih locals
  | _ => rfl

def Statement.listScopeAfter {σ : Type} (scoping : Scoping σ) (scope : σ)
    (statements : List Statement) : σ :=
  statements.foldl (Statement.scopeAfter scoping) scope

theorem Statement.listOccurrences_append {σ : Type} (scoping : Scoping σ) (scope : σ)
    (first second : List Statement) : Statement.listOccurrences scoping scope (first ++ second) =
      Statement.listOccurrences scoping scope first ++
        Statement.listOccurrences scoping (Statement.listScopeAfter scoping scope first) second := by
  induction first generalizing scope with
  | nil => rfl
  | cons statement statements ih =>
    rw [List.cons_append, Statement.listOccurrences, ih, Statement.listOccurrences, List.append_assoc]
    rfl

theorem Statement.tail_listScopeAfter (statements : List Statement) (locals : LocalNames) :
    (Statement.listScopeAfter Scoping.locals locals statements).frames.tail = locals.frames.tail := by
  induction statements generalizing locals with
  | nil => rfl
  | cons first rest ih => exact (ih _).trans (first.tail_scopeAfter locals)

/-! ## Scopes as bindings -/

/-- What a declaration makes of its name. -/
inductive BindingKind where
  | object
  | typeName
  | outside
deriving DecidableEq, Inhabited, Repr

/-- A name with what it stands for. -/
structure Binding where
  name : String
  kind : BindingKind
deriving DecidableEq, Inhabited, Repr

/-- What a declaration makes of its name. A prototype, even one with a storage class, is of
something outside. -/
def Declaration.bindingKind (declaration : Declaration) : BindingKind :=
  if declaration.type.isFunction || declaration.storage == some .external then .outside
  else if declaration.storage == some .typeAlias then .typeName
  else .object

abbrev Bindings := List (List Binding)

namespace Bindings

def add (bindings : Bindings) (binding : Binding) : Bindings :=
  match bindings with
  | [] => []
  | frame :: frames => (binding :: frame) :: frames

def hides (bindings : Bindings) (name : String) : Bool :=
  bindings.flatten.any fun binding => binding.name == name && binding.kind != .outside

def namesType (bindings : Bindings) (name : String) : Bool :=
  bindings.flatten.any fun binding => binding.name == name && binding.kind == .typeName

def namesObject (bindings : Bindings) (name : String) : Bool :=
  (bindings.flatten.find? fun binding => binding.name == name).any fun binding =>
    binding.kind == .object

def exposes (bindings : Bindings) (name : String) : Bool :=
  !bindings.namesObject name && !bindings.namesType name

def locals (bindings : Bindings) : LocalNames :=
  ⟨bindings.map fun frame =>
    (frame.filter fun binding => binding.kind != .outside).map Binding.name⟩

def restrict (known : String → Bool) (bindings : Bindings) : Bindings :=
  bindings.map fun frame => frame.filter fun binding => known binding.name

end Bindings

def Scoping.bindings (known : String → Bool) : Scoping Bindings where
  outside := []
  ofFunction function :=
    [((function.parameters.filterMap Parameter.name).filter known).map (⟨·, .object⟩)]
  enter bindings := [] :: bindings
  declare bindings declaration :=
    if known declaration.name then bindings.add ⟨declaration.name, declaration.bindingKind⟩
    else bindings

/-! ## Occurrences under a change of scopes -/

def Occurrence.mapScope {σ τ : Type} (change : σ → τ) (occurrence : Occurrence σ) : Occurrence τ :=
  { occurrence with scope := change occurrence.scope }

/-- A change of scopes that respects how scopes come about. -/
structure Scoping.Hom {σ τ : Type} (source : Scoping σ) (target : Scoping τ) (change : σ → τ) :
    Prop where
  outside : change source.outside = target.outside
  ofFunction : ∀ function, change (source.ofFunction function) = target.ofFunction function
  enter : ∀ scope, change (source.enter scope) = target.enter (change scope)
  declare : ∀ scope declaration,
    change (source.declare scope declaration) = target.declare (change scope) declaration

theorem Occurrence.mapScope_elsewhereAt {σ τ : Type} (change : σ → τ) (scope : σ) (uses : List Use) :
    (elsewhereAt scope uses).map (mapScope change) = elsewhereAt (change scope) uses := by
  simp [elsewhereAt, mapScope]

theorem Occurrence.mapScope_placedAt {σ τ : Type} (change : σ → τ) (scope : σ) (inBlock : Bool)
    (uses : List (Use × UsePlace)) : (placedAt scope inBlock uses).map (mapScope change) =
      placedAt (change scope) inBlock uses := by
  simp [placedAt, mapScope]

namespace Scoping.Hom

variable {σ τ : Type} {source : Scoping σ} {target : Scoping τ} {change : σ → τ}

theorem foldl_declare (hom : source.Hom target change) (declarations : List Declaration) (scope : σ) :
    change (declarations.foldl source.declare scope) = declarations.foldl target.declare (change scope) := by
  induction declarations generalizing scope with
  | nil => rfl
  | cons first rest ih => rw [List.foldl_cons, ih, hom.declare, List.foldl_cons]

theorem scopeAfter (hom : source.Hom target change) (statement : Statement) (scope : σ) :
    change (statement.scopeAfter source scope) = statement.scopeAfter target (change scope) := by
  induction statement generalizing scope with
  | declaration span declarations => exact hom.foldl_declare declarations scope
  | ifThen span condition thenBranch ih => exact ih scope
  | ifElse span condition thenBranch elseBranch thenIh elseIh =>
    simp only [Statement.scopeAfter, elseIh, thenIh]
  | whileLoop span condition body ih => exact ih scope
  | bareLoop span condition update body ih => exact ih scope
  | doWhile span body condition ih => exact ih scope
  | switch span subject body ih => exact ih scope
  | caseLabel span value statement ih => exact ih scope
  | defaultLabel span statement ih => exact ih scope
  | labelled span label statement ih => exact ih scope
  | _ => rfl

theorem declarationOccurrences (hom : source.Hom target change) (declaration : Declaration) (scope : σ) :
    declaration.occurrences target (change scope) =
      (declaration.occurrences source scope).map (Occurrence.mapScope change) := by
  simp only [Declaration.occurrences, List.map_append, Occurrence.mapScope_elsewhereAt, hom.declare]

theorem listDeclarationOccurrences (hom : source.Hom target change)
    (declarations : List Declaration) (scope : σ) :
    Declaration.listOccurrences target (change scope) declarations =
      (Declaration.listOccurrences source scope declarations).map (Occurrence.mapScope change) := by
  induction declarations generalizing scope with
  | nil => rfl
  | cons first rest ih =>
    simp only [Declaration.listOccurrences, List.map_append, hom.declarationOccurrences, ← hom.declare, ih]

private theorem listOccurrences_of_each (hom : source.Hom target change) {statements : List Statement}
    (each : ∀ statement ∈ statements, ∀ (inBlock : Bool) (scope : σ),
      statement.occurrences target inBlock (change scope) =
        (statement.occurrences source inBlock scope).map (Occurrence.mapScope change)) (scope : σ) :
    Statement.listOccurrences target (change scope) statements =
      (Statement.listOccurrences source scope statements).map (Occurrence.mapScope change) := by
  induction statements generalizing scope with
  | nil => rfl
  | cons first rest ih =>
    simp only [Statement.listOccurrences, List.map_append, ← hom.scopeAfter,
      each first (by simp) true scope, ih (fun statement member => each statement (by simp [member]))]

theorem occurrences (hom : source.Hom target change) (statement : Statement) (inBlock : Bool) (scope : σ) :
    statement.occurrences target inBlock (change scope) =
      (statement.occurrences source inBlock scope).map (Occurrence.mapScope change) := by
  induction statement generalizing inBlock scope with
  | expression span value =>
    simp only [Statement.occurrences, Occurrence.mapScope_placedAt]
  | block span statements each =>
    simp only [Statement.occurrences, ← hom.enter, listOccurrences_of_each hom each]
  | declaration span declarations => exact hom.listDeclarationOccurrences declarations scope
  | typeDefinition span type => simp only [Statement.occurrences, Occurrence.mapScope_elsewhereAt]
  | forLoop span init condition update body initIh bodyIh =>
    simp only [Statement.occurrences, List.map_append, Occurrence.mapScope_elsewhereAt,
      ← hom.enter, ← hom.scopeAfter, initIh, bodyIh]
  | ifElse span condition thenBranch elseBranch thenIh elseIh =>
    simp only [Statement.occurrences, List.map_append, Occurrence.mapScope_elsewhereAt,
      ← hom.scopeAfter, thenIh, elseIh]
  | doWhile span body condition ih =>
    simp only [Statement.occurrences, List.map_append, Occurrence.mapScope_elsewhereAt, ← hom.scopeAfter, ih]
  | returnStatement span value => simp only [Statement.occurrences, Occurrence.mapScope_placedAt]
  | ifThen _ _ _ ih | whileLoop _ _ _ ih | bareLoop _ _ _ _ ih | switch _ _ _ ih
  | caseLabel _ _ _ ih | defaultLabel _ _ ih | labelled _ _ _ ih =>
    simp only [Statement.occurrences, List.map_append, Occurrence.mapScope_elsewhereAt, ih]
  | _ => rfl

theorem functionOccurrences (hom : source.Hom target change) (function : Function) :
    function.occurrences target = (function.occurrences source).map (Occurrence.mapScope change) := by
  simp only [Function.occurrences, List.map_append, Occurrence.mapScope_elsewhereAt,
    ← hom.ofFunction, hom.occurrences]

end Scoping.Hom

/-! ## The readings of one scope -/

namespace Bindings

theorem isLocal_iff (declaration : Declaration) :
    LocalNames.isLocal declaration = (declaration.bindingKind != .outside) := by
  unfold LocalNames.isLocal Declaration.bindingKind
  split
  · next outside => simp [outside]
  · next inside =>
    rw [Bool.eq_false_iff.mpr inside]
    split <;> rfl

theorem contains_locals (bindings : Bindings) (name : String) :
    bindings.locals.contains name = bindings.hides name := by
  have frameHides : ∀ frame : List Binding,
      ((frame.filter fun binding => binding.kind != .outside).map Binding.name).contains name =
        frame.any fun binding => binding.name == name && binding.kind != .outside := by
    intro frame
    rw [Bool.eq_iff_iff]
    simp [and_comm, and_assoc]
  simp only [locals, hides, LocalNames.contains, List.any_map, List.any_flatten,
    Function.comp_def, frameHides]

theorem locals_add (bindings : Bindings) (binding : Binding) : (bindings.add binding).locals =
      if binding.kind != .outside then bindings.locals.add binding.name else bindings.locals := by
  cases bindings with
  | nil => simp [add, locals, LocalNames.add]
  | cons frame frames =>
    cases kind : binding.kind != .outside <;>
      simp [add, locals, LocalNames.add, kind]

theorem restrict_add (known : String → Bool) (bindings : Bindings) (binding : Binding) :
    (bindings.add binding).restrict known = if known binding.name then (bindings.restrict known).add binding
      else bindings.restrict known := by
  cases bindings with
  | nil => simp [add, restrict]
  | cons frame frames =>
    cases isKnown : known binding.name <;>
      simp [add, restrict, isKnown]

theorem hides_restrict {known : String → Bool} (bindings : Bindings) {name : String}
    (isKnown : known name) : (bindings.restrict known).hides name = bindings.hides name := by
  simp only [hides, restrict, List.any_flatten, List.any_map, Function.comp_def, List.any_filter]
  congr 1
  funext frame
  congr 1
  funext binding
  cases same : binding.name == name with
  | false => simp
  | true => simp [beq_iff_eq.mp same, isKnown]

theorem locals_hom : (Scoping.bindings fun _ => true).Hom .locals locals where
  outside := rfl
  ofFunction function := by
    simp [Scoping.bindings, Scoping.locals, locals, LocalNames.ofFunction, List.filter_map,
      Function.comp_def]
  enter scope := rfl
  declare scope declaration := by
    simp only [Scoping.bindings, Scoping.locals, if_true, LocalNames.declare, isLocal_iff,
      locals_add]

theorem restrict_hom (known : String → Bool) :
    (Scoping.bindings fun _ => true).Hom (.bindings known) (restrict known) where
  outside := rfl
  ofFunction function := by
    simp [Scoping.bindings, restrict, List.filter_map, Function.comp_def]
  enter scope := rfl
  declare scope declaration := by
    simp only [Scoping.bindings, if_true, restrict_add]

end Bindings

theorem Function.occurrence_of_bindings {known : String → Bool} {function : Function}
    {occurrence : Occurrence Bindings} (member : occurrence ∈ function.occurrences (.bindings known))
    (isKnown : known occurrence.use.name) : ∃ seen ∈ function.occurrences .locals, seen.use = occurrence.use ∧
      seen.place = occurrence.place ∧ seen.inBlock = occurrence.inBlock ∧
      seen.scope.contains seen.use.name = occurrence.scope.hides occurrence.use.name := by
  rw [(Bindings.restrict_hom known).functionOccurrences, List.mem_map] at member
  obtain ⟨full, member, rfl⟩ := member
  refine ⟨full.mapScope Bindings.locals, ?_, rfl, rfl, rfl, ?_⟩
  · rw [Bindings.locals_hom.functionOccurrences]
    exact List.mem_map_of_mem member
  · exact (full.scope.contains_locals _).trans (full.scope.hides_restrict isKnown).symm

end InlineMacro
