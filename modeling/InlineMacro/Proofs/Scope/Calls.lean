import InlineMacro.Proofs.Scope.Bindings
import InlineMacro.Proofs.Scope.PlacedUse
import InlineMacro.Proofs.Syntax.Braced

/-!
# Calls of known functions

The occurrences that call one of some known functions, by a name that the scope may bind to
something else. The passes move such calls about in statements, and leave all others alone.
-/

set_option autoImplicit false

namespace InlineMacro

def Use.isCallOf (known : String → Bool) : Use → Bool
  | called name => known name
  | mentioned _ => false

def Occurrence.callsAmong {σ : Type} (known : String → Bool) (occurrences : List (Occurrence σ)) :
    List (Occurrence σ) :=
  occurrences.filter fun occurrence => occurrence.use.isCallOf known

section Calls

variable (known : String → Bool)

def Statement.calls (inBlock : Bool) (scope : Bindings) (statement : Statement) :
    List (Occurrence Bindings) :=
  Occurrence.callsAmong known (statement.occurrences (.bindings known) inBlock scope)

def Statement.listCalls (scope : Bindings) (statements : List Statement) :
    List (Occurrence Bindings) :=
  Occurrence.callsAmong known (Statement.listOccurrences (.bindings known) scope statements)

def Function.calls (function : Function) : List (Occurrence Bindings) :=
  function.body.calls known false ((Scoping.bindings known).ofFunction function)

end Calls

variable {known : String → Bool}

namespace Occurrence

variable {σ : Type}

@[simp] theorem callsAmong_nil : callsAmong known ([] : List (Occurrence σ)) = [] := rfl

@[simp] theorem callsAmong_append (first second : List (Occurrence σ)) :
    callsAmong known (first ++ second) = callsAmong known first ++ callsAmong known second :=
  List.filter_append ..

theorem mem_callsAmong {occurrence : Occurrence σ} {occurrences : List (Occurrence σ)} :
    occurrence ∈ callsAmong known occurrences ↔
      occurrence ∈ occurrences ∧ ∃ name, occurrence.use = .called name ∧ known name := by
  unfold callsAmong
  rw [List.mem_filter]
  refine and_congr_right fun _ => ?_
  cases occurrence.use with
  | called name => simp [Use.isCallOf]
  | mentioned name => simp [Use.isCallOf]

end Occurrence

/-- No statement is a call in the place of a statement of a block unless it is an expression or a
return. -/
def Statement.isPlain : Statement → Bool
  | .expression .. | .returnStatement .. => true
  | _ => false

variable {statement : Statement}

theorem Statement.occurrences_of_not_plain {σ : Type} (scoping : Scoping σ)
    (notPlain : statement.isPlain = false) (inBlock : Bool) (scope : σ) :
    statement.occurrences scoping inBlock scope = statement.occurrences scoping false scope := by
  cases statement with
  | expression | returnStatement => cases notPlain
  | ifElse span condition thenBranch elseBranch => cases elseBranch <;> rfl
  | forLoop span init condition update body => cases init <;> rfl
  | _ => rfl

def Statement.isCompound : Statement → Bool
  | .expression .. | .declaration .. | .typeDefinition .. | .returnStatement .. => false
  | _ => true

theorem Statement.declared_of_compound (compound : statement.isCompound) : statement.declared = [] := by
  cases statement with
  | declaration => cases compound
  | _ => rfl

theorem Statement.not_plain_of_compound (compound : statement.isCompound) : statement.isPlain = false := by
  cases statement with
  | expression | returnStatement => cases compound
  | _ => rfl

theorem Statement.declared_of_plain (plain : statement.isPlain) : statement.declared = [] := by
  cases statement with
  | declaration => cases plain
  | _ => rfl

theorem Statement.scopeAfter_of_plain {σ : Type} (scoping : Scoping σ) (scope : σ)
    (plain : statement.isPlain) : statement.scopeAfter scoping scope = scope := by
  cases statement with
  | expression | returnStatement => rfl
  | _ => cases plain

theorem Statement.braced_of_plain (plain : statement.isPlain) : statement.Braced := by
  cases statement with
  | expression span value => exact .expression span value
  | returnStatement span value => exact .returnStatement span value
  | _ => cases plain

theorem Statement.listCalls_cons (scope : Bindings) (statement : Statement) (statements : List Statement) :
    Statement.listCalls known scope (statement :: statements) = statement.calls known true scope ++
        Statement.listCalls known (statement.scopeAfter (.bindings known) scope) statements :=
  Occurrence.callsAmong_append _ _

@[simp] theorem Statement.listCalls_nil (scope : Bindings) : Statement.listCalls known scope [] = [] := rfl

theorem Statement.listCalls_append (scope : Bindings) (first second : List Statement) :
    Statement.listCalls known scope (first ++ second) = Statement.listCalls known scope first ++
        Statement.listCalls known (first.foldl (Statement.scopeAfter (.bindings known)) scope) second := by
  induction first generalizing scope with
  | nil => rfl
  | cons statement statements ih =>
    rw [List.cons_append, listCalls_cons, ih, listCalls_cons, List.append_assoc, List.foldl_cons]

theorem Function.exists_mem_calls {wider : String → Bool} (covers : ∀ name, known name → wider name)
    {function : Function} {occurrence : Occurrence Bindings} (member : occurrence ∈ function.calls known) :
    ∃ found ∈ function.calls wider, found.use = occurrence.use ∧ found.place = occurrence.place ∧
      found.inBlock = occurrence.inBlock ∧
      found.scope.hides occurrence.use.name = occurrence.scope.hides occurrence.use.name := by
  obtain ⟨inside, name, use, isKnown⟩ := Occurrence.mem_callsAmong.mp member
  rw [← (Bindings.restrict_hom known).ofFunction, (Bindings.restrict_hom known).occurrences,
    List.mem_map] at inside
  obtain ⟨full, found, rfl⟩ := inside
  have called : full.use = .called name := use
  refine ⟨full.mapScope (Bindings.restrict wider), Occurrence.mem_callsAmong.mpr
    ⟨?_, name, use, covers name isKnown⟩, rfl, rfl, rfl, ?_⟩
  · rw [← (Bindings.restrict_hom wider).ofFunction, (Bindings.restrict_hom wider).occurrences]
    exact List.mem_map_of_mem found
  · change (full.scope.restrict wider).hides full.use.name =
      (full.scope.restrict known).hides full.use.name
    have sameName : full.use.name = name := congrArg Use.name called
    rw [sameName, full.scope.hides_restrict isKnown, full.scope.hides_restrict (covers name isKnown)]

/-! ## Names in scope -/

/-- The names that a pass knows are those of a scope of which the bindings of known names are
looked at. -/
def LocalNames.Agrees (known : String → Bool) (locals : LocalNames) (scope : Bindings) : Prop :=
  ∃ full : Bindings, full.locals = locals ∧ full.restrict known = scope

namespace LocalNames.Agrees

variable {locals : LocalNames} {scope : Bindings}

theorem contains_eq (agrees : locals.Agrees known scope) {name : String} (isKnown : known name) :
    locals.contains name = scope.hides name := by
  obtain ⟨full, rfl, rfl⟩ := agrees
  rw [full.contains_locals, full.hides_restrict isKnown]

theorem ofFunction (function : Function) : (LocalNames.ofFunction function).Agrees known
      ((Scoping.bindings known).ofFunction function) :=
  ⟨_, Bindings.locals_hom.ofFunction function, (Bindings.restrict_hom known).ofFunction function⟩

theorem enter (agrees : locals.Agrees known scope) :
    locals.enter.Agrees known ((Scoping.bindings known).enter scope) := by
  obtain ⟨full, rfl, rfl⟩ := agrees
  exact ⟨_, Bindings.locals_hom.enter full, (Bindings.restrict_hom known).enter full⟩

theorem declareAll (agrees : locals.Agrees known scope) (declarations : List Declaration) :
    (declarations.foldl LocalNames.declare locals).Agrees known
      (declarations.foldl (Scoping.bindings known).declare scope) := by
  obtain ⟨full, rfl, rfl⟩ := agrees
  exact ⟨_, Bindings.locals_hom.foldl_declare declarations full,
    (Bindings.restrict_hom known).foldl_declare declarations full⟩

end LocalNames.Agrees

/-!
## Visible names

What a declaration hides, in the bindings of a scope and in the names of local objects. The names
that a pass knows may be more than those in scope, but they must be none too few.
-/

namespace Bindings

variable {known : String → Bool} {scope : Bindings}

theorem add_ne_nil (opened : scope ≠ []) (binding : Binding) : scope.add binding ≠ [] := by
  cases scope with
  | nil => exact absurd rfl opened
  | cons frame frames => exact List.cons_ne_nil _ _

theorem hides_add (opened : scope ≠ []) (binding : Binding) (name : String) : (scope.add binding).hides name =
      ((binding.name == name && binding.kind != .outside) || scope.hides name) := by
  cases scope with
  | nil => exact absurd rfl opened
  | cons frame frames => simp [add, hides]

theorem namesObject_add {scope : Bindings} (opened : scope ≠ []) (binding : Binding) (name : String) :
    (scope.add binding).namesObject name =
      if name = binding.name then binding.kind == .object else scope.namesObject name := by
  cases scope with
  | nil => exact absurd rfl opened
  | cons frame frames =>
    by_cases same : name = binding.name
    · simp [namesObject, add, same]
    · have other : (binding.name == name) = false := by simpa using Ne.symm same
      simp [namesObject, add, same, other]

theorem namesType_add {scope : Bindings} (opened : scope ≠ []) (binding : Binding) (name : String) :
    (scope.add binding).namesType name =
      ((binding.name == name && binding.kind == .typeName) || scope.namesType name) := by
  cases scope with
  | nil => exact absurd rfl opened
  | cons frame frames => simp [add, namesType]

theorem hides_declare (opened : scope ≠ []) (declaration : Declaration) {name : String}
    (isKnown : known name) : Bindings.hides ((Scoping.bindings known).declare scope declaration) name =
      ((name == declaration.name && declaration.bindingKind != .outside) || scope.hides name) := by
  unfold Scoping.bindings
  by_cases same : name = declaration.name
  · subst same
    simp [isKnown, hides_add opened]
  · have other : (declaration.name == name) = false := by simpa using Ne.symm same
    dsimp only
    split <;> simp [hides_add opened, same, other]

theorem declare_ne_nil (opened : scope ≠ []) (declaration : Declaration) :
    (Scoping.bindings known).declare scope declaration ≠ [] := by
  unfold Scoping.bindings
  dsimp only
  split
  · exact add_ne_nil opened _
  · exact opened

end Bindings

namespace LocalNames

/-- Every known name that a scope hides is that of a local object. -/
structure Covers (known : String → Bool) (locals : LocalNames) (scope : Bindings) : Prop where
  openedLocals : locals.frames ≠ []
  openedScope : scope ≠ []
  covers : ∀ name, known name → scope.hides name → locals.contains name

/-- The known names that a scope hides are those of local objects. -/
structure Matches (known : String → Bool) (locals : LocalNames) (scope : Bindings) : Prop
    extends Covers known locals scope where
  hidden : ∀ name, known name → locals.contains name → scope.hides name

variable {known : String → Bool} {locals : LocalNames} {scope : Bindings}

theorem contains_add (opened : locals.frames ≠ []) (added name : String) :
    (locals.add added).contains name = (name == added || locals.contains name) := by
  obtain ⟨frames⟩ := locals
  cases frames with
  | nil => exact absurd rfl opened
  | cons frame frames =>
    change ((added :: frame).contains name || frames.any (·.contains name)) = _
    rw [List.contains_cons, Bool.or_assoc]
    rfl

theorem contains_declare (opened : locals.frames ≠ []) (declaration : Declaration) (name : String) :
    (locals.declare declaration).contains name =
      ((name == declaration.name && declaration.bindingKind != .outside) || locals.contains name) := by
  unfold declare
  rw [Bindings.isLocal_iff]
  split
  · next isLocal => rw [contains_add opened, isLocal, Bool.and_true]
  · next notLocal => simp [Bool.eq_false_iff.mpr notLocal]

theorem frames_declare_ne_nil (opened : locals.frames ≠ []) (declaration : Declaration) :
    (locals.declare declaration).frames ≠ [] := by
  obtain ⟨frames⟩ := locals
  cases frames with
  | nil => exact absurd rfl opened
  | cons frame frames =>
    unfold declare
    split
    · exact List.cons_ne_nil _ _
    · exact opened

end LocalNames

namespace LocalNames

variable {known : String → Bool} {locals : LocalNames} {scope : Bindings}

namespace Covers

theorem declare (covers : locals.Covers known scope) (declaration : Declaration) :
    (locals.declare declaration).Covers known
      ((Scoping.bindings known).declare scope declaration) where
  openedLocals := frames_declare_ne_nil covers.openedLocals declaration
  openedScope := Bindings.declare_ne_nil covers.openedScope declaration
  covers name isKnown hides := by
    rw [Bindings.hides_declare covers.openedScope declaration isKnown, Bool.or_eq_true] at hides
    rw [contains_declare covers.openedLocals, Bool.or_eq_true]
    exact hides.imp_right (covers.covers name isKnown)

theorem widen (covers : locals.Covers known scope) (declaration : Declaration) :
    (locals.declare declaration).Covers known scope where
  openedLocals := frames_declare_ne_nil covers.openedLocals declaration
  openedScope := covers.openedScope
  covers name isKnown hides := by
    rw [contains_declare covers.openedLocals, covers.covers name isKnown hides, Bool.or_true]

end Covers

namespace Matches

theorem ofFunction (function : Function) : (LocalNames.ofFunction function).Matches known
      ((Scoping.bindings known).ofFunction function) := by
  have agrees : ∀ name, known name → (LocalNames.ofFunction function).contains name =
      Bindings.hides ((Scoping.bindings known).ofFunction function) name :=
    fun name isKnown => (Agrees.ofFunction function).contains_eq isKnown
  exact ⟨⟨List.cons_ne_nil _ _, List.cons_ne_nil _ _, fun name isKnown hides =>
    (agrees name isKnown).trans hides⟩, fun name isKnown contains =>
    (agrees name isKnown).symm.trans contains⟩

theorem enter (exact : locals.Matches known scope) :
    locals.enter.Matches known ((Scoping.bindings known).enter scope) :=
  ⟨⟨List.cons_ne_nil _ _, List.cons_ne_nil _ _, exact.covers⟩, exact.hidden⟩

theorem contains_eq (exact : locals.Matches known scope) {name : String} (isKnown : known name) :
    locals.contains name = scope.hides name :=
  Bool.eq_iff_iff.mpr ⟨exact.hidden name isKnown, exact.covers name isKnown⟩

theorem declare (exact : locals.Matches known scope) (declaration : Declaration) :
    (locals.declare declaration).Matches known
      ((Scoping.bindings known).declare scope declaration) where
  toCovers := exact.toCovers.declare declaration
  hidden name isKnown contains := by
    rw [contains_declare exact.openedLocals, Bool.or_eq_true] at contains
    rw [Bindings.hides_declare exact.openedScope declaration isKnown, Bool.or_eq_true]
    exact contains.imp_right (exact.hidden name isKnown)

theorem declareAll (exact : locals.Matches known scope) (declarations : List Declaration) :
    (declarations.foldl LocalNames.declare locals).Matches known
      (declarations.foldl (Scoping.bindings known).declare scope) := by
  induction declarations generalizing locals scope with
  | nil => exact exact
  | cons first rest ih => exact ih (exact.declare first)

theorem again (exact : locals.Matches known scope) {declarations : List Declaration}
    (hidden : ∀ declaration ∈ declarations, known declaration.name →
      declaration.bindingKind ≠ .outside → scope.hides declaration.name) :
    (declarations.foldl LocalNames.declare locals).Matches known scope := by
  induction declarations generalizing locals with
  | nil => exact exact
  | cons first rest ih =>
    refine ih ⟨exact.toCovers.widen first, fun name isKnown contains => ?_⟩
      fun declaration member => hidden declaration (by simp [member])
    rw [contains_declare exact.openedLocals, Bool.or_eq_true] at contains
    rcases contains with isFirst | earlier
    · simp only [Bool.and_eq_true, beq_iff_eq, bne_iff_ne, ne_eq] at isFirst
      obtain ⟨rfl, notOutside⟩ := isFirst
      exact hidden first (by simp) isKnown notOutside
    · exact exact.hidden name isKnown earlier

end Matches

theorem hides_foldl_declare (opened : scope ≠ []) (declarations : List Declaration) {name : String}
    (isKnown : known name) (hides : scope.hides name ∨ ∃ declaration ∈ declarations, declaration.name = name ∧
      declaration.bindingKind ≠ .outside) :
    Bindings.hides (declarations.foldl (Scoping.bindings known).declare scope) name := by
  induction declarations generalizing scope with
  | nil =>
    rcases hides with hides | ⟨declaration, member, -⟩
    · exact hides
    · cases member
  | cons first rest ih =>
    refine ih (Bindings.declare_ne_nil opened first) ?_
    rw [Bindings.hides_declare opened first isKnown, Bool.or_eq_true]
    rcases hides with hides | ⟨declaration, member, rfl, notOutside⟩
    · exact .inl (.inr hides)
    · rcases List.mem_cons.mp member with rfl | member
      · exact .inl (.inl (by simpa using notOutside))
      · exact .inr ⟨declaration, member, rfl, notOutside⟩

theorem Matches.twice (exact : locals.Matches known scope) (declarations : List Declaration) :
    (declarations.foldl LocalNames.declare (declarations.foldl LocalNames.declare locals)).Matches
      known (declarations.foldl (Scoping.bindings known).declare scope) :=
  (exact.declareAll declarations).again fun declaration member isKnown notOutside =>
    hides_foldl_declare exact.openedScope declarations isKnown (.inr ⟨declaration, member, rfl, notOutside⟩)

theorem Covers.ofLater {declarations : List Declaration} (opened : scope ≠ [])
    (covers : locals.Covers known (declarations.foldl (Scoping.bindings known).declare scope)) :
    locals.Covers known scope :=
  ⟨covers.openedLocals, opened, fun name isKnown hides =>
    covers.covers name isKnown (hides_foldl_declare opened declarations isKnown (.inl hides))⟩

end LocalNames

end InlineMacro
