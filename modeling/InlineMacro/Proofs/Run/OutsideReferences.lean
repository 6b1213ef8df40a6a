import InlineMacro.Proofs.Pass.Rewriting
import InlineMacro.Proofs.Pass.LeftoverCalls
import InlineMacro.Proofs.Run.Freshness
import InlineMacro.Proofs.Run.Placement
import InlineMacro.Proofs.Scope.GlobalReferences

/-!
# References to functions that are gone

Behind a run that removes the functions it makes macros of, nothing in what is left refers to one of
them. What refers to something outside by the scopes of C is found by the passes, and what they find
was a call in statement position before: it has become an invocation.
-/

set_option autoImplicit false

namespace InlineMacro

/-! ## Declarations -/

def Function.keepsTypesApart (function : Function) : Bool :=
  let declared := function.body.parts.flatMap Statement.declared
  declared.all fun type => type.bindingKind != .typeName ||
    declared.all fun other => other.bindingKind != .outside || other.name != type.name

def Function.resultAvoidsParameters (function : Function) : Bool :=
  function.result.uses.all fun use =>
    !(function.parameters.filterMap Parameter.name).contains use.name

/-- No name that a parameter, an object or a type hides is brought back: no block declares something
outside under the name of a parameter or an object around it, the function declares nothing outside
under the name of a type, and the type of what it returns uses no name of a parameter. -/
structure Function.BringsNothingBack (function : Function) : Prop where
  objects : function.braced.keepsApart
  types : function.braced.keepsTypesApart
  result : function.resultAvoidsParameters

variable {function : Function}

theorem Function.bringsNothingBack_iff :
    function.BringsNothingBack ↔ function.braced.keepsApart ∧ function.braced.keepsTypesApart ∧
      function.resultAvoidsParameters :=
  ⟨fun holds => ⟨holds.objects, holds.types, holds.result⟩,
    fun ⟨objects, types, result⟩ => ⟨objects, types, result⟩⟩

instance (function : Function) : Decidable function.BringsNothingBack :=
  decidable_of_iff' _ Function.bringsNothingBack_iff

namespace Statement

variable {property : Declaration → Prop}

theorem declaresOnly_of_simple {statement : Statement} (simple : statement.isSimple) :
    statement.DeclaresOnly property := by
  cases statement with
  | expression | returnStatement | gotoStatement => simp [DeclaresOnly, declared]
  | _ => cases simple

theorem declaresOnly_block {span : Span} {statements : List Statement} :
    (block span statements).DeclaresOnly property ↔
      ∀ statement ∈ statements, statement.DeclaresOnly property := by
  simp only [DeclaresOnly, parts_block, List.forall_mem_cons, listParts, List.mem_flatMap]
  constructor
  · exact fun holds statement member part inside => holds.2 part ⟨statement, member, inside⟩
  · refine fun holds => ⟨fun _ member => absurd member List.not_mem_nil, ?_⟩
    rintro part ⟨statement, member, inside⟩
    exact holds statement member part inside

theorem Rewritten.declaresOnly {new : Word → Prop} {inBlock : Bool} {entry : Statement}
    {results : List Statement} (rewritten : Rewritten new inBlock entry results)
    (declares : entry.DeclaresOnly property) : ∀ result ∈ results, result.DeclaresOnly property := by
  induction rewritten with
  | same statement => exact List.forall_mem_singleton.mpr declares
  | kept _ ih => exact ih declares
  | replaced plain drawn =>
    exact fun result member => declaresOnly_of_simple (drawn result member).simple
  | block span pieces each ih =>
    rw [declaresOnly_block] at declares
    refine List.forall_mem_singleton.mpr (declaresOnly_block.mpr fun result member => ?_)
    obtain ⟨piece, among, inside⟩ := List.mem_flatMap.mp member
    exact ih piece among (declares piece.1 (List.mem_map_of_mem among)) result inside
  | ifThen span condition inside ih | whileLoop span condition inside ih
  | bareLoop span condition update inside ih | doWhile span condition inside ih
  | switch span subject inside ih | caseLabel span value inside ih | defaultLabel span inside ih
  | labelled span label inside ih =>
    simp only [DeclaresOnly, List.forall_mem_singleton, parts_ifThen, parts_whileLoop,
      parts_bareLoop, parts_doWhile, parts_switch, parts_caseLabel, parts_defaultLabel,
      parts_labelled, List.forall_mem_cons] at declares ih ⊢
    exact ⟨declares.1, ih declares.2⟩
  | ifElse span condition inside other ih otherIh =>
    simp only [DeclaresOnly, List.forall_mem_singleton, parts_ifElse, List.forall_mem_cons,
      List.forall_mem_append] at declares ih otherIh ⊢
    exact ⟨declares.1, ih declares.2.1, otherIh declares.2.2⟩
  | forLoop span condition update head inside headIh ih =>
    simp only [DeclaresOnly, List.forall_mem_singleton, parts_forLoop, List.forall_mem_cons,
      List.forall_mem_append] at declares headIh ih ⊢
    exact ⟨declares.1, headIh declares.2.1, ih declares.2.2⟩

theorem Rewrites.declaresOnly {new : Word → Prop} {entry result : Statement}
    (rewrites : Rewrites new entry result) (declares : entry.DeclaresOnly property) :
    result.DeclaresOnly property := by
  induction rewrites with
  | refl => exact declares
  | tail _ last ih => exact last.declaresOnly ih _ (List.mem_singleton_self _)

theorem declaresOnly_splitDeclarations (same : ∀ declared other : Declaration, other.name = declared.name →
      other.bindingKind = declared.bindingKind → property declared → property other)
    {statement : Statement} (declares : statement.DeclaresOnly property) :
    statement.splitDeclarations.DeclaresOnly property := by
  induction statement with
  | block span entries each =>
    rw [declaresOnly_block] at declares
    rw [splitDeclarations, declaresOnly_block]
    intro statement member
    obtain ⟨entry, found, stems⟩ := stemsFrom_of_mem_splitBlock statement member
    cases stems with
    | declaration => exact declares _ found
    | inside => exact each entry found (declares entry found)
    | yields declared among statement yields =>
      have holds := declares entry found entry (self_mem_parts entry) declared among
      cases yields with
      | whole => simpa [DeclaresOnly, ofDeclaration, Statement.declared] using holds
      | bare =>
        simpa [DeclaresOnly, ofDeclaration, Statement.declared] using
          same declared { declared with initializer := none } rfl rfl holds
      | firstValue => exact declaresOnly_of_simple rfl
  | ifThen _ _ _ ih | whileLoop _ _ _ ih | bareLoop _ _ _ _ ih | doWhile _ _ _ ih
  | switch _ _ _ ih | caseLabel _ _ _ ih | defaultLabel _ _ ih | labelled _ _ _ ih =>
    simp only [DeclaresOnly, splitDeclarations, parts_ifThen, parts_whileLoop, parts_bareLoop,
      parts_doWhile, parts_switch, parts_caseLabel, parts_defaultLabel, parts_labelled,
      List.forall_mem_cons] at declares ih ⊢
    exact ⟨declares.1, ih declares.2⟩
  | ifElse span condition thenBranch elseBranch thenIh elseIh =>
    simp only [DeclaresOnly, splitDeclarations, parts_ifElse, List.forall_mem_cons,
      List.forall_mem_append] at declares thenIh elseIh ⊢
    exact ⟨declares.1, thenIh declares.2.1, elseIh declares.2.2⟩
  | forLoop span init condition update body initIh bodyIh =>
    simp only [DeclaresOnly, splitDeclarations, parts_forLoop, List.forall_mem_cons,
      List.forall_mem_append] at declares initIh bodyIh ⊢
    exact ⟨declares.1, initIh declares.2.1, bodyIh declares.2.2⟩
  | _ => exact declares

end Statement

def Function.typeNames (function : Function) : List String :=
  ((function.body.parts.flatMap Statement.declared).filter fun declared =>
    declared.bindingKind == .typeName).map Declaration.name

theorem Function.declaresOnly_of_keepsTypesApart {known : String → Bool} (apart : function.keepsTypesApart) :
    function.body.DeclaresOnly (·.TypesAmong known function.typeNames) := by
  intro part inside declared among isKnown
  have member : declared ∈ function.body.parts.flatMap Statement.declared :=
    List.mem_flatMap.mpr ⟨part, inside, among⟩
  refine ⟨fun isType => ?_, fun isOutside typed => ?_⟩
  · exact List.mem_map_of_mem (List.mem_filter.mpr ⟨member, beq_iff_eq.mpr isType⟩)
  · obtain ⟨type, found, sameName⟩ := List.mem_map.mp typed
    obtain ⟨typeMember, isType⟩ := List.mem_filter.mp found
    simp only [keepsTypesApart, List.all_eq_true, Bool.or_eq_true, bne_iff_ne] at apart
    have apart := (apart type typeMember).resolve_left fun notType => notType (beq_iff_eq.mp isType)
    exact (apart declared member).elim (absurd isOutside) fun other => other sameName.symm

theorem Function.declaresOnly_normalize {known : String → Bool} (apart : function.braced.keepsTypesApart) :
    function.normalize.body.DeclaresOnly (·.TypesAmong known function.braced.typeNames) := by
  refine Statement.declaresOnly_splitDeclarations ?_ (declaresOnly_of_keepsTypesApart apart)
  intro declared other sameName sameKind among isKnown
  rw [sameName, sameKind]
  exact among (sameName ▸ isKnown)

/-! ## Flattening -/

section Flattening

variable {known : String → Bool}

theorem Statement.mem_listOccurrences_objects {objects : List Declaration}
    (unknown : ∀ declared ∈ objects, known declared.name = false) {scope : Bindings}
    {statements : List Statement} {occurrence : Occurrence Bindings}
    (member : occurrence ∈ Statement.listOccurrences (.bindings known) scope
      (objects.map Statement.ofDeclaration ++ statements)) : (∃ declared ∈ objects, occurrence.use ∈
      declared.type.uses ++ optionalUses Initializer.uses declared.initializer) ∨
      occurrence ∈ Statement.listOccurrences (.bindings known) scope statements := by
  induction objects with
  | nil => exact .inr member
  | cons first rest ih =>
    rw [List.forall_mem_cons] at unknown
    have sameScope : (Statement.ofDeclaration first).scopeAfter (.bindings known) scope = scope := by
      simp [Statement.ofDeclaration, Statement.scopeAfter, Scoping.bindings, unknown.1]
    rw [List.map_cons, List.cons_append, Statement.listOccurrences, sameScope, List.mem_append] at member
    rcases member with member | member
    · simp only [Statement.ofDeclaration, Statement.occurrences, Declaration.listOccurrences,
        Declaration.occurrences, List.append_nil, List.mem_append, Occurrence.elsewhereAt,
        List.mem_map] at member
      refine .inl ⟨first, List.mem_cons_self, List.mem_append.mpr ?_⟩
      rcases member with ⟨use, found, rfl⟩ | ⟨use, found, rfl⟩
      · exact .inl found
      · exact .inr found
    · refine (ih unknown.2 member).imp_left ?_
      rintro ⟨declared, among, used⟩
      exact ⟨declared, List.mem_cons_of_mem _ among, used⟩

theorem Function.Flattening.exists_use {targets : Association CType} {function result : Function}
    {registry after : Registry} {temporaries : List Declaration} {body : Statement}
    (flattening : function.Flattening targets registry result after temporaries body)
    (isBlock : body.isBlock) (old : ∀ name, known name → name ∈ registry.used)
    {scope : Bindings} {occurrence : Occurrence Bindings}
    (member : occurrence ∈ result.body.occurrences (.bindings known) false scope)
    (isKnown : known occurrence.use.name) :
    (∃ callee type, targets.find? callee = some type ∧ occurrence.use ∈ type.uses) ∨
      ∃ source ∈ function.body.occurrences (.bindings known) false scope,
        source.use = occurrence.use ∧ source.scope = occurrence.scope ∧
          (source.inBlock → occurrence.inBlock) := by
  have rewrites := flattening.rewrites (Word.Spells (known · = false))
    fun callee before _ older _ => Bool.eq_false_iff.mpr fun isKnown =>
      (Registry.fresh_issues _ before).fresh _ List.mem_cons_self (older (old _ isKnown))
  have keeps : function.body.KeepsOne (.bindings known) known body :=
    rewrites.keeps fun _ unknown => unknown
  have unknown : ∀ declared ∈ temporaries, known declared.name = false := fun declared among =>
    Bool.eq_false_iff.mpr fun isKnown =>
      flattening.issues.fresh _ (List.mem_map_of_mem among) (old _ isKnown)
  rw [flattening.result] at member
  cases body with
  | block span statements =>
    rcases Statement.mem_listOccurrences_objects unknown member with found | inside
    · obtain ⟨temporary, among, used⟩ := found
      obtain ⟨callee, type, target, same⟩ := flattening.made temporary among
      refine .inl ⟨callee, type, target, ?_⟩
      rw [same] at used
      exact type.uses_valueType_subset ((List.mem_append.mp used).resolve_right List.not_mem_nil)
    · exact .inr (keeps.uses false scope occurrence inside isKnown)
  | _ => cases isBlock

theorem Function.Flattening.declaresOnly {targets : Association CType} {function result : Function}
    {registry after : Registry} {temporaries : List Declaration} {body : Statement}
    (flattening : function.Flattening targets registry result after temporaries body)
    (isBlock : body.isBlock) (old : ∀ name, known name → name ∈ registry.used)
    {types : List String} (declares : function.body.DeclaresOnly (·.TypesAmong known types)) :
    result.body.DeclaresOnly (·.TypesAmong known types) := by
  have inside := (flattening.rewrites (fun _ => True)
    fun _ _ _ _ _ => trivial).declaresOnly declares
  rw [flattening.result]
  cases body with
  | block span statements =>
    rw [Statement.declaresOnly_block] at inside
    refine Statement.declaresOnly_block.mpr (List.forall_mem_append.mpr ⟨fun statement member => ?_, inside⟩)
    obtain ⟨temporary, among, rfl⟩ := List.mem_map.mp member
    have unknown : known temporary.name = false := Bool.eq_false_iff.mpr fun isKnown =>
      flattening.issues.fresh _ (List.mem_map_of_mem among) (old _ isKnown)
    simp [Statement.DeclaresOnly, Statement.ofDeclaration, Statement.declared,
      Declaration.TypesAmong, unknown]
  | _ => cases isBlock

end Flattening

/-- A call in a statement of a block where no call of a macro is left is one of something that has
the name there. -/
theorem Invoking.hides_of_clear {expansion : Expansion}
    (clear : ∀ site ∈ function.standing (.bindings expansion.macros.contains),
      Invoking.Clear expansion site.1 site.2.nodes) {occurrence : Occurrence Bindings}
    (stands : occurrence ∈ function.body.occurrences (.bindings expansion.macros.contains) false
      ((Scoping.bindings expansion.macros.contains).ofFunction function))
    (inBlock : occurrence.inBlock) {name : String} (called : occurrence.use = .called name)
    (isMacro : expansion.macros.contains name) : occurrence.scope.hides name := by
  have placed := List.mem_filter.mpr ⟨stands, inBlock⟩
  rw [Statement.inBlock_occurrences] at placed
  obtain ⟨⟨scope, statement⟩, among, inside⟩ := List.mem_flatMap.mp placed
  obtain ⟨use, used, rfl⟩ := List.mem_map.mp inside
  have plain : statement.isPlain := by
    cases statement with
    | expression | returnStatement => rfl
    | _ => cases used
  refine clear ⟨scope, statement⟩ among name ?_ isMacro
  rw [Statement.callees_nodes_of_plain plain, Use.mem_callees, ← called]
  exact List.mem_map_of_mem used

/-! ## One function of a run -/

namespace CompilationUnit

variable {configuration : Configuration} {unit : CompilationUnit} {registry : Registry}

/-- A visible use of the name of a function that becomes a macro is a call that can become a
statement of its own. -/
theorem called_of_eligible {occurrence : Occurrence LocalNames}
    (stands : occurrence ∈ unit.normalized.occurrences .locals) (visible : occurrence.isVisible)
    (eligible : occurrence.use.name ∈ (unit.decision configuration).eligible) :
    ∃ name, occurrence.use = .called name ∧ occurrence.isPositioned := by
  obtain ⟨function, -, named, qualifies⟩ := mem_eligible.mp eligible
  cases same : occurrence.use with
  | mentioned name =>
    rw [same, Use.name] at named
    exact absurd ⟨occurrence, stands, visible, named ▸ same⟩ qualifies.notMentioned
  | called name =>
    rw [same, Use.name] at named
    refine ⟨name, rfl, ?_⟩
    by_contra notPositioned
    exact qualifies.positioned ⟨occurrence, stands, visible, named ▸ same, notPositioned⟩

theorem mem_eligible_of_contains {name : String}
    (isKnown : (unit.plan configuration registry).macros.contains name) :
    name ∈ (unit.decision configuration).eligible :=
  (unit.contains_macros configuration registry name).mp isKnown

theorem not_eligible_of_results
    (apart : ∀ function ∈ unit.functions, function.BringsNothingBack) {callee : String}
    {type : CType} (target : (unit.decision configuration).results.find? callee = some type)
    {use : Use} (used : use ∈ type.uses) : use.name ∉ (unit.decision configuration).eligible := by
  intro eligible
  obtain ⟨normal, member, -, -, -, rfl⟩ := find?_results target
  have among := member
  rw [functions_normalized] at among
  obtain ⟨source, found, rfl⟩ := List.mem_map.mp among
  let seen : Occurrence LocalNames := ⟨use, .elsewhere, false, .ofFunction source.normalize⟩
  have stands : seen ∈ unit.normalized.occurrences .locals :=
    mem_occurrences .locals member (List.mem_append_left _
      (List.mem_map_of_mem (List.mem_append_left _ used)))
  have visible : seen.isVisible := by
    have avoids := List.all_eq_true.mp (apart source found).result use used
    change (!(LocalNames.ofFunction source).contains use.name) = true
    simpa [LocalNames.ofFunction, LocalNames.contains] using avoids
  obtain ⟨-, -, positioned⟩ := called_of_eligible stands visible eligible
  cases positioned

/-- A flattened function declares nothing outside under the name of a type, as far as functions that
become macros are concerned. -/
theorem exists_declaresOnly_of_flattened (formed : unit.IsFormed)
    (apart : ∀ function ∈ unit.functions, function.BringsNothingBack) {flat : Function}
    (member : flat ∈ Item.functions (unit.flattened configuration registry).1) :
    ∃ types, flat.body.DeclaresOnly
      (·.TypesAmong (unit.plan configuration registry).macros.contains types) := by
  obtain ⟨function, functionMember, before, after, temporaries, body, form, flattening, older⟩ :=
    exists_flattened formed member
  have flattens := flattening.flattens _ (fun _ => contains_macros_of_results registry) form.braced form.isBlock
  refine ⟨function.braced.typeNames, flattening.declaresOnly flattens.isBlock (fun name known =>
    older (unit.isKnown_used configuration (Bool.or_eq_true _ _ ▸ .inl known))) ?_⟩
  exact Function.declaresOnly_normalize (apart function functionMember).types

/-- Where a flattened function leaves the name of a macro's function to stand for something outside,
it calls the function in a statement of a block, and the name is visible. -/
theorem called_of_flattened (formed : unit.IsFormed)
    (apart : ∀ function ∈ unit.functions, function.BringsNothingBack) {flat : Function}
    (member : flat ∈ Item.functions (unit.flattened configuration registry).1)
    {occurrence : Occurrence Bindings} (stands : occurrence ∈ flat.body.occurrences
      (.bindings (unit.plan configuration registry).macros.contains) false
      ((Scoping.bindings (unit.plan configuration registry).macros.contains).ofFunction flat))
    (isKnown : (unit.plan configuration registry).macros.contains occurrence.use.name)
    (exposed : occurrence.scope.exposes occurrence.use.name) :
    ∃ name, occurrence.use = .called name ∧ occurrence.inBlock ∧ occurrence.scope.hides name = false := by
  obtain ⟨function, functionMember, before, after, temporaries, body, form, flattening, older⟩ :=
    exists_flattened formed member
  have old : ∀ name, (unit.plan configuration registry).macros.contains name →
      name ∈ before.used := fun name known =>
    older (unit.isKnown_used configuration (Bool.or_eq_true _ _ ▸ .inl known))
  have flattens := flattening.flattens _ (fun _ => contains_macros_of_results registry) form.braced form.isBlock
  have sameScope : (Scoping.bindings (unit.plan configuration registry).macros.contains).ofFunction
      flat = (Scoping.bindings (unit.plan configuration registry).macros.contains).ofFunction
        function.normalize := by
    rw [flattening.result]
    rfl
  rw [sameScope] at stands
  rcases flattening.exists_use flattens.isBlock old stands isKnown with typed | stood
  · obtain ⟨callee, type, target, used⟩ := typed
    exact absurd (mem_eligible_of_contains isKnown) (not_eligible_of_results apart target used)
  · obtain ⟨source, sourceStands, sameUse, sameBindings, inBlock⟩ := stood
    have separated := form.braced.separated (.ofObjects fun name member =>
        (List.mem_filter.mp member).1)
      (Function.keepsApart_normalize (apart function functionMember).objects)
      (.ofBlock form.isBlock) false source sourceStands
    rw [← sameUse, ← sameBindings] at exposed
    have visible := separated _ exposed
    rw [← sameUse] at isKnown
    obtain ⟨seen, seenStands, seenUse, seenPlace, seenBlock, seenScope⟩ :=
      Function.occurrence_of_bindings (List.mem_append_right _ sourceStands) isKnown
    have seenVisible : seen.isVisible := by
      rw [Occurrence.isVisible, seenScope, visible]
      rfl
    obtain ⟨name, called, positioned⟩ :=
      called_of_eligible (mem_occurrences .locals
        (unit.functions_normalized ▸ List.mem_map_of_mem functionMember) seenStands) seenVisible
        (seenUse ▸ mem_eligible_of_contains isKnown)
    refine ⟨name, ?_, inBlock ?_, ?_⟩
    · rw [← sameUse, ← seenUse, called]
    · rw [← seenBlock]
      exact (Bool.and_eq_true _ _ ▸ positioned).1
    · have sameName : source.use.name = name := by rw [← seenUse, called]; rfl
      rw [← sameBindings, ← sameName]
      exact visible

theorem macroName_fresh {name macroName : String}
    (found : (unit.plan configuration registry).macros.find? name = some macroName) :
    (unit.plan configuration registry).macros.contains macroName = false := by
  refine Bool.eq_false_iff.mpr fun isKnown => ?_
  obtain ⟨source, member, rfl, -⟩ :=
    unit.mem_eligible_normalized configuration (mem_eligible_of_contains isKnown)
  exact unit.isMacro_fresh configuration (MacroPlan.isMacro_of_find? found) (name_mem_identifiers member)

theorem IsTraced.not_eligible_of_reference (formed : unit.IsFormed)
    (apart : ∀ function ∈ unit.functions, function.BringsNothingBack) {trails : List Trail}
    {result : CompilationUnit} (traced : unit.IsTraced configuration registry trails result)
    {trail : Trail} (member : trail ∈ trails)
    (noMacro : (unit.plan configuration registry).eligibility.isEligible trail.source.name = false)
    {reference : Reference} (refers : reference ∈ trail.result.references) (isGlobal : reference.isGlobal) :
    reference.use.name ∉ (unit.decision configuration).eligible := by
  intro eligible
  let known := (unit.plan configuration registry).macros.contains
  have isKnown : known reference.use.name :=
    (unit.contains_macros configuration registry _).mpr eligible
  obtain ⟨callsNone, expands, older⟩ := traced.mem formed member
  have old : ∀ name, known name → name ∈ trail.before.used := fun name known =>
    older (planned_old registry name (Bool.or_eq_true _ _ ▸ .inl known))
  have flat : trail.source ∈ Item.functions (unit.flattened configuration registry).1 := by
    rw [← traced.sources]
    exact List.mem_map_of_mem member
  -- Invocations are made in the flattened function itself.
  have runs := Trail.expands_iff.mp expands
  rw [Trail.expansion, Trail.prepared, if_neg (Bool.eq_false_iff.mp noMacro),
    if_neg (Bool.eq_false_iff.mp noMacro)] at runs
  have makes : Invoking.Makes (unit.plan configuration registry).outside trail.before.used
      (Word.Spells (known · = false)) := by
    refine ⟨fun name macroName found => macroName_fresh found, fun number unused => ?_⟩
    exact Bool.eq_false_iff.mpr fun isKnown => unused (old _ isKnown)
  have rewritten := Pass.invokeMacros_rewritten makes runs
  have kept : trail.source.body.KeepsOne (.bindings known) known trail.result.body :=
    (rewritten.keeps fun _ unknown => unknown).one
  have sameHead : trail.result = { trail.source with body := trail.result.body } :=
    Pass.invokeMacros_body runs
  have sameScope : (Scoping.bindings known).ofFunction trail.result =
      (Scoping.bindings known).ofFunction trail.source := by
    rw [sameHead]
    rfl
  obtain ⟨types, declares⟩ := exists_declaresOnly_of_flattened formed apart flat
  have finds := Function.finds_globals (Pass.invokeMacros_braced callsNone.form.braced runs)
    (rewritten.declaresOnly declares _ (List.mem_singleton_self _))
  obtain ⟨occurrence, stands, named, exposed⟩ := finds reference refers isGlobal isKnown
  rw [← named] at isKnown exposed
  obtain ⟨source, stood, sameUse, sameBindings, inBlock⟩ :=
    kept.uses false _ occurrence (sameScope ▸ stands) isKnown
  rw [← sameUse] at isKnown exposed
  rw [← sameBindings] at exposed
  obtain ⟨name, called, sourceBlock, visible⟩ :=
    called_of_flattened formed apart flat stood isKnown exposed
  have hidden := Invoking.hides_of_clear
    (Pass.invokeMacros_clear (fun _ _ => macroName_fresh) callsNone.form.braced runs) stands
    (inBlock sourceBlock) (sameUse ▸ called) (by rw [called] at isKnown; exact isKnown)
  rw [← sameBindings, visible] at hidden
  cases hidden

end CompilationUnit

/-! ## Items -/

theorem Trail.name_result {plan : MacroPlan} {trail : Trail} (expands : trail.Expands plan) :
    trail.result.name = trail.source.name := by
  have prepared : (trail.prepared plan).1.name = trail.source.name := by
    unfold Trail.prepared
    split
    · have pointed : (((Preparation.rename trail.source trail.before).point plan
          trail.source.name)).function.name = trail.source.name := by
        unfold Preparation.point
        split <;> rfl
      have linear : (((Preparation.rename trail.source trail.before).point plan
          trail.source.name).linearize).function.name = trail.source.name := by
        unfold Preparation.linearize
        split
        · exact pointed
        · exact pointed
      exact linear
    · rfl
  have sameHead : trail.result = { (trail.prepared plan).1 with body := trail.result.body } :=
    Pass.invokeMacros_body (Trail.expands_iff.mp expands)
  rw [sameHead]
  exact prepared

namespace MacroPlacement

theorem sources_place (dropsPrototypes : Bool) (plan : MacroPlan) {placement : MacroPlacement}
    (noSources : placement.sources = []) (item : Item) :
    (placement.place dropsPrototypes plan item).sources = [] := by
  cases item with
  | function definition =>
    simp only [place]
    split
    · exact noSources
    · rw [noSources]
      rfl
  | declaration declared =>
    simp only [place]
    split <;> exact noSources
  | typeDefinition | verbatim => exact noSources

theorem mem_headOf {texts : Association String} {item head : Item}
    (member : head ∈ headOf texts item) : ∃ text span, head = .verbatim text span := by
  cases item with
  | function definition =>
    obtain ⟨text, -, rfl⟩ := Option.map_eq_some_iff.mp (Option.mem_toList.mp member)
    exact ⟨_, _, rfl⟩
  | declaration | typeDefinition | verbatim => cases member

theorem mem_remainderOf {dropsPrototypes : Bool} {plan : MacroPlan} {texts : Association String}
    {item left : Item} (member : left ∈ remainderOf dropsPrototypes plan texts [] item) : left = item := by
  cases item with
  | function definition =>
    simp only [remainderOf] at member
    split at member
    · exact List.mem_singleton.mp member
    · cases member
  | declaration declared =>
    simp only [remainderOf] at member
    split at member
    · cases member
    · exact List.mem_singleton.mp member
  | typeDefinition | verbatim => exact List.mem_singleton.mp member

theorem of_mem_foldl_place (dropsPrototypes : Bool) (plan : MacroPlan) {items : List Item}
    (placement : MacroPlacement) (noSources : placement.sources = []) :
    let placed := items.foldl (place dropsPrototypes plan) placement
    ∀ item ∈ placed.head ++ placed.items, item ∈ placement.head ++ placement.items ∨
      item ∈ items ∨ ∃ text span, item = .verbatim text span := by
  induction items generalizing placement with
  | nil => exact fun _ member => .inl member
  | cons first rest ih =>
    intro placed item member
    rcases ih _ (sources_place dropsPrototypes plan noSources first) item member with
      before | behind | text
    · rw [place_head, place_items, noSources] at before
      rcases List.mem_append.mp before with head | left
      · rcases List.mem_append.mp head with head | new
        · exact .inl (List.mem_append_left _ head)
        · exact .inr (.inr (mem_headOf new))
      · rcases List.mem_append.mp left with left | new
        · exact .inl (List.mem_append_right _ left)
        · exact .inr (.inl (mem_remainderOf new ▸ List.mem_cons_self))
    · exact .inr (.inl (List.mem_cons_of_mem _ behind))
    · exact .inr (.inr text)

end MacroPlacement

def Declaration.initializerReferences (declaration : Declaration) : List Reference :=
  ScopeItem.listReferences (fun _ => none) (optionalItems Initializer.items declaration.initializer)

namespace CompilationUnit

variable {configuration : Configuration} {unit : CompilationUnit} {registry : Registry}

/-- Without the definitions that macros were made of, a unit is left with processed items and
texts. -/
theorem mem_items_placed (removes : configuration.keepsDefinitions = false)
    {texts : Association String} {items : List Item} {item : Item}
    (member : item ∈ (unit.placed configuration registry texts items).items) :
    item ∈ items ∨ ∃ text span, item = .verbatim text span := by
  have noSources : (if configuration.keepsDefinitions then
      Association.ofPairs (unit.functions.map fun function => (function.name, function))
    else []) = ([] : Association Function) :=
    if_neg (Bool.eq_false_iff.mp removes)
  rcases MacroPlacement.of_mem_foldl_place _ _ _ noSources item member with start | left
  · exact absurd start List.not_mem_nil
  · exact left

/-- A use in the initializer of a declaration outside of functions is none of a function that
becomes a macro. -/
theorem not_eligible_of_initializer {declared : Declaration}
    (member : .declaration declared ∈ unit.items) {reference : Reference}
    (refers : reference ∈ declared.initializerReferences) (isGlobal : reference.isGlobal) :
    reference.use.name ∉ (unit.decision configuration).eligible := by
  intro eligible
  have read := optionalItems_read Initializer.items_read declared.initializer
  obtain ⟨-, named⟩ := read.found _ reference refers isGlobal
  obtain ⟨use, used, sameName⟩ := List.mem_map.mp named
  have normal : Item.declaration declared ∈ unit.normalized.items := by
    rw [items_normalized]
    exact List.mem_map_of_mem (f := normalizedItem) member
  have stands : (⟨use, .elsewhere, false, Scoping.locals.outside⟩ : Occurrence LocalNames) ∈
      unit.normalized.occurrences .locals :=
    List.mem_flatMap.mpr ⟨_, normal, List.mem_map_of_mem (List.mem_append_right _ used)⟩
  obtain ⟨-, -, positioned⟩ := called_of_eligible stands rfl (sameName ▸ eligible)
  cases positioned

theorem macroized_eq {state after : RunState} {report : Report} {result : CompilationUnit}
    (runs : (unit.macroize configuration).run state = .ok (report, result) after) :
    report.macroized = (unit.decision configuration).eligible := by
  rw [(report_and_result runs).1]
  rfl

/-- What is left of a function under its own name becomes no macro, if no two functions have one
name. -/
theorem not_macroized_of_distinct (removes : configuration.keepsDefinitions = false)
    (distinct : (unit.functions.map Function.name).Nodup) {state after : RunState}
    {report : Report} {result : CompilationUnit}
    (runs : (unit.macroize configuration).run state = .ok (report, result) after)
    {function : Function} (member : function ∈ result.functions) : function.name ∉ report.macroized := by
  by_cases none : report.macroized = []
  · rw [none]
    exact List.not_mem_nil
  obtain ⟨heads, remainders, items, areTexts, leaves⟩ := macroize_places distinct runs none
  obtain ⟨item, among, isFunction⟩ := List.mem_filterMap.mp member
  rw [items, List.mem_append, List.mem_flatten] at among
  rcases among with head | ⟨remainder, found, inside⟩
  · obtain ⟨source, -, text, -, rfl⟩ := exists_of_mem_forall₂ areTexts.flip head
    cases isFunction
  · obtain ⟨source, -, left⟩ := exists_of_mem_forall₂ leaves.flip found
    cases left with
    | removed => cases inside
    | kept isMacro keeps =>
      rw [removes] at keeps
      cases keeps
    | changed noMacro =>
      rw [List.mem_singleton.mp inside] at isFunction
      cases isFunction
      exact noMacro
    | dropped => cases inside
    | prototype | declaration | typeDefinition | verbatim =>
      rw [List.mem_singleton.mp inside] at isFunction
      cases isFunction

/-- No reference to a function that is gone: behind a run that removes the functions it makes macros
of, no identifier in the body of another function or in an initializer refers to one of them, if no
function brings back a name that it hides. Functions of different names are all gone that became
macros. -/
theorem macroize_references {text file : String} {typedefs : List String}
    (parses : CompilationUnit.parse text file typedefs = .ok unit)
    (apart : ∀ function ∈ unit.functions, function.BringsNothingBack)
    (removes : configuration.keepsDefinitions = false) {state after : RunState} {report : Report}
    {result : CompilationUnit}
    (runs : (unit.macroize configuration).run state = .ok (report, result) after) :
    (∀ function ∈ result.functions, function.name ∉ report.macroized →
      ∀ reference ∈ function.references, reference.isGlobal →
        reference.use.name ∉ report.macroized) ∧
    (∀ declared, .declaration declared ∈ result.items →
      ∀ reference ∈ declared.initializerReferences, reference.isGlobal →
        reference.use.name ∉ report.macroized) ∧
    ((unit.functions.map Function.name).Nodup →
      ∀ function ∈ result.functions, function.name ∉ report.macroized) := by
  have formed := isFormed_of_parse parses
  rw [macroized_eq runs]
  refine ⟨fun function member noMacro reference refers isGlobal => ?_,
    fun declared member reference refers isGlobal => ?_,
    fun distinct function member => macroized_eq runs ▸
      not_macroized_of_distinct removes distinct runs member⟩
  · rcases macroize_traced formed runs with ⟨none, -⟩ | ⟨trails, traced⟩
    · rw [none]
      exact List.not_mem_nil
    obtain ⟨texts, items, results, rfl⟩ := traced.result
    obtain ⟨item, among, isFunction⟩ := List.mem_filterMap.mp member
    rcases mem_items_placed removes among with processed | ⟨text, span, rfl⟩
    · have isResult : function ∈ Item.functions items :=
        List.mem_filterMap.mpr ⟨item, processed, isFunction⟩
      rw [results] at isResult
      obtain ⟨trail, trailMember, rfl⟩ := List.mem_map.mp isResult
      have expands := (traced.mem formed trailMember).2.1
      rw [Trail.name_result expands] at noMacro
      refine traced.not_eligible_of_reference formed apart trailMember ?_ refers isGlobal
      exact Bool.eq_false_iff.mpr fun isMacro => noMacro (List.contains_iff_mem.mp isMacro)
    · cases isFunction
  · rcases (report_and_result runs).2 with ⟨none, -⟩ | ⟨texts, processed, rfl, rewrites⟩
    · rw [← macroized_eq runs, none]
      exact List.not_mem_nil
    rcases mem_items_placed removes member with among | ⟨text, span, impossible⟩
    · obtain ⟨item, found, rewritten⟩ := exists_of_mem_forall₂ rewrites.flip among
      cases rewritten with
      | other => exact not_eligible_of_initializer found refers isGlobal
    · cases impossible

theorem macroize_references_behind_prototypes :
    ∃ unit, CompilationUnit.parse
        "inline void f(int n) \x7b n = n; \x7d
          int main(void) \x7b
            \x7b void f(int); f(1); \x7d \x7b int f; f = 2; \x7d return 0; \x7d" = .ok unit ∧
      (∀ function ∈ unit.functions, function.BringsNothingBack) ∧
      ∃ report result after, (unit.macroize {}).run ⟨{}, []⟩ = .ok (report, result) after ∧
        (∀ function ∈ result.functions, function.name ∉ report.macroized →
          ∀ reference ∈ function.references, reference.isGlobal →
            reference.use.name ∉ report.macroized) ∧
        (∀ declared, .declaration declared ∈ result.items →
          ∀ reference ∈ declared.initializerReferences, reference.isGlobal →
            reference.use.name ∉ report.macroized) ∧
        ((unit.functions.map Function.name).Nodup →
          ∀ function ∈ result.functions, function.name ∉ report.macroized) := by
  refine exists_parsed _ (fun unit => !unit.failsAtFirst && unit.functions.all fun function =>
    decide function.BringsNothingBack) (by decide +kernel) ?_
  intro unit parses checked
  obtain ⟨succeeds, apart⟩ := Bool.and_eq_true _ _ ▸ checked
  have apart : ∀ function ∈ unit.functions, function.BringsNothingBack := fun function member =>
    of_decide_eq_true (List.all_eq_true.mp apart function member)
  obtain ⟨report, result, after, runs⟩ := exists_run_of_not_fails succeeds
  exact ⟨apart, report, result, after, runs, macroize_references parses apart rfl runs⟩

/-- A prototype in a block brings back the name of a function that an object hides. The function
becomes a macro, and a call of it stays behind. -/
theorem macroize_leaves_reference :
    ∃ unit, CompilationUnit.parse
        "inline void f(int x) \x7b \x7d
          int main(void) \x7b int f; \x7b void f(int); f(1); \x7d return 0; \x7d" = .ok unit ∧
      ∃ report result after, (unit.macroize {}).run ⟨{}, []⟩ = .ok (report, result) after ∧
        ∃ function ∈ result.functions, function.name ∉ report.macroized ∧
          ∃ reference ∈ function.references, reference.isGlobal ∧
            reference.use.name ∈ report.macroized := by
  refine exists_parsed _ (runGives {} fun given => given.2.functions.any fun function =>
      decide (function.name ∉ given.1.macroized) && function.references.any fun reference =>
        reference.isGlobal && decide (reference.use.name ∈ given.1.macroized)) (by decide +kernel) ?_
  intro unit parses gives
  obtain ⟨report, result, after, runs, found⟩ := exists_run_of_runGives gives
  simp only [List.any_eq_true, Bool.and_eq_true, decide_eq_true_eq] at found
  exact ⟨report, result, after, runs, found⟩

end CompilationUnit

end InlineMacro
