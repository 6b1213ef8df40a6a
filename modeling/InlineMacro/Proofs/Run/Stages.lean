import InlineMacro.Proofs.Pass.NormalForm
import InlineMacro.Proofs.Run.Preparation

/-!
# The stages of a run

A run over a unit as plain functions of the registry: what is decided, the names of the macros, the
items behind flattening, and the functions as they are processed one after another. A run succeeds
if and only if the processing of each function does.
-/

set_option autoImplicit false

namespace InlineMacro

def Item.functions (items : List Item) : List Function := items.filterMap Item.function?

/-! ## Flattening -/

def Item.flattenAll (results : Association CType) : List Item → Registry → List Item × Registry
  | [], registry => ([], registry)
  | .function definition :: items, registry =>
    let flattened := definition.flattenCalls results registry
    let others := Item.flattenAll results items flattened.2
    (.function flattened.1 :: others.1, others.2)
  | item :: items, registry =>
    let others := Item.flattenAll results items registry
    (item :: others.1, others.2)

theorem Run.mapFunctions_run (results : Association CType) (items : List Item) (state : RunState) :
    (Run.mapFunctions (fun function => Run.withRegistry (function.flattenCalls results)) items).run
      state = .ok (Item.flattenAll results items state.registry).1
        { state with registry := (Item.flattenAll results items state.registry).2 } := by
  induction items generalizing state with
  | nil => rfl
  | cons item items ih =>
    cases item with
    | function definition =>
      have here : (Run.withRegistry (definition.flattenCalls results)).run state =
          .ok (definition.flattenCalls results state.registry).1
            { state with registry := (definition.flattenCalls results state.registry).2 } := rfl
      simp only [Run.mapFunctions, EStateM.run_bind, here, Item.flattenAll, ih]
      rfl
    | _ =>
      simp only [Run.mapFunctions, EStateM.run_bind, Item.flattenAll, ih]
      rfl

theorem Item.flattenAll_used (results : Association CType) (items : List Item)
    (registry : Registry) : registry.used ⊆ (Item.flattenAll results items registry).2.used := by
  induction items generalizing registry with
  | nil => exact List.Subset.refl _
  | cons item items ih =>
    cases item with
    | function definition =>
      obtain ⟨temporaries, body, flattening⟩ := definition.flattenCalls_flattening results registry
      exact fun name old => ih _ (flattening.issues.mem_used old)
    | declaration | typeDefinition | verbatim => exact ih registry

/-- What comes out of flattening comes from one of the functions, with some registry between the first
and the last. -/
theorem Item.mem_functions_flattenAll (results : Association CType) {items : List Item}
    {registry : Registry} {function : Function}
    (member : function ∈ Item.functions (Item.flattenAll results items registry).1) :
    ∃ source ∈ Item.functions items, ∃ before after temporaries body,
      source.Flattening results before function after temporaries body ∧ registry.used ⊆ before.used ∧
          after.used ⊆ (Item.flattenAll results items registry).2.used := by
  induction items generalizing registry with
  | nil => cases member
  | cons item items ih =>
    cases item with
    | function definition =>
      obtain ⟨temporaries, body, flattening⟩ := definition.flattenCalls_flattening results registry
      rcases List.mem_cons.mp member with rfl | member
      · exact ⟨definition, List.mem_cons_self, registry, _, temporaries, body, flattening,
          List.Subset.refl _, Item.flattenAll_used results items _⟩
      · obtain ⟨source, found, before, after, others, otherBody, otherFlattening, older, last⟩ :=
          ih member
        exact ⟨source, List.mem_cons_of_mem _ found, before, after, others, otherBody,
          otherFlattening, fun name old => older (flattening.issues.mem_used old), last⟩
    | declaration | typeDefinition | verbatim => exact ih member

/-! ## Processing -/

/-- How a function is processed: the function and the registry before and behind. -/
structure Trail where
  source : Function
  before : Registry
  result : Function
  after : Registry

namespace Trail

def Expands (plan : MacroPlan) (trail : Trail) : Prop :=
  trail.source.expand plan trail.before = .ok () ⟨trail.result, trail.after⟩

/-- The functions are processed one after another, each with the registry that the one before it has
left. -/
inductive Chain (plan : MacroPlan) : Registry → List Trail → Registry → Prop where
  | nil (registry : Registry) : Chain plan registry [] registry
  | cons (trail : Trail) (trails : List Trail) (after : Registry) (expands : trail.Expands plan)
      (others : Chain plan trail.after trails after) :
      Chain plan trail.before (trail :: trails) after

end Trail

def Item.expandAll (plan : MacroPlan) : Association String → List Item → Registry →
    EStateM.Result Failure Registry (Association String × List Item)
  | texts, [], registry => .ok (texts, []) registry
  | texts, .function definition :: items, registry =>
    match definition.expand plan registry with
    | .ok _ work =>
      match Item.expandAll plan (plan.write texts definition registry work.function) items
        work.registry with
      | .ok others after => .ok (others.1, .function work.function :: others.2) after
      | .error failure after => .error failure after
    | .error failure work => .error failure work.registry
  | texts, item :: items, registry =>
    match Item.expandAll plan texts items registry with
    | .ok others after => .ok (others.1, item :: others.2) after
    | .error failure after => .error failure after

section Processing

variable {plan : MacroPlan}

theorem Item.functions_cons_function (definition : Function) (items : List Item) :
    Item.functions (.function definition :: items) = definition :: Item.functions items := rfl

theorem Item.expandAll_other {item : Item} (other : item.function? = none)
    (texts : Association String) (items : List Item) (registry : Registry) :
    Item.expandAll plan texts (item :: items) registry =
      match Item.expandAll plan texts items registry with
      | .ok others after => .ok (others.1, item :: others.2) after
      | .error failure after => .error failure after := by
  cases item with
  | function definition => cases other
  | declaration | typeDefinition | verbatim => rfl

theorem Item.processAll_other {item : Item} (other : item.function? = none)
    (texts : Association String) (items : List Item) : Item.processAll plan texts (item :: items) =
      (Item.processAll plan texts items >>= fun others => pure (others.1, item :: others.2)) := by
  cases item with
  | function definition => cases other
  | declaration | typeDefinition | verbatim => rfl

theorem Item.functions_cons_other {item : Item} (other : item.function? = none)
    (items : List Item) : Item.functions (item :: items) = Item.functions items :=
  List.filterMap_cons_none other

theorem Item.processAll_outcome (named : plan.IsNamed) {items : List Item}
    (forms : ∀ function ∈ Item.functions items, function.IsBraced) (texts : Association String)
    (state : RunState) : (Item.processAll plan texts items).outcome state =
      Item.expandAll plan texts items state.registry := by
  induction items generalizing texts state with
  | nil => rfl
  | cons item items ih =>
    cases item with
    | function definition =>
      rw [Item.functions_cons_function, List.forall_mem_cons] at forms
      have processed := definition.process_outcome named forms.1 texts state
      rw [Item.processAll, Run.outcome_bind, Item.expandAll]
      cases expanded : definition.expand plan state.registry with
      | ok value work =>
        rw [expanded] at processed
        obtain ⟨snapshots, runs⟩ := Run.outcome_ok_iff.mp processed
        simp only [runs]
        rw [Run.outcome_map, ih forms.2]
        cases Item.expandAll plan (plan.write texts definition state.registry work.function) items
          work.registry <;> rfl
      | error failure work =>
        rw [expanded] at processed
        obtain ⟨snapshots, runs⟩ := Run.outcome_error_iff.mp processed
        simp only [runs]
    | declaration | typeDefinition | verbatim =>
      rw [Item.processAll_other rfl, Run.outcome_map, ih forms, Item.expandAll_other rfl]
      cases Item.expandAll plan texts items state.registry <;> rfl

theorem Item.expandAll_chain {items results : List Item} {texts given : Association String}
    {registry after : Registry}
    (runs : Item.expandAll plan texts items registry = .ok (given, results) after) :
    ∃ trails, trails.map Trail.source = Item.functions items ∧
      trails.map Trail.result = Item.functions results ∧ Trail.Chain plan registry trails after := by
  induction items generalizing texts registry results with
  | nil =>
    cases runs
    exact ⟨[], rfl, rfl, .nil _⟩
  | cons item items ih =>
    cases item with
    | function definition =>
      rw [Item.expandAll] at runs
      split at runs
      · next value work expanded =>
        split at runs
        · next others left laterRuns =>
          obtain ⟨laterTexts, laterItems⟩ := others
          cases runs
          obtain ⟨trails, sources, ends, chain⟩ := ih laterRuns
          have expands : Trail.Expands plan ⟨definition, registry, work.function, work.registry⟩ := expanded
          refine ⟨⟨definition, registry, work.function, work.registry⟩ :: trails, ?_, ?_,
            .cons _ _ _ expands chain⟩
          · exact congrArg (definition :: ·) sources
          · exact congrArg (work.function :: ·) ends
        · cases runs
      · cases runs
    | declaration | typeDefinition | verbatim =>
      rw [Item.expandAll_other rfl] at runs
      split at runs
      · next others left laterRuns =>
        obtain ⟨laterTexts, laterItems⟩ := others
        cases runs
        obtain ⟨trails, sources, ends, chain⟩ := ih laterRuns
        exact ⟨trails, sources, ends, chain⟩
      · cases runs

/-- Items can be processed if each function among them can, in any registry that a property holds
of, and leaves such a registry. -/
theorem Item.expandAll_ok {property : Registry → Prop} {items : List Item}
    (each : ∀ function ∈ Item.functions items, ∀ registry, property registry →
      ∃ work, function.expand plan registry = .ok () work ∧ property work.registry)
    (texts : Association String) {registry : Registry} (holds : property registry) :
    ∃ value after, Item.expandAll plan texts items registry = .ok value after := by
  induction items generalizing texts registry with
  | nil => exact ⟨_, _, rfl⟩
  | cons item items ih =>
    cases item with
    | function definition =>
      rw [Item.functions_cons_function, List.forall_mem_cons] at each
      obtain ⟨work, expanded, stillHolds⟩ := each.1 registry holds
      obtain ⟨value, after, runs⟩ :=
        ih each.2 (plan.write texts definition registry work.function) stillHolds
      rw [Item.expandAll, expanded]
      dsimp only
      rw [runs]
      exact ⟨_, _, rfl⟩
    | declaration | typeDefinition | verbatim =>
      obtain ⟨value, after, runs⟩ := ih each texts holds
      rw [Item.expandAll_other rfl, runs]
      exact ⟨_, _, rfl⟩

end Processing

/-! ## The whole unit -/

namespace CompilationUnit

variable (configuration : Configuration) (unit : CompilationUnit)

def normalized : CompilationUnit := unit.mapFunctions Function.normalize

def decision : Eligibility := unit.normalized.eligibility configuration.effectiveMask

def plan (registry : Registry) : MacroPlan :=
  let named := Registry.macroNames (unit.decision configuration).eligible
    (registry.reserveAll unit.identifiers)
  ⟨unit.decision configuration, named.1, (Registry.namespaceParameter named.2).1⟩

def planned (registry : Registry) : Registry :=
  let named := Registry.macroNames (unit.decision configuration).eligible
    (registry.reserveAll unit.identifiers)
  (Registry.namespaceParameter named.2).2

def flattened (registry : Registry) : List Item × Registry :=
  Item.flattenAll (unit.decision configuration).results unit.normalized.items
    (unit.planned configuration registry)

def placed (registry : Registry) (texts : Association String) (items : List Item) :
    CompilationUnit :=
  let sources := if configuration.keepsDefinitions then
      Association.ofPairs (unit.functions.map fun function => (function.name, function))
    else []
  let dropsPrototypes := !configuration.keepsDefinitions || configuration.purgesPrototypes
  let placement : MacroPlacement :=
    items.foldl (MacroPlacement.place dropsPrototypes (unit.plan configuration registry))
      { texts := texts, sources := sources }
  { unit with items := placement.head ++ placement.items }

def report : Report :=
  ⟨(unit.decision configuration).eligible, (unit.decision configuration).rejected⟩

/-- Every function of the unit has a block for its body, in which loops start with an expression or
a declaration. -/
def IsFormed : Prop :=
  ∀ function ∈ unit.functions, function.body.isBlock ∧ function.body.HasLoopHeads

theorem contains_macros (registry : Registry) (name : String) :
    (unit.plan configuration registry).macros.contains name ↔
      name ∈ (unit.decision configuration).eligible := by
  have keys := Registry.macroNamesFrom_keys (unit.decision configuration).eligible
    (registry.reserveAll unit.identifiers)
  rw [← keys]
  exact Association.contains_ofPairs _ name

theorem plan_isNamed (registry : Registry) : (unit.plan configuration registry).IsNamed := by
  intro name eligible
  have contained := (unit.contains_macros configuration registry name).mpr (List.contains_iff_mem.mp eligible)
  exact Option.isSome_iff_exists.mp contained

theorem functions_normalized : unit.normalized.functions = unit.functions.map Function.normalize := by
  simp only [functions, normalized, mapFunctions, List.filterMap_map, List.map_filterMap]
  congr 1
  funext item
  cases item <;> rfl

variable {unit}

theorem IsFormed.braced_normalize (formed : unit.IsFormed) :
    ∀ function ∈ unit.normalized.functions, function.IsBraced := by
  intro function member
  rw [functions_normalized] at member
  obtain ⟨source, found, rfl⟩ := List.mem_map.mp member
  exact ⟨Function.braced_normalize (formed source found).2,
    Function.isBlock_normalize (formed source found).1⟩

theorem exists_flattened {configuration : Configuration} (formed : unit.IsFormed) {registry : Registry} {flat : Function}
    (member : flat ∈ Item.functions (unit.flattened configuration registry).1) :
    ∃ function ∈ unit.functions, ∃ (before after : Registry) (temporaries : List Declaration) (body : Statement),
      function.normalize.IsBraced ∧ function.normalize.Flattening (unit.decision configuration).results before flat
          after temporaries body ∧ (unit.planned configuration registry).used ⊆ before.used := by
  obtain ⟨source, found, before, after, temporaries, body, flattening, older, -⟩ :=
    Item.mem_functions_flattenAll _ member
  have form := formed.braced_normalize source found
  have among : source ∈ unit.normalized.functions := found
  rw [functions_normalized] at among
  obtain ⟨function, functionMember, rfl⟩ := List.mem_map.mp among
  exact ⟨function, functionMember, before, after, temporaries, body, form, flattening, older⟩

theorem IsFormed.braced_flattened (formed : unit.IsFormed) (registry : Registry) :
    ∀ function ∈ Item.functions (unit.flattened configuration registry).1, function.IsBraced := by
  intro flat member
  obtain ⟨function, -, before, after, temporaries, body, form, flattening, -⟩ := exists_flattened formed member
  obtain ⟨braced, isBlock⟩ := flattening.form form.braced form.isBlock
  exact ⟨braced, isBlock⟩

theorem macroize_outcome (formed : unit.IsFormed) (state : RunState) :
    (unit.macroize configuration).outcome state = if (unit.decision configuration).eligible.isEmpty then
        .ok (unit.report configuration, unit.normalized) (state.registry.reserveAll unit.identifiers) else
        let flattened := unit.flattened configuration state.registry
        match Item.expandAll (unit.plan configuration state.registry) [] flattened.1 flattened.2 with
        | .ok processed after =>
          .ok (unit.report configuration,
            unit.placed configuration state.registry processed.1 processed.2) after
        | .error failure after => .error failure after := by
  rw [macroize, Run.outcome_withRegistry, Run.outcome_snapshot, Run.outcome_snapshot]
  change Run.outcome (if (unit.decision configuration).eligible.isEmpty then _ else _) _ = _
  cases none : (unit.decision configuration).eligible.isEmpty with
  | true => rfl
  | false =>
    simp only [Bool.false_eq_true, if_false]
    rw [Run.outcome_withRegistry, Run.outcome_withRegistry, Run.outcome_bind, Run.mapFunctions_run]
    change Run.outcome (Run.snapshot _ >>= fun _ =>
      Item.processAll (unit.plan configuration state.registry) []
        (unit.flattened configuration state.registry).1 >>= _)
      ⟨(unit.flattened configuration state.registry).2, _⟩ = _
    rw [Run.outcome_snapshot]
    refine (Run.outcome_bind_of _ (fun processed registry =>
      .ok (unit.report configuration,
        unit.placed configuration state.registry processed.1 processed.2) registry)
      fun _ _ => rfl).trans ?_
    rw [Item.processAll_outcome (unit.plan_isNamed configuration state.registry)
      (formed.braced_flattened configuration state.registry)]
    dsimp only
    cases Item.expandAll (unit.plan configuration state.registry) []
      (unit.flattened configuration state.registry).1
      (unit.flattened configuration state.registry).2 <;> rfl

end CompilationUnit

end InlineMacro
