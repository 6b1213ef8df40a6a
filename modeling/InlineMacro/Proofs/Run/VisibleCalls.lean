import InlineMacro.Proofs.Analysis.Eligibility
import InlineMacro.Proofs.Pass.InvocationSites
import InlineMacro.Proofs.Pass.NormalizeCalls
import InlineMacro.Proofs.Run.Stages

/-!
# Names that a run knows, and visible calls of macros

The names in a unit are in use before a run gives out any, and the macros get names that are new.
The functions that become macros and their macros are the names that the passes have to know.

A visible call of a function that becomes a macro is in statement position when the calls are
flattened. If the calls of functions that return nothing are statements, thrown away, or returned
where nothing else is, then such a call stands where an invocation can, and it still does when the
function around it has become a macro.
-/

set_option autoImplicit false

namespace InlineMacro

/-! ## Names that a run knows -/

def MacroPlan.isMacro (plan : MacroPlan) (name : String) : Bool :=
  plan.macros.any fun entry => entry.2 == name

def MacroPlan.isKnown (plan : MacroPlan) (name : String) : Bool :=
  plan.macros.contains name || plan.isMacro name

theorem MacroPlan.isMacro_of_find? {plan : MacroPlan} {name macroName : String}
    (found : plan.macros.find? name = some macroName) : plan.isMacro macroName :=
  List.any_eq_true.mpr ⟨_, Association.mem_of_find? _ found, beq_self_eq_true _⟩

namespace CompilationUnit

variable (configuration : Configuration) (unit : CompilationUnit)

/-! ## Names in the unit -/

variable {function : Function} {name : String}

theorem mem_identifiers {unit : CompilationUnit} (member : function ∈ unit.functions)
    (stands : name ∈ Node.allNames function.nodes) : name ∈ unit.identifiers := by
  obtain ⟨item, among, found⟩ := List.mem_filterMap.mp member
  rw [identifiers, List.mem_eraseDups]
  cases item with
  | function definition =>
    cases found
    obtain ⟨node, inside, named⟩ := List.mem_flatMap.mp stands
    exact List.mem_flatMap.mpr ⟨node, List.mem_flatMap.mpr ⟨_, among, inside⟩, named⟩
  | _ => cases found

theorem name_mem_identifiers {unit : CompilationUnit}
    (member : function ∈ unit.functions) : function.name ∈ unit.identifiers :=
  mem_identifiers member (List.mem_append_left _ List.mem_cons_self)

theorem callee_mem_identifiers {unit : CompilationUnit} (member : function ∈ unit.functions)
    (called : name ∈ Node.callees function.body.nodes) : name ∈ unit.identifiers := by
  refine mem_identifiers member ?_
  have spelled := function.body.callees_subset_allNames called
  change name ∈ function.name :: _ ++ Node.allNames (_ ++ _ ++ _)
  rw [Node.allNames_append]
  exact List.mem_append_right _ (List.mem_append_right _ spelled)

theorem header_callee_mem_identifiers {unit : CompilationUnit} (member : function ∈ unit.functions)
    (called : .called name ∈ function.result.uses ++ Parameter.listUses function.parameters) :
    name ∈ unit.identifiers := by
  refine mem_identifiers member ?_
  have stands :=
    (function.result.nodes_use.append (Parameter.nodes_use function.parameters)).mem_allNames called
  change name ∈ function.name :: _ ++ Node.allNames (_ ++ _ ++ _)
  rw [Node.allNames_append]
  exact List.mem_append_right _ (List.mem_append_left _ stands)

/-! ## Names for macros -/

def macroNames (registry : Registry) : List String :=
  (Registry.macroNamesFrom (unit.decision configuration).eligible
    (registry.reserveAll unit.identifiers)).1.map Prod.snd

theorem planned_issues (registry : Registry) :
    Registry.Issues (registry.reserveAll unit.identifiers) (unit.planned configuration registry)
      (unit.macroNames configuration registry ++ [(unit.plan configuration registry).namespaceName]) :=
  (Registry.macroNamesFrom_issues _ _).trans (Registry.claim_issues "namespace" _)

variable {registry : Registry}

theorem mem_macroNames (isMacro : (unit.plan configuration registry).isMacro name) :
    name ∈ unit.macroNames configuration registry := by
  obtain ⟨entry, member, same⟩ := List.any_eq_true.mp isMacro
  rw [← beq_iff_eq.mp same]
  exact List.mem_map_of_mem (Association.mem_of_mem_ofPairs member)

theorem mem_reserved {unit : CompilationUnit} (member : name ∈ unit.identifiers)
    (registry : Registry) : name ∈ (registry.reserveAll unit.identifiers).used :=
  (Registry.mem_used_reserveAll _ _ _).mpr (.inl member)

theorem isMacro_fresh
    (isMacro : (unit.plan configuration registry).isMacro name) : name ∉ unit.identifiers := by
  intro old
  exact (unit.planned_issues configuration registry).fresh name
    (List.mem_append_left _ (unit.mem_macroNames configuration isMacro)) (mem_reserved old registry)

theorem mem_eligible_normalized (eligible : name ∈ (unit.decision configuration).eligible) :
    ∃ source ∈ unit.functions, source.name = name ∧
      source.normalize.Qualifies configuration.effectiveMask unit.normalized := by
  obtain ⟨function, member, named, qualifies⟩ := mem_eligible.mp eligible
  rw [functions_normalized] at member
  obtain ⟨source, found, rfl⟩ := List.mem_map.mp member
  exact ⟨source, found, named, qualifies⟩

theorem isKnown_used (isKnown : (unit.plan configuration registry).isKnown name) :
    name ∈ (unit.planned configuration registry).used := by
  have issues := unit.planned_issues configuration registry
  rcases Bool.or_eq_true _ _ ▸ isKnown with contained | isMacro
  · obtain ⟨source, found, rfl, -⟩ := unit.mem_eligible_normalized configuration
      ((unit.contains_macros configuration registry name).mp contained)
    exact issues.mem_used (mem_reserved (name_mem_identifiers found) registry)
  · exact (issues.used name).mpr
      (.inl (List.mem_append_left _ (unit.mem_macroNames configuration isMacro)))

end CompilationUnit

/-! ## Visible calls -/

/-! ## Where calls can stand before invocations are made -/

namespace Occurrence

/-- Whether a call is a statement of a block, thrown away there, or returned where nothing else
is. -/
def IsReady (returnsNothing : Prop) (occurrence : Occurrence Bindings) : Prop :=
  occurrence.inBlock ∧ (occurrence.place = .call .whole ∨ occurrence.place = .call .thrownAway ∨
    (occurrence.place = .call .returned ∧ returnsNothing))

def AllReady (returnsNothing : Prop) (calls : List (Occurrence Bindings)) : Prop :=
  ∀ occurrence ∈ calls, occurrence.scope.hides occurrence.use.name = false →
    occurrence.IsReady returnsNothing

variable {returnsNothing : Prop}

theorem IsReady.isInvocable {occurrence : Occurrence Bindings}
    (ready : occurrence.IsReady returnsNothing) : occurrence.isInvocable := by
  obtain ⟨inBlock, whole | thrownAway | ⟨returned, -⟩⟩ := ready
  · simp [Occurrence.isInvocable, inBlock, whole]
  · simp [Occurrence.isInvocable, inBlock, thrownAway]
  · simp [Occurrence.isInvocable, inBlock, returned]

theorem Restated.isReady {position : CallPosition}
    {result entry : Occurrence Bindings} (restated : Occurrence.Restated position result entry)
    (fits : returnsNothing → position = .whole) (ready : entry.IsReady returnsNothing) :
    result.IsReady returnsNothing := by
  refine ⟨restated.inBlock.trans ready.1, ?_⟩
  rcases restated.place with elsewhere | same | ⟨returned, moved⟩
  · rcases ready.2 with placed | placed | ⟨placed, -⟩ <;> rw [elsewhere] at placed <;> cases placed
  · rw [same]
    exact ready.2
  · rcases ready.2 with placed | placed | ⟨-, nothing⟩
    · rw [returned] at placed
      cases placed
    · rw [returned] at placed
      cases placed
    · exact .inl (moved.trans (congrArg _ (fits nothing)))

theorem AllReady.restated {position : CallPosition}
    {results entries : List (Occurrence Bindings)} (restated : AllRestated position results entries)
    (fits : returnsNothing → position = .whole) (ready : AllReady returnsNothing entries) :
    AllReady returnsNothing results := by
  intro result member visible
  obtain ⟨entry, found, same⟩ := restated.exists_of_mem result member
  refine same.isReady fits (ready entry found ?_)
  rw [← same.scope, ← same.use]
  exact visible

end Occurrence

/-! ## Calls in a unit -/

namespace CompilationUnit

variable {function : Function}

theorem mem_occurrences {σ : Type} (scoping : Scoping σ) {unit : CompilationUnit}
    (member : function ∈ unit.functions) {occurrence : Occurrence σ}
    (stands : occurrence ∈ function.occurrences scoping) : occurrence ∈ unit.occurrences scoping := by
  obtain ⟨item, among, found⟩ := List.mem_filterMap.mp member
  cases item with
  | function definition =>
    cases found
    exact List.mem_flatMap.mpr ⟨_, among, stands⟩
  | _ => cases found

/-- What a run needs of a unit beyond its syntax. The calls of functions that return nothing are
statements, thrown away, or returned, but not from a function that stores its value through a
pointer; no declaration of something outside stands under the name of a parameter or an object
around it; and no type in the head of a function that becomes a macro calls another one under the
name of a parameter. -/
structure Regular (configuration : Configuration) (unit : CompilationUnit) : Prop where
  voidCalls : ∀ function ∈ unit.functions, ∀ occurrence ∈ function.braced.occurrences .locals,
    ∀ callee ∈ unit.functions, callee.result.isVoid → occurrence.use = .called callee.name →
      occurrence.isVisible → occurrence.place = .call .whole ∨ occurrence.place = .call .thrownAway ∨
        (occurrence.place = .call .returned ∧
          (unit.decision configuration).results.contains function.name = false)
  keptApart : ∀ function ∈ unit.functions, function.braced.keepsApart
  headers : ∀ function ∈ unit.functions, function.name ∈ (unit.decision configuration).eligible →
    ∀ name ∈ function.parameters.filterMap Parameter.name,
      name ∈ (unit.decision configuration).eligible →
        .called name ∉ function.result.uses ++ Parameter.listUses function.parameters

variable {configuration : Configuration} {unit : CompilationUnit}

theorem positioned_of_eligible (member : function ∈ unit.functions) {occurrence : Occurrence LocalNames}
    (stands : occurrence ∈ function.normalize.occurrences .locals) {name : String}
    (called : occurrence.use = .called name) (visible : occurrence.isVisible)
    (eligible : name ∈ (unit.decision configuration).eligible) : occurrence.isPositioned := by
  obtain ⟨source, -, rfl, qualifies⟩ := unit.mem_eligible_normalized configuration eligible
  by_contra notPositioned
  have normal : function.normalize ∈ unit.normalized.functions := by
    rw [functions_normalized]
    exact List.mem_map_of_mem member
  exact qualifies.positioned
    ⟨occurrence, mem_occurrences .locals normal stands, visible, called, notPositioned⟩

theorem exists_void_of_eligible {name : String} (eligible : name ∈ (unit.decision configuration).eligible)
    (noResult : (unit.decision configuration).results.contains name = false) :
    ∃ callee ∈ unit.functions, callee.name = name ∧ callee.result.isVoid := by
  obtain ⟨source, found, named, qualifies⟩ := unit.mem_eligible_normalized configuration eligible
  refine ⟨source, found, named, ?_⟩
  by_contra notVoid
  have normal : source.normalize ∈ unit.normalized.functions := by
    rw [functions_normalized]
    exact List.mem_map_of_mem found
  have contained : (unit.decision configuration).results.contains name :=
    contains_results.mpr ⟨source.normalize, normal, qualifies, notVoid, named⟩
  rw [noResult] at contained
  cases contained

variable {registry : Registry}

/-- The calls of known names in a function in normal form are calls of functions that become
macros. -/
theorem eligible_of_mem_calls (member : function ∈ unit.functions) {occurrence : Occurrence Bindings}
    (stands : occurrence ∈ function.normalize.calls (unit.plan configuration registry).isKnown) :
    ∃ name, occurrence.use = .called name ∧ name ∈ (unit.decision configuration).eligible ∧
      (unit.plan configuration registry).isMacro name = false := by
  obtain ⟨inside, name, called, isKnown⟩ := Occurrence.mem_callsAmong.mp stands
  have callee : name ∈ Node.callees function.normalize.body.nodes := by
    rw [Statement.callees_nodes (.bindings (unit.plan configuration registry).isKnown) _ false
      ((Scoping.bindings (unit.plan configuration registry).isKnown).ofFunction function.normalize),
      Use.mem_callees]
    exact called ▸ List.mem_map_of_mem inside
  have old := callee_mem_identifiers member (function.callees_normalize callee)
  have notMacro : (unit.plan configuration registry).isMacro name = false :=
    Bool.eq_false_iff.mpr fun isMacro => unit.isMacro_fresh configuration isMacro old
  rw [MacroPlan.isKnown, notMacro, Bool.or_false] at isKnown
  exact ⟨name, called, (unit.contains_macros configuration registry name).mp isKnown, notMacro⟩

/-- A visible call in a function in normal form is in statement position, and ready to become an
invocation unless it is flattened. -/
theorem Regular.ready_normalize (regular : unit.Regular configuration) (formed : unit.IsFormed)
      (member : function ∈ unit.functions) {occurrence : Occurrence Bindings}
    (stands : occurrence ∈ function.normalize.calls (unit.plan configuration registry).isKnown)
    (visible : occurrence.scope.hides occurrence.use.name = false) : occurrence.isPositioned ∧
      ((unit.decision configuration).results.contains occurrence.use.name = false → occurrence.IsReady
          ((unit.decision configuration).results.contains function.name = false)) := by
  obtain ⟨name, called, eligible, -⟩ := eligible_of_mem_calls member stands
  obtain ⟨inside, given, alsoCalled, isKnown⟩ := Occurrence.mem_callsAmong.mp stands
  cases alsoCalled.symm.trans called
  have whole : occurrence ∈ function.normalize.occurrences
      (.bindings (unit.plan configuration registry).isKnown) := List.mem_append_right _ inside
  have known : (unit.plan configuration registry).isKnown occurrence.use.name := by
    rw [called]
    exact isKnown
  obtain ⟨seen, found, sameUse, samePlace, sameBlock, sameScope⟩ :=
    Function.occurrence_of_bindings whole known
  have seenCalled : seen.use = .called name := sameUse.trans called
  have seenVisible : seen.isVisible := by
    rw [Occurrence.isVisible, sameScope, visible]
    rfl
  have positioned := positioned_of_eligible member found seenCalled seenVisible eligible
  have here : occurrence.isPositioned := by
    rw [Occurrence.isPositioned, ← sameBlock, ← samePlace]
    exact positioned
  refine ⟨here, fun noResult => ?_⟩
  rw [called] at noResult
  -- A call that is not flattened was in the same place before: as a call of a function that returns
  -- nothing it can have been in no first value.
  obtain ⟨entry, stood, stands⟩ := Function.normalize_traced (formed function member).2 seen found positioned
  obtain ⟨callee, calleeMember, named, isVoid⟩ := exists_void_of_eligible eligible noResult
  have entryCalled : entry.use = .called callee.name := by
    rw [named, ← stands.use, seenCalled]
  have entryVisible : entry.isVisible := by
    rw [Occurrence.isVisible, Bool.not_eq_true', Bool.eq_false_iff]
    intro contains
    have hidden := stands.scope _ contains
    rw [entryCalled] at hidden
    rw [Occurrence.isVisible, Bool.not_eq_true', seenCalled, ← named] at seenVisible
    rw [seenVisible] at hidden
    cases hidden
  have placed := regular.voidCalls function member entry stood callee calleeMember isVoid entryCalled
    entryVisible
  have place : occurrence.place = entry.place := by
    rw [← samePlace]
    refine stands.place.resolve_left fun elsewhere => ?_
    rw [elsewhere] at placed
    rcases placed with impossible | impossible | ⟨impossible, -⟩ <;> cases impossible
  refine ⟨?_, ?_⟩
  · exact (Bool.and_eq_true _ _ ▸ here).1
  · rw [place]
    exact placed

theorem Regular.callFree_header (regular : unit.Regular configuration) (member : function ∈ unit.functions)
    (eligible : function.name ∈ (unit.decision configuration).eligible) :
    CallFree (unit.plan configuration registry).isKnown
      (function.result.uses ++ Parameter.listUses function.parameters) := by
  intro name called
  have old := header_callee_mem_identifiers member called
  have notMacro : (unit.plan configuration registry).isMacro name = false :=
    Bool.eq_false_iff.mpr fun isMacro => unit.isMacro_fresh configuration isMacro old
  rw [MacroPlan.isKnown, notMacro, Bool.or_false, Bool.eq_false_iff]
  intro contained
  have calleeEligible := (unit.contains_macros configuration registry name).mp contained
  by_cases parameter : name ∈ function.parameters.filterMap Parameter.name
  · exact regular.headers function member eligible name parameter calleeEligible called
  · have stands : (⟨.called name, .elsewhere, false, .ofFunction function.normalize⟩ :
        Occurrence LocalNames) ∈ function.normalize.occurrences .locals :=
      List.mem_append_left _ (List.mem_map_of_mem called)
    have visible : Occurrence.isVisible (⟨.called name, .elsewhere, false, .ofFunction function.normalize⟩ :
          Occurrence LocalNames) := by
      simp only [Occurrence.isVisible, Use.name, LocalNames.ofFunction, LocalNames.contains,
        List.any_cons, List.any_nil, Bool.or_false, Bool.not_eq_true', List.contains_eq_mem,
        decide_eq_false_iff_not]
      exact parameter
    have positioned := positioned_of_eligible member stands rfl visible calleeEligible
    cases positioned

end CompilationUnit

/-! ## Calls in flattened functions -/

/-- What flattening leaves of a function, as far as calls are concerned. -/
structure Function.IsFlat (plan : MacroPlan) (returnsNothing : Prop) (function : Function) :
    Prop where
  form : function.IsBraced
  ready : Occurrence.AllReady returnsNothing (function.calls plan.isKnown)
  separated : ∀ occurrence ∈ function.calls plan.isKnown, occurrence.IsSeparated
  notMacro : ∀ occurrence ∈ function.calls plan.isKnown,
    plan.isMacro occurrence.use.name = false

theorem Occurrence.flattened_use (targets : Association CType) (occurrence : Occurrence Bindings) :
    (Flatten.flattened targets occurrence).use = occurrence.use ∧
      (Flatten.flattened targets occurrence).scope = occurrence.scope ∧
      (Flatten.flattened targets occurrence).inBlock = occurrence.inBlock := by
  unfold Flatten.flattened
  split <;> exact ⟨rfl, rfl, rfl⟩

namespace CompilationUnit

variable {configuration : Configuration} {unit : CompilationUnit}

theorem mem_eligible_of_contains_results {name : String}
    (contained : (unit.decision configuration).results.contains name) :
    name ∈ (unit.decision configuration).eligible := by
  obtain ⟨function, member, qualifies, -, named⟩ := contains_results.mp contained
  exact mem_eligible.mpr ⟨function, member, named, qualifies⟩

theorem contains_macros_of_results (registry : Registry) {name : String}
    (contained : (unit.decision configuration).results.contains name) :
    (unit.plan configuration registry).macros.contains name :=
  (unit.contains_macros configuration registry name).mpr (mem_eligible_of_contains_results contained)

theorem isKnown_of_contains_results (registry : Registry) {name : String}
    (contained : (unit.decision configuration).results.contains name) :
    (unit.plan configuration registry).isKnown name :=
  Bool.or_eq_true _ _ ▸ .inl (contains_macros_of_results registry contained)

theorem Regular.isFlat (regular : unit.Regular configuration) (formed : unit.IsFormed)
    {registry : Registry} {flat : Function}
    (member : flat ∈ Item.functions (unit.flattened configuration registry).1) :
    ∃ function ∈ unit.functions, flat.name = function.name ∧ flat.parameters = function.parameters ∧
      flat.IsFlat (unit.plan configuration registry)
        ((unit.decision configuration).results.contains flat.name = false) := by
  obtain ⟨function, functionMember, before, after, temporaries, body, form, flattening, older⟩ :=
    exists_flattened formed member
  have callFree : ∀ callee type, (unit.decision configuration).results.find? callee = some type →
      CallFree (unit.plan configuration registry).isKnown type.uses := by
    intro callee type found name called
    obtain ⟨normal, normalMember, qualifies, -, rfl, rfl⟩ := find?_results found
    have eligible : normal.name ∈ (unit.decision configuration).eligible :=
      mem_eligible.mpr ⟨normal, normalMember, rfl, qualifies⟩
    rw [functions_normalized] at normalMember
    obtain ⟨callee, calleeMember, rfl⟩ := List.mem_map.mp normalMember
    exact regular.callFree_header calleeMember eligible name (List.mem_append_left _ called)
  have calls := flattening.calls (fun _ => isKnown_of_contains_results registry) form.braced form.isBlock
    (fun name isKnown => older (unit.isKnown_used configuration isKnown)) callFree
  have sameName : flat.name = function.name := by rw [flattening.result]; rfl
  obtain ⟨braced, isBlock⟩ := flattening.form form.braced form.isBlock
  have stems : ∀ occurrence ∈ flat.calls (unit.plan configuration registry).isKnown,
      ∃ entry ∈ function.normalize.calls (unit.plan configuration registry).isKnown,
        Flatten.flattened (unit.decision configuration).results entry = occurrence :=
    fun occurrence stands => List.mem_map.mp (calls.subset stands)
  refine ⟨function, functionMember, sameName, by rw [flattening.result]; rfl, ⟨braced, isBlock⟩,
    ?_, ?_, ?_⟩
  · intro occurrence stands visible
    obtain ⟨entry, entryStands, rfl⟩ := stems occurrence stands
    obtain ⟨sameUse, sameScope, sameBlock⟩ :=
      Occurrence.flattened_use (unit.decision configuration).results entry
    rw [sameUse, sameScope] at visible
    obtain ⟨positioned, ready⟩ := regular.ready_normalize formed functionMember entryStands visible
    rw [sameName]
    unfold Flatten.flattened
    cases contained : (unit.decision configuration).results.contains entry.use.name with
    | true =>
      obtain ⟨name, called, -, -⟩ := eligible_of_mem_calls functionMember entryStands
      rw [called, Use.name] at contained visible
      have callsTarget : Flatten.callsTarget (unit.decision configuration).results entry := by
        simp [Flatten.callsTarget, called, contained, visible]
      rw [positioned, callsTarget]
      exact ⟨(Bool.and_eq_true _ _ ▸ positioned).1, .inl rfl⟩
    | false =>
      have notTarget : Flatten.callsTarget (unit.decision configuration).results entry = false := by
        obtain ⟨name, called, -, -⟩ := eligible_of_mem_calls functionMember entryStands
        rw [called, Use.name] at contained
        simp [Flatten.callsTarget, called, contained]
      rw [notTarget, Bool.and_false]
      exact ready contained
  · intro occurrence stands
    obtain ⟨entry, entryStands, rfl⟩ := stems occurrence stands
    obtain ⟨-, sameScope, -⟩ :=
      Occurrence.flattened_use (unit.decision configuration).results entry
    rw [Occurrence.IsSeparated, sameScope]
    exact Function.separated_calls form.braced form.isBlock
      (Function.keepsApart_normalize (regular.keptApart function functionMember)) entry entryStands
  · intro occurrence stands
    obtain ⟨entry, entryStands, rfl⟩ := stems occurrence stands
    obtain ⟨sameUse, -, -⟩ :=
      Occurrence.flattened_use (unit.decision configuration).results entry
    obtain ⟨name, called, -, notMacro⟩ := eligible_of_mem_calls functionMember entryStands
    rw [sameUse, called]
    exact notMacro

end CompilationUnit

/-!
## Calls in prepared functions

Whatever calls stand in a unit, those in a prepared function stood in the function before, under the
same names. So no function has a call by the name of a macro when its calls become invocations, and
the invocations of a processed function are exactly those that are made then.
-/

/-! ### Back to the function before -/

/-- The calls of known names in a prepared function are among some calls, up to their places: those
in statements of a block always, all others on a condition. -/
structure Preparation.Traces (known : String → Bool) (condition : Prop)
    (calls : List (Occurrence Bindings)) (preparation : Preparation) : Prop where
  old : ∀ name, known name → name ∈ preparation.registry.used
  unknown : (preparation.function.parameters.filterMap Parameter.name).filter known = []
  form : preparation.function.IsBraced
  calls : ∀ occurrence ∈ preparation.function.calls known, occurrence.inBlock ∨ condition →
    ∃ entry ∈ calls, occurrence.use = entry.use ∧ occurrence.scope = entry.scope ∧
      occurrence.inBlock = entry.inBlock

namespace Preparation.Traces

variable {known : String → Bool} {condition : Prop} {calls : List (Occurrence Bindings)}
  {preparation : Preparation}

theorem restated {position : CallPosition} {result : Preparation}
    (traces : preparation.Traces known condition calls)
    (restates : Function.RestatedFrom known position preparation.function result.function)
    (older : preparation.registry.used ⊆ result.registry.used) : result.Traces known condition calls where
  old name isKnown := older (traces.old name isKnown)
  unknown := restates.unknown
  form := ⟨restates.braced, restates.isBlock⟩
  calls occurrence member inside := by
    obtain ⟨between, found, same⟩ := restates.calls.exists_of_mem occurrence member
    rw [same.inBlock] at inside
    obtain ⟨entry, among, sameUse, sameScope, sameBlock⟩ := traces.calls between found inside
    exact ⟨entry, among, same.use.trans sameUse, same.scope.trans sameScope,
      same.inBlock.trans sameBlock⟩

theorem point (traces : preparation.Traces known condition calls) (plan : MacroPlan) (name : String) :
    (preparation.point plan name).Traces known condition calls := by
  unfold Preparation.point
  split
  · have issues := Registry.fresh_issues "retval" preparation.registry
    have newPointer : known (preparation.registry.fresh "retval").1 = false :=
      Bool.eq_false_iff.mpr fun isKnown =>
        issues.fresh _ List.mem_cons_self (traces.old _ isKnown)
    exact traces.restated (Function.throughPointer_restatedFrom newPointer traces.unknown
      traces.form.braced traces.form.isBlock) fun name old => issues.mem_used old
  · exact traces

theorem linearize (traces : preparation.Traces known condition calls) :
    preparation.linearize.Traces known condition calls := by
  unfold Preparation.linearize
  split
  · have issues := Registry.fresh_issues "exit" preparation.registry
    exact traces.restated (Function.jumpingTo_restatedFrom _ traces.unknown traces.form.braced
      traces.form.isBlock) fun name old => issues.mem_used old
  · exact traces

theorem namespaced (traces : preparation.Traces known condition calls) (plan : MacroPlan) :
    (preparation.namespaced plan).Traces known condition calls := by
  have restates : Function.RestatedFrom known .whole preparation.function
      (preparation.function.appendNamespace plan.namespaceName) :=
    Function.appendNamespace_restatedFrom plan.namespaceName traces.unknown traces.form.braced
      traces.form.isBlock
  exact traces.restated restates (List.Subset.refl _)

end Preparation.Traces

variable {function : Function}

/-- The calls in a prepared function are those that call no object, but for the types of parameters
that stand in copies too. -/
theorem Function.prepare_traces {known : String → Bool} (plan : MacroPlan)
    (form : function.IsBraced) {registry : Registry} (old : ∀ name, known name → name ∈ registry.used) :
    (function.prepare plan registry).Traces known (CallFree known (Parameter.listUses function.parameters))
      (Bindings.renamedCalls (function.calls known)) := by
  have renamed := function.renameLocals_renamedFrom registry form.braced form.isBlock old
  have traces : (Preparation.rename function registry).Traces known
      (CallFree known (Parameter.listUses function.parameters))
      (Bindings.renamedCalls (function.calls known)) := by
    refine ⟨renamed.old, renamed.unknown, ⟨renamed.braced, renamed.isBlock⟩, ?_⟩
    intro occurrence member inside
    have among : occurrence ∈ (function.renameLocals registry).2.1.calls known := member
    refine ⟨occurrence, ?_, rfl, rfl, rfl⟩
    rcases inside with inBlock | callFree
    · have site := List.mem_filter.mpr ⟨among, inBlock⟩
      rw [renamed.sites] at site
      exact (List.mem_filter.mp site).1
    · rwa [renamed.calls callFree] at among
  exact ((traces.point plan function.name).linearize).namespaced plan

/-! ### No call of a macro -/

/-- A function on the way through a run that has no call by the name of a macro, neither in its head
nor in its body. -/
structure Function.CallsNoMacro (plan : MacroPlan) (function : Function) : Prop where
  form : function.IsBraced
  callFree : CallFree plan.isMacro (Parameter.listUses function.parameters)
  calls : function.calls plan.isMacro = []

theorem Function.CallsNoMacro.unnamed {plan : MacroPlan}
    (none : function.calls plan.isMacro = []) : Node.Unnamed plan.isMacro function.body.nodes := by
  refine Function.unnamed_of_calls (fun _ isMacro => isMacro) fun occurrence member => ?_
  rw [none] at member
  exact absurd member List.not_mem_nil

theorem Function.CallsNoMacro.prepare {plan : MacroPlan}
    (callsNone : function.CallsNoMacro plan) {registry : Registry}
    (old : ∀ name, plan.isMacro name → name ∈ registry.used) :
    (function.prepare plan registry).function.IsBraced ∧
      (function.prepare plan registry).function.calls plan.isMacro = [] := by
  have traces := function.prepare_traces plan callsNone.form old
  refine ⟨traces.form, List.eq_nil_iff_forall_not_mem.mpr fun occurrence member => ?_⟩
  obtain ⟨entry, among, -⟩ := traces.calls occurrence member (.inr callsNone.callFree)
  rw [callsNone.calls] at among
  exact List.not_mem_nil among

namespace CompilationUnit

variable {configuration : Configuration} {unit : CompilationUnit}

theorem callFree_results (registry : Registry) {name : String} {type : CType}
    (found : (unit.decision configuration).results.find? name = some type) :
    CallFree (unit.plan configuration registry).isMacro type.uses := by
  obtain ⟨normal, normalMember, -, -, -, rfl⟩ := find?_results found
  rw [functions_normalized] at normalMember
  obtain ⟨callee, calleeMember, rfl⟩ := List.mem_map.mp normalMember
  intro called stands
  have old := header_callee_mem_identifiers calleeMember (List.mem_append_left _ stands)
  exact Bool.eq_false_iff.mpr fun isMacro => unit.isMacro_fresh configuration isMacro old

theorem callsNoMacro_of_flattened (formed : unit.IsFormed) {registry : Registry} {flat : Function}
    (member : flat ∈ Item.functions (unit.flattened configuration registry).1) :
    flat.CallsNoMacro (unit.plan configuration registry) := by
  obtain ⟨function, functionMember, before, after, temporaries, body, form, flattening, older⟩ :=
    exists_flattened formed member
  have sameParameters : flat.parameters = function.parameters := by rw [flattening.result]; rfl
  obtain ⟨braced, isBlock⟩ := flattening.form form.braced form.isBlock
  have covers : ∀ name, (unit.plan configuration registry).isMacro name →
      (unit.plan configuration registry).isKnown name := by
    intro name isMacro
    rw [MacroPlan.isKnown, isMacro, Bool.or_true]
  have flattens := flattening.flattens (unit.plan configuration registry).isKnown
    (fun _ => isKnown_of_contains_results registry) form.braced form.isBlock
  refine ⟨⟨braced, isBlock⟩, ?_, List.eq_nil_iff_forall_not_mem.mpr fun occurrence stands => ?_⟩
  · rw [sameParameters]
    intro name called
    have old := header_callee_mem_identifiers functionMember (List.mem_append_right _ called)
    exact Bool.eq_false_iff.mpr fun isMacro => unit.isMacro_fresh configuration isMacro old
  · rw [flattening.calls_body flattens.isBlock
      (fun name isMacro => older (unit.isKnown_used configuration (covers name isMacro)))
      fun _ _ target => callFree_results registry target] at stands
    obtain ⟨-, name, called, isMacro⟩ := Occurrence.mem_callsAmong.mp stands
    obtain ⟨wider, widerStands, sameUse, -⟩ := Function.exists_mem_calls covers stands
    obtain ⟨entry, entryStands, rfl⟩ := List.mem_map.mp (flattens.calls.subset widerStands)
    obtain ⟨entryUse, -, -⟩ :=
      Occurrence.flattened_use (unit.decision configuration).results entry
    obtain ⟨callee, calleeCalled, -, notMacro⟩ := eligible_of_mem_calls functionMember entryStands
    have same : (Use.called callee) = .called name := by
      rw [← calleeCalled, ← entryUse, sameUse, called]
    cases same
    rw [isMacro] at notMacro
    cases notMacro

end CompilationUnit

/-! ### Invocations of processed functions -/

namespace Trail

variable {plan : MacroPlan} (trail : Trail)

def prepared (plan : MacroPlan) (trail : Trail) : Function × Registry :=
  if plan.eligibility.isEligible trail.source.name then
    ((trail.source.prepare plan trail.before).function,
      (trail.source.prepare plan trail.before).registry)
  else (trail.source, trail.before)

def expansion (plan : MacroPlan) (trail : Trail) : Expansion :=
  if plan.eligibility.isEligible trail.source.name then plan.inside else plan.outside

variable {trail}

theorem expansion_macros : (trail.expansion plan).macros = plan.macros := by
  unfold expansion
  split <;> rfl

theorem expands_iff : trail.Expands plan ↔ (Pass.invokeMacros (trail.expansion plan)).run
      ⟨(trail.prepared plan).1, (trail.prepared plan).2⟩ = .ok () ⟨trail.result, trail.after⟩ := by
  unfold Expands Function.expand expansion prepared
  cases plan.eligibility.isEligible trail.source.name <;> exact Iff.rfl

theorem invokedFrom (callsNone : trail.source.CallsNoMacro plan)
    (old : ∀ name, plan.isMacro name → name ∈ trail.before.used) (expands : trail.Expands plan) :
    (trail.prepared plan).1.InvokedFrom (trail.expansion plan) plan.isMacro
      (trail.prepared plan).2 trail.result trail.after := by
  have ready : (trail.prepared plan).1.IsBraced ∧
      (trail.prepared plan).1.calls plan.isMacro = [] := by
    unfold prepared
    split
    · exact callsNone.prepare old
    · exact ⟨callsNone.form, callsNone.calls⟩
  refine Pass.invokeMacros_invokedFrom ready.1.braced ?_ (Function.CallsNoMacro.unnamed ready.2)
    (expands_iff.mp expands)
  rw [expansion_macros]
  exact fun _ _ => MacroPlan.isMacro_of_find?

end Trail

end InlineMacro
