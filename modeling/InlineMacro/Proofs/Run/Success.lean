import InlineMacro.Proofs.Parser.Form
import InlineMacro.Proofs.Run.VisibleCalls

/-!
# Runs that succeed

A run over a unit fails only if a call of a macro is left over. That happens to no unit in which the
calls of functions that return nothing are statements, no declaration brings back a name that an
object hides, and no head of a macro's function calls another one under the name of a parameter.
-/

set_option autoImplicit false

namespace InlineMacro

/-! ## Prepared functions -/

/-- What is known of a function on its way to a macro, as far as calls are concerned. -/
structure Preparation.IsReady (plan : MacroPlan) (returnsNothing : Prop)
    (preparation : Preparation) : Prop where
  old : ∀ name, plan.isKnown name → name ∈ preparation.registry.used
  unknown : (preparation.function.parameters.filterMap Parameter.name).filter plan.isKnown = []
  form : preparation.function.IsBraced
  calls : Occurrence.AllReady returnsNothing (preparation.function.calls plan.isKnown)
  notMacro : ∀ occurrence ∈ preparation.function.calls plan.isKnown,
    plan.isMacro occurrence.use.name = false

namespace Preparation.IsReady

variable {plan : MacroPlan} {returnsNothing : Prop} {preparation : Preparation}

theorem restated {position : CallPosition} {result : Preparation}
    (ready : preparation.IsReady plan returnsNothing)
    (calls : Function.RestatedFrom plan.isKnown position preparation.function result.function)
    (fits : returnsNothing → position = .whole)
    (older : preparation.registry.used ⊆ result.registry.used) :
    result.IsReady plan returnsNothing where
  old name isKnown := older (ready.old name isKnown)
  unknown := calls.unknown
  form := ⟨calls.braced, calls.isBlock⟩
  calls := ready.calls.restated calls.calls fits
  notMacro occurrence member := by
    obtain ⟨entry, found, same⟩ := calls.calls.exists_of_mem occurrence member
    rw [same.use]
    exact ready.notMacro entry found

theorem rename {function : Function} (flat : function.IsFlat plan returnsNothing)
    {registry : Registry} (old : ∀ name, plan.isKnown name → name ∈ registry.used)
    (callFree : CallFree plan.isKnown (Parameter.listUses function.parameters)) :
    (Preparation.rename function registry).IsReady plan returnsNothing := by
  have renamed := function.renameLocals_renamedFrom registry flat.form.braced flat.form.isBlock old
  have entries : ∀ occurrence ∈ (function.renameLocals registry).2.1.calls plan.isKnown,
      ∃ entry ∈ function.calls plan.isKnown, entry.scope.namesObject entry.use.name = false ∧
        occurrence = entry.mapScope Bindings.renamed := by
    intro occurrence member
    rw [renamed.calls callFree] at member
    obtain ⟨entry, kept, rfl⟩ := List.mem_map.mp member
    obtain ⟨found, notObject⟩ := List.mem_filter.mp kept
    exact ⟨entry, found, by simpa using notObject, rfl⟩
  refine ⟨renamed.old, renamed.unknown, ⟨renamed.braced, renamed.isBlock⟩, ?_, ?_⟩
  · intro occurrence member visible
    obtain ⟨entry, found, notObject, rfl⟩ := entries occurrence member
    have exposed : entry.scope.exposes entry.use.name := by
      have noType := visible
      change entry.scope.renamed.hides entry.use.name = false at noType
      rw [Bindings.hides_renamed] at noType
      rw [Bindings.exposes, notObject, noType]
      rfl
    exact flat.ready entry found (flat.separated entry found _ exposed)
  · intro occurrence member
    obtain ⟨entry, found, -, rfl⟩ := entries occurrence member
    exact flat.notMacro entry found

theorem point (ready : preparation.IsReady plan returnsNothing) (name : String)
    (fits : returnsNothing → plan.eligibility.results.contains name = false) :
    (preparation.point plan name).IsReady plan returnsNothing := by
  unfold Preparation.point
  split
  · next contained =>
    have issues := Registry.fresh_issues "retval" preparation.registry
    have newPointer : plan.isKnown (preparation.registry.fresh "retval").1 = false :=
      Bool.eq_false_iff.mpr fun isKnown =>
        issues.fresh _ List.mem_cons_self (ready.old _ isKnown)
    refine ready.restated (Function.throughPointer_restatedFrom newPointer ready.unknown
      ready.form.braced ready.form.isBlock) (fun nothing => ?_) fun name old => issues.mem_used old
    rw [fits nothing] at contained
    cases contained
  · exact ready

theorem linearize (ready : preparation.IsReady plan returnsNothing) :
    preparation.linearize.IsReady plan returnsNothing := by
  unfold Preparation.linearize
  split
  · have issues := Registry.fresh_issues "exit" preparation.registry
    exact ready.restated (Function.jumpingTo_restatedFrom _ ready.unknown ready.form.braced
      ready.form.isBlock) (fun _ => rfl) fun name old => issues.mem_used old
  · exact ready

theorem namespaced (ready : preparation.IsReady plan returnsNothing) :
    (preparation.namespaced plan).IsReady plan returnsNothing := by
  have restated : Function.RestatedFrom plan.isKnown .whole preparation.function
      (preparation.function.appendNamespace plan.namespaceName) :=
    Function.appendNamespace_restatedFrom plan.namespaceName ready.unknown ready.form.braced
      ready.form.isBlock
  exact ready.restated restated (fun _ => rfl) (List.Subset.refl _)

end Preparation.IsReady

theorem Function.IsFlat.prepare {plan : MacroPlan} {function : Function}
    (flat : function.IsFlat plan (plan.eligibility.results.contains function.name = false))
    {registry : Registry} (old : ∀ name, plan.isKnown name → name ∈ registry.used)
    (callFree : CallFree plan.isKnown (Parameter.listUses function.parameters)) :
    (function.prepare plan registry).IsReady plan (plan.eligibility.results.contains function.name = false) :=
  (((Preparation.IsReady.rename flat old callFree).point function.name id).linearize).namespaced

/-! ## Making invocations -/

/-- Invocations can be made in a function whose visible calls are ready, and names in use stay in
use. -/
theorem Pass.invokeMacros_ok_of_ready {plan : MacroPlan} (expansion : Expansion)
    (macros : expansion.macros = plan.macros) {returnsNothing : Prop} {function : Function}
    (form : function.IsBraced) (ready : Occurrence.AllReady returnsNothing (function.calls plan.isKnown))
    (notMacro : ∀ occurrence ∈ function.calls plan.isKnown, plan.isMacro occurrence.use.name = false)
    (registry : Registry) : ∃ work, (Pass.invokeMacros expansion).run ⟨function, registry⟩ = .ok () work ∧
      registry.used ⊆ work.registry.used := by
  have named : ∀ name macroName, expansion.macros.find? name = some macroName →
      plan.isMacro macroName := by
    rw [macros]
    exact fun _ _ => MacroPlan.isMacro_of_find?
  have unnamed : Node.Unnamed plan.isMacro function.body.nodes := by
    refine Function.unnamed_of_calls (fun name isMacro => ?_) notMacro
    rw [MacroPlan.isKnown, isMacro, Bool.or_true]
  have settled : Occurrence.Settled (function.calls expansion.macros.contains) := by
    have covers : ∀ name, expansion.macros.contains name → plan.isKnown name := by
      intro name contained
      rw [macros] at contained
      rw [MacroPlan.isKnown, contained]
      rfl
    intro occurrence member visible
    obtain ⟨found, among, sameUse, samePlace, sameBlock, sameScope⟩ :=
      Function.exists_mem_calls covers member
    have foundReady := ready found among (by rw [sameUse, sameScope, visible])
    have invocable := foundReady.isInvocable
    rw [Occurrence.isInvocable, samePlace, sameBlock] at invocable
    exact invocable
  obtain ⟨work, runs⟩ := Pass.invokeMacros_ok form.braced named unnamed settled
  have invoked := Pass.invokeMacros_invokedFrom form.braced named unnamed runs
  obtain ⟨tokens, issues, -⟩ := invoked.tokens
  exact ⟨work, runs, fun name old => issues.mem_used old⟩

namespace CompilationUnit

variable {configuration : Configuration} {unit : CompilationUnit}

theorem Regular.expand_ok (regular : unit.Regular configuration) (formed : unit.IsFormed)
    {start : Registry} {flat : Function}
    (member : flat ∈ Item.functions (unit.flattened configuration start).1) {registry : Registry}
    (old : ∀ name, (unit.plan configuration start).isKnown name → name ∈ registry.used) :
    ∃ work, flat.expand (unit.plan configuration start) registry = .ok () work ∧
      ∀ name, (unit.plan configuration start).isKnown name → name ∈ work.registry.used := by
  obtain ⟨function, among, sameName, sameParameters, isFlat⟩ := regular.isFlat formed member
  unfold Function.expand
  split
  · next eligible =>
    have functionEligible : function.name ∈ (unit.decision configuration).eligible := by
      rw [← sameName]
      exact List.contains_iff_mem.mp eligible
    have header : CallFree (unit.plan configuration start).isKnown
        (function.result.uses ++ Parameter.listUses function.parameters) :=
      regular.callFree_header among functionEligible
    have callFree : CallFree (unit.plan configuration start).isKnown
        (Parameter.listUses flat.parameters) := by
      rw [sameParameters]
      exact fun name called => header name (List.mem_append_right _ called)
    have prepared := isFlat.prepare old callFree
    obtain ⟨work, runs, older⟩ :=
      Pass.invokeMacros_ok_of_ready (unit.plan configuration start).inside rfl prepared.form
        prepared.calls prepared.notMacro _
    exact ⟨work, runs, fun name isKnown => older (prepared.old name isKnown)⟩
  · obtain ⟨work, runs, older⟩ :=
      Pass.invokeMacros_ok_of_ready (unit.plan configuration start).outside rfl isFlat.form
        isFlat.ready isFlat.notMacro registry
    exact ⟨work, runs, fun name isKnown => older (old name isKnown)⟩

theorem planned_old (start : Registry) : ∀ name, (unit.plan configuration start).isKnown name →
      name ∈ (unit.flattened configuration start).2.used := by
  intro name isKnown
  exact Item.flattenAll_used _ _ _ (unit.isKnown_used configuration isKnown)

theorem Regular.macroize_ok (regular : unit.Regular configuration) (formed : unit.IsFormed)
    (state : RunState) : ∃ value after, (unit.macroize configuration).run state = .ok value after := by
  have outcome := macroize_outcome configuration formed state
  have succeeds : ∃ value after, (unit.macroize configuration).outcome state = .ok value after := by
    rw [outcome]
    split
    · exact ⟨_, _, rfl⟩
    · obtain ⟨value, after, runs⟩ := Item.expandAll_ok
        (fun function member registry old => regular.expand_ok formed member old) []
        (planned_old state.registry)
      dsimp only
      rw [runs]
      exact ⟨_, _, rfl⟩
  obtain ⟨value, after, runs⟩ := succeeds
  obtain ⟨snapshots, same⟩ := Run.outcome_ok_iff.mp runs
  exact ⟨value, _, same⟩

/-! ## Parsed units -/

theorem regular_iff : unit.Regular configuration ↔
    (∀ function ∈ unit.functions, ∀ occurrence ∈ function.braced.occurrences .locals,
      ∀ callee ∈ unit.functions, callee.result.isVoid → occurrence.use = .called callee.name →
        occurrence.isVisible → occurrence.place = .call .whole ∨
          occurrence.place = .call .thrownAway ∨ (occurrence.place = .call .returned ∧
            (unit.decision configuration).results.contains function.name = false)) ∧
    (∀ function ∈ unit.functions, function.braced.keepsApart) ∧
    (∀ function ∈ unit.functions, function.name ∈ (unit.decision configuration).eligible →
      ∀ name ∈ function.parameters.filterMap Parameter.name, name ∈ (unit.decision configuration).eligible →
          .called name ∉ function.result.uses ++ Parameter.listUses function.parameters) :=
  ⟨fun regular => ⟨regular.voidCalls, regular.keptApart, regular.headers⟩,
    fun ⟨voidCalls, keptApart, headers⟩ => ⟨voidCalls, keptApart, headers⟩⟩

instance : Decidable (unit.Regular configuration) :=
  @decidable_of_iff' _ _ regular_iff
    (@instDecidableAnd _ _ inferInstance (@instDecidableAnd _ _ inferInstance inferInstance))

def CallsNothingInExpressions (unit : CompilationUnit) : Prop :=
  ∀ occurrence ∈ (unit.mapFunctions Function.braced).occurrences .locals,
    ∀ callee ∈ unit.functions, callee.result.isVoid → occurrence.use = .called callee.name →
      occurrence.place = .call .whole ∨ occurrence.place = .call .thrownAway ∨
        occurrence.place = .call .returned

instance (unit : CompilationUnit) : Decidable unit.CallsNothingInExpressions :=
  inferInstanceAs (Decidable (∀ _ ∈ _, ∀ _ ∈ _, _ → _ → _))

def failsAtFirst (unit : CompilationUnit) : Bool :=
  match (unit.macroize {}).run ⟨{}, []⟩ with
  | .ok .. => false
  | .error .. => true

theorem exists_run_of_not_fails {unit : CompilationUnit} (succeeds : !unit.failsAtFirst) :
    ∃ report result after, (unit.macroize {}).run ⟨{}, []⟩ = .ok (report, result) after := by
  unfold failsAtFirst at succeeds
  cases runs : (unit.macroize {}).run ⟨{}, []⟩ with
  | ok value after => exact ⟨value.1, value.2, after, rfl⟩
  | error failure after =>
    rw [runs] at succeeds
    cases succeeds

theorem exists_run_with_macros {unit : CompilationUnit}
    (ends : !unit.failsAtFirst && !(unit.decision {}).eligible.isEmpty) :
    (unit.decision {}).eligible ≠ [] ∧
      ∃ report result after, (unit.macroize {}).run ⟨{}, []⟩ = .ok (report, result) after := by
  obtain ⟨succeeds, some⟩ := Bool.and_eq_true _ _ ▸ ends
  exact ⟨by simpa using some, exists_run_of_not_fails succeeds⟩

def runGives (configuration : Configuration) (holds : Report × CompilationUnit → Bool)
    (unit : CompilationUnit) : Bool :=
  match (unit.macroize configuration).run ⟨{}, []⟩ with
  | .ok value _ => holds value
  | .error .. => false

theorem exists_run_of_runGives {configuration : Configuration}
    {holds : Report × CompilationUnit → Bool} {unit : CompilationUnit}
    (gives : unit.runGives configuration holds) :
    ∃ report result after,
      (unit.macroize configuration).run ⟨{}, []⟩ = .ok (report, result) after ∧
        holds (report, result) := by
  unfold runGives at gives
  cases runs : (unit.macroize configuration).run ⟨{}, []⟩ with
  | ok value after =>
    rw [runs] at gives
    exact ⟨value.1, value.2, after, rfl, gives⟩
  | error failure after =>
    rw [runs] at gives
    cases gives

/-- Calls of functions that return nothing stand where they may, declarations bring back no hidden
name, and still a run fails. -/
def FailsInOrder (unit : CompilationUnit) : Prop :=
  unit.CallsNothingInExpressions ∧ (∀ function ∈ unit.functions, function.braced.keepsApart) ∧
    unit.failsAtFirst

instance (unit : CompilationUnit) : Decidable unit.FailsInOrder :=
  inferInstanceAs (Decidable (_ ∧ _ ∧ _))

end CompilationUnit

end InlineMacro
