import InlineMacro.Proofs.Parser.GrammarCoverage
import InlineMacro.Proofs.Pass.Openings
import InlineMacro.Proofs.Run.OutsideReferences

/-!
# Arguments of emitted macros

The text of a macro that a run emits is that of a processed function. Its body opens with the copies
of the arguments that can be copied, in the order of the parameters, and mentions none of these
arguments a second time.
-/

set_option autoImplicit false

namespace InlineMacro

open Node (Within)
open Text (IsWhole)
open Renaming (Own AllOwn)

/-! ## Texts -/

/-- The text of a macro is that of the processed function, under the name that the macro has. -/
structure Trail.Writes (plan : MacroPlan) (trail : Trail) (name text : String) : Prop where
  named : trail.source.name = name
  isMacro : plan.eligibility.isEligible name
  text : ∃ macroName, plan.macros.find? name = some macroName ∧
    text = trail.result.macroText macroName plan.namespaceName
      (trail.source.prepare plan trail.before).parameters

theorem Trail.Writes.of_write {plan : MacroPlan} {trail : Trail} (expands : trail.Expands plan)
    {texts : Association String} {name text : String}
    (found : (plan.write texts trail.source trail.before trail.result).find? name = some text) :
    texts.find? name = some text ∨ trail.Writes plan name text := by
  have same := Trail.name_result expands
  unfold MacroPlan.write at found
  split at found
  · next isMacro =>
    split at found
    · next macroName named =>
      rw [Association.find?_insert] at found
      split at found
      · next here =>
        cases found
        rw [same] at here
        subst here
        exact .inr ⟨rfl, isMacro, macroName, named, rfl⟩
      · exact .inl found
    · exact .inl found
  · exact .inl found

theorem Item.expandAll_writes {plan : MacroPlan} {items results : List Item}
    {texts given : Association String} {trails : List Trail} {registry after last : Registry}
    (runs : Item.expandAll plan texts items registry = .ok (given, results) after)
    (sources : trails.map Trail.source = Item.functions items)
    (chain : Trail.Chain plan registry trails last) {name text : String}
    (found : given.find? name = some text) :
    texts.find? name = some text ∨ ∃ trail ∈ trails, trail.Writes plan name text := by
  induction items generalizing texts registry results trails with
  | nil =>
    cases runs
    exact .inl found
  | cons item items ih =>
    cases item with
    | function definition =>
      rw [Item.functions_cons_function] at sources
      obtain ⟨trail, others, rfl, rfl, rest⟩ := List.map_eq_cons_iff.mp sources
      cases chain with
      | cons _ _ _ expands chain =>
        have expanded : trail.source.expand plan trail.before = .ok () ⟨trail.result, trail.after⟩ := expands
        rw [Item.expandAll, expanded] at runs
        dsimp only at runs
        split at runs
        · next laterRuns =>
          cases runs
          rcases ih laterRuns rest chain with written | ⟨other, member, writes⟩
          · rcases Trail.Writes.of_write expands written with older | writes
            · exact .inl older
            · exact .inr ⟨trail, List.mem_cons_self, writes⟩
          · exact .inr ⟨other, List.mem_cons_of_mem _ member, writes⟩
        · cases runs
    | declaration | typeDefinition | verbatim =>
      rw [Item.expandAll_other rfl] at runs
      split at runs
      · next laterRuns =>
        cases runs
        exact ih laterRuns sources chain
      · cases runs

namespace CompilationUnit

variable {configuration : Configuration} {unit : CompilationUnit} {registry : Registry}
  {trails : List Trail} {result : CompilationUnit}

theorem macroize_writes (formed : unit.IsFormed) {state after : RunState} {report : Report}
    (runs : (unit.macroize configuration).run state = .ok (report, result) after)
    (traced : unit.IsTraced configuration state.registry trails result) :
    ((unit.decision configuration).eligible = [] ∧ result = unit.normalized) ∨
      ∃ texts items, result = unit.placed configuration state.registry texts items ∧
        ∀ name text, texts.find? name = some text →
          ∃ trail ∈ trails, trail.Writes (unit.plan configuration state.registry) name text := by
  have outcome := macroize_outcome configuration formed state
  obtain ⟨last, snapshots⟩ := after
  rw [Run.outcome_ok_iff.mpr ⟨snapshots, runs⟩] at outcome
  split at outcome
  · next none =>
    cases outcome
    exact .inl ⟨List.isEmpty_iff.mp none, rfl⟩
  · dsimp only at outcome
    split at outcome
    · next processed left expanded =>
      obtain ⟨texts, items⟩ := processed
      cases outcome
      obtain ⟨_, chain⟩ := traced.chain
      refine .inr ⟨texts, items, rfl, fun name text found => ?_⟩
      have written := Item.expandAll_writes expanded traced.sources chain found
      exact written.resolve_left fun absent => by cases absent
    · cases outcome

/-! ## Names -/

def NamesTokens (unit : CompilationUnit) : Prop := ∀ name ∈ unit.identifiers, IsWhole name

theorem NamesTokens.eligible (tokens : unit.NamesTokens) :
    ∀ name ∈ (unit.decision configuration).eligible, IsWhole name := by
  intro name member
  obtain ⟨source, found, rfl, -⟩ := unit.mem_eligible_normalized configuration member
  exact tokens _ (name_mem_identifiers found)

theorem NamesTokens.namespaceName (_ : unit.NamesTokens) :
    Own [] (unit.planned configuration registry)
      (unit.plan configuration registry).namespaceName where
  used := ((unit.planned_issues configuration registry).used _).mpr
    (.inl (List.mem_append_right _ List.mem_cons_self))
  whole := Registry.isWhole_claim (by simp [IsWhole, Text.separatesPieces]) _
  other := List.not_mem_nil

theorem NamesTokens.macroName (tokens : unit.NamesTokens) {name macroName : String}
    (found : (unit.plan configuration registry).macros.find? name = some macroName) :
    Own [] (unit.planned configuration registry) macroName where
  used := unit.isKnown_used configuration (by
    rw [MacroPlan.isKnown, MacroPlan.isMacro_of_find? found, Bool.or_true])
  whole := Registry.isWhole_macroNamesFrom tokens.eligible _ _
    (Association.mem_of_mem_ofPairs (Association.mem_of_find? _ found))
  other := List.not_mem_nil

theorem NamesTokens.normalized (tokens : unit.NamesTokens) {function : Function}
    (member : function ∈ unit.normalized.functions) :
    AllOwn .nothing (unit.planned configuration registry) function.nodes := by
  rw [functions_normalized] at member
  obtain ⟨source, found, rfl⟩ := List.mem_map.mp member
  have own : ∀ name ∈ unit.identifiers, Own [] (unit.planned configuration registry) name :=
    fun name old => ⟨(unit.planned_issues configuration registry).mem_used
      (mem_reserved old registry), tokens name old, List.not_mem_nil⟩
  refine Function.within_normalize (fun _ => id) (Node.Within.mono
    (Node.spelled_iff.mpr fun name named => own name (mem_identifiers found named)) fun given isOwn => ?_)
  cases given <;> exact isOwn

theorem NamesTokens.flattened (tokens : unit.NamesTokens) {function : Function}
    (member : function ∈ Item.functions (unit.flattened configuration registry).1) :
    AllOwn .nothing (unit.flattened configuration registry).2 function.nodes := by
  obtain ⟨source, found, before, after, temporaries, body, flattening, older, last⟩ :=
    Item.mem_functions_flattenAll _ member
  have grows : (unit.planned configuration registry).used ⊆
      (unit.flattened configuration registry).2.used := Item.flattenAll_used _ _ _
  have normal {given : Function} (member : given ∈ unit.normalized.functions) :
      AllOwn .nothing (unit.flattened configuration registry).2 given.nodes :=
    (tokens.normalized member).later grows
  refine flattening.within (fun _ => id) (normal found) (fun callee type target => ?_)
    fun callee number isTarget inUse => ⟨last inUse, ?_, List.not_mem_nil⟩
  · obtain ⟨given, among, -, -, -, rfl⟩ :=
      mem_results.mp (Association.mem_of_find?_ofPairs target)
    exact (Function.within_nodes.mp (normal among)).2.1.1
  · exact Registry.isWhole_numbered
      ((tokens.eligible callee (mem_eligible_of_contains_results isTarget)).append
        (by simp [IsWhole, Text.separatesPieces])) number

/-- A processed function that has become a macro: the copies open its body, and the words behind them are apart from the
parameters. -/
theorem IsTraced.prepared (formed : unit.IsFormed) (tokens : unit.NamesTokens)
    (traced : unit.IsTraced configuration registry trails result) {trail : Trail} (member : trail ∈ trails)
    (isMacro : (unit.plan configuration registry).eligibility.isEligible trail.source.name) :
    ∃ first taken copies,
      trail.source.Prepared (unit.plan configuration registry) trail.before first taken copies ∧
        trail.result.body.OpensWith copies taken.Spares := by
  obtain ⟨callsNone, expands, older⟩ := traced.mem formed member
  have flat : trail.source ∈ Item.functions (unit.flattened configuration registry).1 := by
    rw [← traced.sources]
    exact List.mem_map_of_mem member
  have grows : (unit.planned configuration registry).used ⊆ trail.before.used :=
    fun _ old => older (Item.flattenAll_used _ _ _ old)
  have runs := Trail.expands_iff.mp expands
  rw [Trail.expansion, Trail.prepared, if_pos isMacro, if_pos isMacro] at runs
  have leading : Own [] trail.before (unit.plan configuration registry).namespaceName :=
    tokens.namespaceName.later grows
  obtain ⟨first, taken, copies, prepared⟩ :=
    Function.prepared ((tokens.flattened flat).later older) callsNone.form leading
  exact ⟨first, taken, copies, prepared, Pass.invokeMacros_opens prepared leading
    (fun name macroName found => (tokens.macroName found).later grows) runs⟩

theorem IsTraced.copiesOnce (formed : unit.IsFormed) (tokens : unit.NamesTokens)
    (traced : unit.IsTraced configuration registry trails result) {trail : Trail} (member : trail ∈ trails)
    (isMacro : (unit.plan configuration registry).eligibility.isEligible trail.source.name) :
    trail.result.body.CopiesOnce (trail.source.movableArguments
      (trail.source.prepare (unit.plan configuration registry) trail.before).arguments) := by
  obtain ⟨first, taken, copies, ⟨movable, ⟨middle, copied⟩, same, -⟩, opens⟩ :=
    traced.prepared formed tokens member isMacro
  rw [movable]
  exact opens.copiesOnce copied same

/-- Whether in some processed function that becomes a macro one of the arguments stands several
times. -/
def repeatsArgument (unit : CompilationUnit) : Bool :=
  !unit.failsAtFirst && !(unit.decision {}).eligible.isEmpty &&
    (unit.trails? {} {}).any fun trails => trails.any fun trail =>
      (unit.plan {} {}).eligibility.isEligible trail.source.name &&
        (trail.source.prepare (unit.plan {} {}) trail.before).arguments.any fun argument =>
          ((Node.allNames trail.result.body.nodes).flatMap Text.pieces).count argument != 1

end CompilationUnit

end InlineMacro
