import InlineMacro.Proofs.Run.ExpansionPaths
import Mathlib.Data.Set.Finite.Lattice
import Mathlib.Data.Set.Finite.List

/-!
# The order of expansions

Where no declaration brings back a name that an object hides, an invocation in a macro comes from a
visible call in its function. No function that becomes a macro reaches itself through such calls, so
no path of expansions comes to a macro twice, and there are finitely many paths.
-/

set_option autoImplicit false

namespace InlineMacro

namespace CompilationUnit

variable {configuration : Configuration} {unit : CompilationUnit} {registry : Registry}
  {trails : List Trail} {result : CompilationUnit}

/-! ## Invocations and calls -/

theorem find?_macros_injective {first second macroName : String}
    (found : (unit.plan configuration registry).macros.find? first = some macroName)
    (again : (unit.plan configuration registry).macros.find? second = some macroName) : first = second := by
  have issues := Registry.macroNamesFrom_issues (unit.decision configuration).eligible
    (registry.reserveAll unit.identifiers)
  have same := List.inj_on_of_nodup_map issues.unique (Association.mem_of_find?_ofPairs found)
    (Association.mem_of_find?_ofPairs again) rfl
  exact congrArg Prod.fst same

theorem callsDirectly_of_flattened (formed : unit.IsFormed)
    (apart : ∀ function ∈ unit.functions, function.braced.keepsApart) {flat : Function}
    (member : flat ∈ Item.functions (unit.flattened configuration registry).1)
    {occurrence : Occurrence Bindings}
    (stands : occurrence ∈ flat.calls (unit.plan configuration registry).macros.contains)
    (inBlock : occurrence.inBlock) (exposed : occurrence.scope.exposes occurrence.use.name) :
    ∃ name, occurrence.use = .called name ∧ unit.normalized.CallsDirectly flat.name name := by
  let known := (unit.plan configuration registry).macros.contains
  obtain ⟨function, functionMember, before, after, temporaries, body, form, flattening, older⟩ :=
    exists_flattened formed member
  have flattens := flattening.flattens known (fun _ => contains_macros_of_results registry) form.braced form.isBlock
  have site := List.mem_filter.mpr ⟨stands, inBlock⟩
  rw [flattening.sites_body flattens.isBlock fun name isKnown =>
    older (unit.isKnown_used configuration (Bool.or_eq_true _ _ ▸ .inl isKnown))] at site
  obtain ⟨entry, entryStands, rfl⟩ :=
    List.mem_map.mp (flattens.calls.subset (List.mem_filter.mp site).1)
  obtain ⟨sameUse, sameScope, -⟩ :=
    Occurrence.flattened_use (unit.decision configuration).results entry
  rw [sameUse, sameScope] at exposed
  have visible := Function.separated_calls form.braced form.isBlock
    (Function.keepsApart_normalize (apart function functionMember)) entry entryStands _ exposed
  obtain ⟨inside, name, called, isKnown⟩ := Occurrence.mem_callsAmong.mp entryStands
  have whole : entry ∈ function.normalize.occurrences (.bindings known) :=
    List.mem_append_right _ inside
  obtain ⟨seen, seenMember, seenUse, -, -, seenScope⟩ :=
    Function.occurrence_of_bindings whole (by rw [called]; exact isKnown)
  refine ⟨name, sameUse.trans called, function.normalize, ?_, ?_, seen, seenMember, ?_,
    seenUse.trans called⟩
  · exact unit.functions_normalized ▸ List.mem_map_of_mem functionMember
  · rw [flattening.result]
  · rw [Occurrence.isVisible, seenScope, visible]
    rfl

theorem IsTraced.callsDirectly (formed : unit.IsFormed)
    (apart : ∀ function ∈ unit.functions, function.braced.keepsApart)
    (traced : unit.IsTraced configuration registry trails result) {site : Site} {token : String}
    {target : Nat} {caller called : Trail} (callerFound : trails[site.function]? = some caller)
    (calledFound : trails[target]? = some called)
    (isMacro : (unit.plan configuration registry).eligibility.isEligible caller.source.name)
    (invokes : Trail.Invokes (unit.plan configuration registry) trails site token target) :
    unit.normalized.CallsDirectly caller.source.name called.source.name := by
  obtain ⟨otherCaller, otherCalled, invocation, sameCaller, found, -, sameCalled, -, named⟩ := invokes
  obtain rfl := Option.some.inj (callerFound.symm.trans sameCaller)
  obtain rfl := Option.some.inj (calledFound.symm.trans sameCalled)
  have callerMember := List.mem_of_getElem? callerFound
  obtain ⟨callsNone, expands, older⟩ := traced.mem formed callerMember
  have flatMember : caller.source ∈ Item.functions (unit.flattened configuration registry).1 := by
    rw [← traced.sources]
    exact List.mem_map_of_mem callerMember
  have old : ∀ name, (unit.plan configuration registry).macros.contains name →
      name ∈ caller.before.used := fun name contained =>
    older (planned_old registry name (Bool.or_eq_true _ _ ▸ .inl contained))
  obtain ⟨tokens, -, -, invocations⟩ := (Trail.invokedFrom callsNone
    (fun name isMacro => older (isMacro_used registry name isMacro)) expands).tokens
  rw [Trail.expansion_macros, Trail.prepared, if_pos isMacro] at invocations
  rw [invocations, List.getElem?_zipWith_eq_some] at found
  obtain ⟨name, number, nameFound, -, rfl⟩ := found
  obtain ⟨occurrence, among, rfl⟩ := List.mem_map.mp (List.mem_of_getElem? nameFound)
  obtain ⟨stands, invoked⟩ := List.mem_filter.mp among
  obtain ⟨invocable, visible⟩ := Bool.and_eq_true _ _ ▸ invoked
  have inBlock := (Bool.and_eq_true _ _ ▸ invocable).1
  obtain ⟨entry, entryAmong, sameUse, sameScope, sameBlock⟩ :=
    ((caller.source.prepare_traces (unit.plan configuration registry) callsNone.form old).calls
      occurrence stands (.inl inBlock))
  obtain ⟨flat, flatKept, rfl⟩ := List.mem_map.mp entryAmong
  obtain ⟨flatStands, notObject⟩ := List.mem_filter.mp flatKept
  have exposed : flat.scope.exposes flat.use.name := by
    rw [sameUse, sameScope] at visible
    change (!flat.scope.renamed.hides flat.use.name) = true at visible
    rw [Bindings.hides_renamed] at visible
    rw [Bindings.exposes, notObject, visible]
    rfl
  obtain ⟨callee, calledUse, calls⟩ := callsDirectly_of_flattened formed apart flatMember flatStands
    (sameBlock ▸ inBlock) exposed
  obtain ⟨-, given, givenUse, isKnown⟩ := Occurrence.mem_callsAmong.mp stands
  have sameName : occurrence.use.name = callee := by
    rw [sameUse]
    exact congrArg Use.name calledUse
  obtain ⟨macroName, macroFound⟩ := Option.isSome_iff_exists.mp isKnown
  have sameGiven : given = callee := by
    rw [← sameName, givenUse]
    rfl
  rw [sameGiven] at macroFound
  have calledMacro : (unit.plan configuration registry).macros.find? called.source.name =
      some macroName := by
    rw [named, Expansion.invocation, Trail.expansion_macros, sameName, macroFound]
    rfl
  rw [find?_macros_injective calledMacro macroFound]
  exact calls

/-! ## Paths are finite -/

theorem not_reachesItself {name : String}
    (isMacro : (unit.plan configuration registry).eligibility.isEligible name) :
    ¬ unit.normalized.ReachesItself name := by
  obtain ⟨function, -, rfl, qualifies⟩ := mem_eligible.mp (List.contains_iff_mem.mp isMacro)
  exact qualifies.notRecursive

theorem IsTraced.visited (formed : unit.IsFormed)
    (apart : ∀ function ∈ unit.functions, function.braced.keepsApart)
    (traced : unit.IsTraced configuration registry trails result) {sites : List Site}
    {tokens : List String} {target : Nat}
    (path : Trail.Path (unit.plan configuration registry) trails sites tokens target) :
    ∃ called : Trail, trails[target]? = some called ∧
      (unit.plan configuration registry).eligibility.isEligible called.source.name ∧
      ∃ names : List String, names.Nodup ∧ names.length = sites.length ∧
        names ⊆ (unit.decision configuration).eligible ∧
        ∀ name ∈ names, Relation.ReflTransGen unit.normalized.CallsDirectly name called.source.name := by
  induction path with
  | first outside invokes =>
    obtain ⟨-, called, -, -, -, -, found, isMacro, -⟩ := invokes
    refine ⟨called, found, isMacro, [called.source.name], List.nodup_singleton _, rfl, ?_, ?_⟩
    · exact List.forall_mem_singleton.mpr (List.contains_iff_mem.mp isMacro)
    · exact List.forall_mem_singleton.mpr .refl
  | next path invokes ih =>
    obtain ⟨caller, callerFound, callerMacro, names, unique, length, eligible, lead⟩ := ih
    obtain ⟨-, called, -, -, -, -, found, isMacro, -⟩ := id invokes
    have calls := traced.callsDirectly formed apart callerFound found callerMacro invokes
    refine ⟨called, found, isMacro, names ++ [called.source.name], ?_, ?_, ?_, ?_⟩
    · refine List.nodup_append.mpr ⟨unique, List.nodup_singleton _, ?_⟩
      rintro name visited _ again rfl
      rw [List.mem_singleton.mp again] at visited
      exact not_reachesItself isMacro (.tail' (lead _ visited) calls)
    · rw [List.length_append, List.length_append, length]
      rfl
    · exact List.append_subset.mpr
        ⟨eligible, List.forall_mem_singleton.mpr (List.contains_iff_mem.mp isMacro)⟩
    · refine List.forall_mem_append.mpr ⟨fun name visited => (lead name visited).tail calls, ?_⟩
      exact List.forall_mem_singleton.mpr .refl

end CompilationUnit

namespace Trail

def sites (plan : MacroPlan) (trails : List Trail) : Set Site :=
  { site | ∃ trail, trails[site.function]? = some trail ∧
    site.number < (trail.result.invocations plan.isMacro).length }

variable {plan : MacroPlan} {trails : List Trail}

theorem sites_finite : (sites plan trails).Finite := by
  let inFunction (function : Nat) : Set Site :=
    Site.mk function '' { number | number < (trails[function]?.map fun trail =>
      (trail.result.invocations plan.isMacro).length).getD 0 }
  have covered :
      sites plan trails ⊆ ⋃ function ∈ { number | number < trails.length }, inFunction function := by
    rintro ⟨function, number⟩ ⟨trail, found, lower⟩
    refine Set.mem_biUnion (show function ∈ { number | number < trails.length } from ?_) ⟨number, ?_, rfl⟩
    · exact (List.getElem?_eq_some_iff.mp found).1
    · rw [found]
      exact lower
  exact ((Set.finite_lt_nat _).biUnion fun function _ =>
    (Set.finite_lt_nat _).image (Site.mk function)).subset covered

theorem Invokes.mem_sites {site : Site} {token : String} {target : Nat}
    (invokes : Invokes plan trails site token target) : site ∈ sites plan trails := by
  obtain ⟨caller, -, invocation, processed, found, -⟩ := invokes
  exact ⟨caller, processed, (List.getElem?_eq_some_iff.mp found).1⟩

theorem Path.mem_sites {visited : List Site} {tokens : List String} {target : Nat}
    (path : Path plan trails visited tokens target) :
    (∀ site ∈ visited, site ∈ sites plan trails) ∧ target < trails.length := by
  induction path with
  | first outside invokes =>
    have member := invokes.mem_sites
    obtain ⟨-, called, -, -, -, -, found, -⟩ := invokes
    exact ⟨List.forall_mem_singleton.mpr member, (List.getElem?_eq_some_iff.mp found).1⟩
  | next path invokes ih =>
    have member := invokes.mem_sites
    obtain ⟨-, called, -, -, -, -, found, -⟩ := invokes
    exact ⟨List.forall_mem_append.mpr ⟨ih.1, List.forall_mem_singleton.mpr member⟩,
      (List.getElem?_eq_some_iff.mp found).1⟩

def paths (plan : MacroPlan) (trails : List Trail) : Set (List Site × Nat) :=
  { path | ∃ tokens, Path plan trails path.1 tokens path.2 }

theorem paths_finite_of_length {bound : Nat}
    (bounded : ∀ path ∈ paths plan trails, path.1.length ≤ bound) : (paths plan trails).Finite := by
  have : Finite (sites plan trails) := sites_finite
  have lists : (List.map Subtype.val '' { visited : List (sites plan trails) |
      visited.length ≤ bound }).Finite :=
    (List.finite_length_le (sites plan trails) bound).image _
  refine (lists.prod (Set.finite_lt_nat trails.length)).subset ?_
  rintro ⟨visited, target⟩ member
  have short := bounded _ member
  obtain ⟨tokens, path⟩ := member
  obtain ⟨among, lower⟩ := path.mem_sites
  lift visited to List (sites plan trails) using among
  refine ⟨⟨visited, ?_, rfl⟩, lower⟩
  simpa using short

end Trail

namespace CompilationUnit

variable {configuration : Configuration} {unit : CompilationUnit} {registry : Registry}
  {trails : List Trail} {result : CompilationUnit}

theorem IsTraced.paths_finite (formed : unit.IsFormed)
    (apart : ∀ function ∈ unit.functions, function.braced.keepsApart)
    (traced : unit.IsTraced configuration registry trails result) :
    (Trail.paths (unit.plan configuration registry) trails).Finite := by
  refine Trail.paths_finite_of_length (?_ : ∀ path ∈ _, _ ≤ (unit.decision configuration).eligible.length)
  rintro ⟨sites, target⟩ ⟨tokens, path⟩
  obtain ⟨-, -, -, names, unique, length, eligible, -⟩ := traced.visited formed apart path
  rw [← length]
  exact (List.subperm_of_subset unique eligible).length_le

/-- No two paths of expansions end in the same label, and where no declaration brings back a name that
an object hides, there are finitely many. -/
theorem macroize_labels_unique {text file : String} {typedefs : List String}
    (parses : CompilationUnit.parse text file typedefs = .ok unit) {state after : RunState}
    {report : Report}
    (runs : (unit.macroize configuration).run state = .ok (report, result) after) :
    ((unit.decision configuration).eligible = [] ∧ result = unit.normalized) ∨
      ∃ trails, unit.IsTraced configuration state.registry trails result ∧
        (∀ first second target other label,
          Trail.Labels (unit.plan configuration state.registry) trails first target label →
          Trail.Labels (unit.plan configuration state.registry) trails second other label →
            first = second ∧ target = other) ∧
        ((∀ function ∈ unit.functions, function.braced.keepsApart) →
          (Trail.paths (unit.plan configuration state.registry) trails).Finite) := by
  have formed := isFormed_of_parse parses
  refine (macroize_traced formed runs).imp_right fun ⟨trails, traced⟩ => ⟨trails, traced, ?_, ?_⟩
  · exact fun _ _ _ _ _ labels again => traced.labels_unique formed labels again
  · exact fun apart => traced.paths_finite formed apart

theorem macroize_labels_unique_in_nested_macros :
    ∃ unit, CompilationUnit.parse
        "inline int g(int n) \x7b if (n) return 1; return n; \x7d
          inline int f(int n) \x7b n = g(n); if (n) return g(g(n)); return 0; \x7d
          int main(void) \x7b int x = f(g(2)); x = f(3); return x; \x7d" = .ok unit ∧
      ∃ report result after, (unit.macroize {}).run ⟨{}, []⟩ = .ok (report, result) after ∧
        ∃ trails, unit.IsTraced {} {} trails result ∧
          (∀ first second target other label,
            Trail.Labels (unit.plan {} {}) trails first target label →
            Trail.Labels (unit.plan {} {}) trails second other label →
              first = second ∧ target = other) ∧
          (Trail.paths (unit.plan {} {}) trails).Finite := by
  refine exists_parsed _ (fun unit => !unit.failsAtFirst && !(unit.decision {}).eligible.isEmpty &&
    unit.functions.all fun function => function.braced.keepsApart) (by decide +kernel) ?_
  intro unit parses checked
  obtain ⟨ends, apart⟩ := Bool.and_eq_true _ _ ▸ checked
  obtain ⟨some, report, result, after, runs⟩ := exists_run_with_macros ends
  obtain ⟨trails, traced, unique, finite⟩ :=
    (macroize_labels_unique parses runs).resolve_left fun none => some none.1
  exact ⟨report, result, after, runs, trails, traced, unique, finite (List.all_eq_true.mp apart)⟩

/-! ## A macro that expands itself -/

def invokesAt (unit : CompilationUnit) (trails : List Trail) (site : Site) (target : Nat) : Bool :=
  match trails[site.function]?, trails[target]? with
  | some caller, some called =>
    (unit.plan {} {}).eligibility.isEligible called.source.name &&
      (caller.result.invocations (unit.plan {} {}).isMacro)[site.number]?.any fun invocation =>
        (unit.plan {} {}).macros.find? called.source.name == some invocation.macroName
  | _, _ => false

theorem IsTraced.invokes_of_invokesAt (formed : unit.IsFormed)
    (traced : unit.IsTraced {} {} trails result) {site : Site} {target : Nat}
    (stands : unit.invokesAt trails site target) :
    ∃ token, Trail.Invokes (unit.plan {} {}) trails site token target := by
  unfold invokesAt at stands
  split at stands
  · next caller called callerFound calledFound =>
    obtain ⟨isMacro, invoked⟩ := Bool.and_eq_true _ _ ▸ stands
    obtain ⟨invocation, found, named⟩ := (Option.any_eq_true _ _).mp invoked
    obtain ⟨token, -, space, -⟩ := traced.exists_token formed callerFound found
    exact ⟨token, caller, called, invocation, callerFound, found, space, calledFound, isMacro,
      beq_iff_eq.mp named⟩
  · cases stands

def expandsItself (unit : CompilationUnit) : Bool :=
  !unit.failsAtFirst && !(unit.decision {}).eligible.isEmpty &&
    (unit.trails? {} {}).any fun trails =>
      unit.invokesAt trails ⟨1, 0⟩ 0 && unit.invokesAt trails ⟨0, 0⟩ 0 &&
        trails[1]?.any fun caller => !(unit.plan {} {}).eligibility.isEligible caller.source.name

/-- A prototype in a block brings back the name of a function that a parameter hides, and the macro
of the function invokes itself. -/
theorem macroize_expands_without_end :
    ∃ unit, CompilationUnit.parse
        "inline void f(int f) \x7b \x7b void f(int); f(1); \x7d \x7d
          int main(void) \x7b f(2); return 0; \x7d" = .ok unit ∧
      ∃ report result after, (unit.macroize {}).run ⟨{}, []⟩ = .ok (report, result) after ∧
        ∃ trails, unit.IsTraced {} {} trails result ∧
          ¬ (Trail.paths (unit.plan {} {}) trails).Finite := by
  refine exists_parsed _ expandsItself (by decide +kernel) ?_
  intro unit parses checked
  obtain ⟨ends, followed⟩ := Bool.and_eq_true _ _ ▸ checked
  obtain ⟨some, report, result, after, runs⟩ := exists_run_with_macros ends
  have formed := isFormed_of_parse parses
  obtain ⟨trails, traced⟩ := (macroize_traced formed runs).resolve_left fun none => some none.1
  refine ⟨report, result, after, runs, trails, traced, ?_⟩
  rw [traced.trails?_eq, Option.any_some, Bool.and_eq_true, Bool.and_eq_true] at followed
  obtain ⟨⟨fromOutside, fromInside⟩, outside⟩ := followed
  obtain ⟨caller, callerFound, notMacro⟩ := (Option.any_eq_true _ _).mp outside
  obtain ⟨start, starts⟩ := traced.invokes_of_invokesAt formed fromOutside
  obtain ⟨token, again⟩ := traced.invokes_of_invokesAt formed fromInside
  have path : ∀ depth, ∃ tokens, Trail.Path (unit.plan {} {}) trails
      (⟨1, 0⟩ :: List.replicate depth ⟨0, 0⟩) tokens 0 := by
    intro depth
    induction depth with
    | zero => exact ⟨_, .first ⟨caller, callerFound, by simpa using notMacro⟩ starts⟩
    | succ depth ih =>
      obtain ⟨tokens, path⟩ := ih
      rw [List.replicate_succ', ← List.cons_append]
      exact ⟨_, path.next again⟩
  let visited (depth : Nat) : List Site × Nat := (⟨1, 0⟩ :: List.replicate depth ⟨0, 0⟩, 0)
  refine Set.infinite_of_injective_forall_mem (show Function.Injective visited from ?_) path
  intro first second same
  simpa [visited] using congrArg (fun path => path.1.length) same

end CompilationUnit

/-!
## Labels of expansions and the names of a unit

The tokens on a path and the label behind them are new, but the spelling that they are joined to is
not looked up anywhere. It stands nowhere in the unit all the same, unless the unit has a name that is
joined like it from pieces none of which stands in the unit: a registry never gives out one that does.
-/

namespace Registry

/-- Names spelled like tokens, and behind them one spelled like a label. -/
structure IsJoinable (tokens : List String) (exit : String) : Prop where
  some : tokens ≠ []
  tokens : ∀ token ∈ tokens, ∃ number, token = numbered "ns" number
  exit : ∃ number, exit = numbered "exit" number

variable {tokens others : List String} {exit otherExit : String}

theorem IsJoinable.unique (joinable : IsJoinable tokens exit) (other : IsJoinable others otherExit)
    (same : spelled tokens exit = spelled others otherExit) : tokens = others ∧ exit = otherExit := by
  obtain ⟨number, rfl⟩ := joinable.exit
  obtain ⟨otherNumber, rfl⟩ := other.exit
  obtain ⟨sameTokens, sameExit⟩ := spelled_injective joinable.tokens other.tokens same
  exact ⟨sameTokens, congrArg _ sameExit⟩

theorem IsJoinable.starts (joinable : IsJoinable tokens exit) :
    "ns_".toList <+: (spelled tokens exit).toList := by
  obtain ⟨token, rest, rfl⟩ := List.exists_cons_of_ne_nil joinable.some
  obtain ⟨number, rfl⟩ := joinable.tokens token List.mem_cons_self
  exact ⟨Nat.toDigits 10 number ++ (spelled rest exit).toList,
    (toList_numbered_append "ns" number (spelled rest exit)).symm⟩

end Registry

namespace CompilationUnit

variable {configuration : Configuration} {unit : CompilationUnit} {registry : Registry}
  {trails : List Trail} {result : CompilationUnit}

/-- Each name of a unit that is joined like the label of an expansion has a piece that is a name of the
unit itself. -/
def JoinsKnownNames (unit : CompilationUnit) : Prop :=
  ∀ tokens exit, Registry.IsJoinable tokens exit →
    Registry.spelled tokens exit ∈ unit.identifiers →
    ∃ piece ∈ exit :: tokens, piece ∈ unit.identifiers

theorem IsTraced.exists_pieces (formed : unit.IsFormed)
    (traced : unit.IsTraced configuration registry trails result) {sites : List Site}
    {target : Nat} {label : String}
    (labels : Trail.Labels (unit.plan configuration registry) trails sites target label) :
    ∃ tokens exit, label = Registry.spelled tokens exit ∧ Registry.IsJoinable tokens exit ∧
      ∀ piece ∈ exit :: tokens, piece ∉ unit.identifiers := by
  obtain ⟨tokens, called, exit, path, found, eligible, exited, rfl⟩ := labels
  obtain ⟨numbers, made⟩ := traced.tokens_of_path formed path
  obtain ⟨after, accounts⟩ := traced.accounts formed
  have fresh {origin : Origin} {name : String}
      (introduced : unit.Introduces configuration registry trails origin name) :
      name ∉ unit.identifiers := fun old => accounts.fresh introduced (mem_reserved old registry)
  have some : tokens ≠ [] := by
    cases path with
    | first => exact List.cons_ne_nil _ _
    | next => exact List.append_ne_nil_of_right_ne_nil _ (List.cons_ne_nil _ _)
  refine ⟨tokens, exit, rfl, ⟨some, numbers, Trail.exit_numbered exited⟩, ?_⟩
  refine List.forall_mem_cons.mpr ⟨fresh (.processed found (.exit eligible exited)), ?_⟩
  intro token member
  obtain ⟨sameLength, each⟩ := List.forall₂_iff_get.mp made
  obtain ⟨index, lower, rfl⟩ := List.getElem_of_mem member
  exact fresh (each index (sameLength ▸ lower) lower)

/-- Where no name of a unit is joined like a label from pieces that are all new, the labels of
expansions stand nowhere in it. -/
theorem macroize_labels_fresh {text file : String} {typedefs : List String}
    (parses : CompilationUnit.parse text file typedefs = .ok unit) (known : unit.JoinsKnownNames)
    {state after : RunState} {report : Report}
    (runs : (unit.macroize configuration).run state = .ok (report, result) after) :
    ((unit.decision configuration).eligible = [] ∧ result = unit.normalized) ∨
      ∃ trails, unit.IsTraced configuration state.registry trails result ∧
        ∀ sites target label,
          Trail.Labels (unit.plan configuration state.registry) trails sites target label →
            label ∉ unit.identifiers := by
  have formed := isFormed_of_parse parses
  refine (macroize_traced formed runs).imp_right fun ⟨trails, traced⟩ => ⟨trails, traced, ?_⟩
  intro sites target label labels old
  obtain ⟨tokens, exit, rfl, joinable, fresh⟩ := traced.exists_pieces formed labels
  obtain ⟨piece, among, inUnit⟩ := known tokens exit joinable old
  exact fresh piece among inUnit

theorem macroize_labels_fresh_beside_piece :
    ∃ unit, CompilationUnit.parse
        "inline int f(int n) \x7b if (n) return 1; return 2; \x7d
          int main(void) \x7b int exit_4 = f(1); ns_5exit_4: return exit_4; \x7d" = .ok unit ∧
      unit.JoinsKnownNames ∧
      ∃ report result after, (unit.macroize {}).run ⟨{}, []⟩ = .ok (report, result) after ∧
        ∃ trails, unit.IsTraced {} {} trails result ∧ ∀ sites target label,
          Trail.Labels (unit.plan {} {}) trails sites target label → label ∉ unit.identifiers := by
  refine exists_parsed _ (fun unit => !unit.failsAtFirst && !(unit.decision {}).eligible.isEmpty &&
    unit.identifiers.contains "exit_4" && unit.identifiers.all fun name =>
      name == "ns_5exit_4" || !"ns_".toList.isPrefixOf name.toList) (by decide +kernel) ?_
  intro unit parses checked
  obtain ⟨others, only⟩ := Bool.and_eq_true _ _ ▸ checked
  obtain ⟨ends, piece⟩ := Bool.and_eq_true _ _ ▸ others
  have known : unit.JoinsKnownNames := by
    intro tokens exit joinable member
    rcases Bool.or_eq_true _ _ ▸ List.all_eq_true.mp only _ member with same | starts
    · have pieces : Registry.IsJoinable ["ns_5"] "exit_4" :=
        ⟨by simp, by simpa using ⟨5, rfl⟩, ⟨4, rfl⟩⟩
      obtain ⟨-, rfl⟩ := joinable.unique pieces (beq_iff_eq.mp same)
      exact ⟨_, List.mem_cons_self, List.contains_iff_mem.mp piece⟩
    · rw [List.isPrefixOf_iff_prefix.mpr joinable.starts] at starts
      cases starts
  obtain ⟨some, report, result, after, runs⟩ := exists_run_with_macros ends
  exact ⟨known, report, result, after, runs,
    (macroize_labels_fresh parses known runs).resolve_left fun none => some none.1⟩

/-! ### A label of an expansion that a unit has already -/

/-- Whether the macro of the first function, with its label, is invoked first in the second one with
a token, so that the joined label stands in the unit. -/
def joinsLabel (unit : CompilationUnit) (token exit : String) : Bool :=
  !unit.failsAtFirst && !(unit.decision {}).eligible.isEmpty &&
    unit.identifiers.contains (Registry.spelled [token] exit) &&
      (unit.trails? {} {}).any fun trails => trails[0]?.any fun called => trails[1]?.any fun caller =>
        unit.invokesAt trails ⟨1, 0⟩ 0 &&
          !(unit.plan {} {}).eligibility.isEligible caller.source.name &&
          (caller.result.invocations (unit.plan {} {}).isMacro)[0]?.any (fun invocation =>
            invocation.space == (caller.expansion (unit.plan {} {})).space token) &&
          (called.source.prepare (unit.plan {} {}) called.before).exit == some exit

/-- A label of the unit is joined like that of an expansion, and is written a second time. -/
theorem macroize_labels_clash :
    ∃ unit, CompilationUnit.parse
        "inline int f(int n) \x7b if (n) return 1; return 2; \x7d
          int main(void) \x7b int y; y = f(1); ns_5exit_4: return y; \x7d" = .ok unit ∧
      ∃ report result after, (unit.macroize {}).run ⟨{}, []⟩ = .ok (report, result) after ∧
        ∃ trails, unit.IsTraced {} {} trails result ∧ ∃ sites target label,
          Trail.Labels (unit.plan {} {}) trails sites target label ∧ label ∈ unit.identifiers := by
  refine exists_parsed _ (fun unit => unit.joinsLabel "ns_5" "exit_4") (by decide +kernel) ?_
  intro unit parses checked
  obtain ⟨others, followed⟩ := Bool.and_eq_true _ _ ▸ checked
  obtain ⟨ends, old⟩ := Bool.and_eq_true _ _ ▸ others
  obtain ⟨some, report, result, after, runs⟩ := exists_run_with_macros ends
  have formed := isFormed_of_parse parses
  obtain ⟨trails, traced⟩ := (macroize_traced formed runs).resolve_left fun none => some none.1
  rw [traced.trails?_eq, Option.any_some] at followed
  obtain ⟨called, calledFound, followed⟩ := (Option.any_eq_true _ _).mp followed
  obtain ⟨caller, callerFound, followed⟩ := (Option.any_eq_true _ _).mp followed
  simp only [Bool.and_eq_true, Option.any_eq_true, beq_iff_eq, Bool.not_eq_true'] at followed
  obtain ⟨⟨⟨invokes, outside⟩, invocation, found, space⟩, exited⟩ := followed
  unfold invokesAt at invokes
  simp only [callerFound, calledFound, found, Bool.and_eq_true, Option.any_some, beq_iff_eq] at invokes
  exact ⟨report, result, after, runs, trails, traced, [⟨1, 0⟩], 0, _,
    ⟨_, called, "exit_4", .first ⟨caller, callerFound, outside⟩ ⟨caller, called, invocation, callerFound,
      found, space, calledFound, invokes.1, invokes.2⟩, calledFound, invokes.1, exited, rfl⟩,
    List.contains_iff_mem.mp old⟩

end CompilationUnit

end InlineMacro
