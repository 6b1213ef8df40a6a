import InlineMacro.Proofs.Pass.RenameNames
import InlineMacro.Proofs.Run.Success

/-!
# Names that a run makes up

The macros, the temporaries of all functions and then the names in each processed function get their
names one after another from one registry, in which the names of the unit are in use from the start.
So a name that a run makes up stands nowhere in the unit, and it is made up for one thing only.
-/

set_option autoImplicit false

namespace InlineMacro

/-! ## Temporaries -/

def Item.temporariesAll (results : Association CType) : List Item → Registry → List (List String)
  | [], _ => []
  | .function definition :: items, registry =>
    (definition.temporaries results registry).map Declaration.name ::
      Item.temporariesAll results items (definition.flattenCalls results registry).2
  | _ :: items, registry => Item.temporariesAll results items registry

def IntroducesTemporaries (start : Nat) (names : List (List String)) (origin : Origin)
    (name : String) : Prop :=
  ∃ function number temporaries, origin = .temporary (start + function) number ∧
    names[function]? = some temporaries ∧ temporaries[number]? = some name

theorem Item.temporariesAll_accounts (results : Association CType) (items : List Item) (start : Nat)
    (registry : Registry) : Registry.Accounts registry (Item.flattenAll results items registry).2
      (IntroducesTemporaries start (Item.temporariesAll results items registry)) := by
  induction items generalizing start registry with
  | nil =>
    refine .nothing registry ?_
    rintro origin name ⟨function, number, temporaries, -, found, -⟩
    cases found
  | cons item items ih =>
    cases item with
    | function definition =>
      obtain ⟨body, flattening⟩ :=
        definition.flattenCalls_flattening_temporaries results registry
      have here : Registry.Accounts registry (definition.flattenCalls results registry).2
          (fun origin name => ∃ number, origin = .temporary start number ∧
            ((definition.temporaries results registry).map Declaration.name)[number]? = some name) :=
        .ofNumbered flattening.issues (.temporary start) fun _ _ made => made
      refine here.trans (ih (start + 1) _) ?_
      rintro origin name ⟨function, number, temporaries, rfl, found, made⟩
      cases function with
      | zero =>
        cases found
        exact .inl ⟨number, rfl, made⟩
      | succ function =>
        exact .inr ⟨function, number, temporaries, by rw [Nat.add_right_comm]; rfl, found, made⟩
    | declaration | typeDefinition | verbatim => exact ih start registry

/-! ## Processed functions -/

/-- The names that are made up while the function with a number is processed. -/
inductive Trail.Introduces (plan : MacroPlan) (number : Nat) (trail : Trail) :
    Origin → String → Prop where
  | renamed {origin : Origin} {name : String}
      (isMacro : plan.eligibility.isEligible trail.source.name)
      (renames : trail.source.Renames number trail.before origin name) :
      Introduces plan number trail origin name
  | pointer {name : String} (isMacro : plan.eligibility.isEligible trail.source.name)
      (named : (trail.source.prepare plan trail.before).pointer = some name) :
      Introduces plan number trail (.pointer number) name
  | exit {name : String} (isMacro : plan.eligibility.isEligible trail.source.name)
      (named : (trail.source.prepare plan trail.before).exit = some name) :
      Introduces plan number trail (.exit number) name
  | token {index : Nat} {name : String} {invocation : Invocation}
      (found : (trail.result.invocations plan.isMacro)[index]? = some invocation)
      (space : invocation.space = (trail.expansion plan).space name) :
      Introduces plan number trail (.token number index) name

def Trail.IntroducedAmong (plan : MacroPlan) (start : Nat) (trails : List Trail) (origin : Origin)
    (name : String) : Prop :=
  ∃ index, ∃ trail : Trail, trails[index]? = some trail ∧
    trail.Introduces plan (start + index) origin name

theorem Expansion.space_injective (expansion : Expansion) {first second : String}
    (same : expansion.space first = expansion.space second) : first = second := by
  unfold Expansion.space at same
  split at same
  · have spelled := congrArg String.toList same
    simp only [String.toList_append, List.append_cancel_left_eq] at spelled
    exact String.toList_inj.mp spelled
  · exact same

namespace Preparation

variable (plan : MacroPlan) (name : String) (preparation : Preparation)

theorem point_issues (without : preparation.pointer = none) :
    Registry.Issues preparation.registry (preparation.point plan name).registry
      (preparation.point plan name).pointer.toList := by
  unfold point
  split
  · exact Registry.fresh_issues "retval" preparation.registry
  · rw [without]
    exact .nothing _

theorem linearize_issues (without : preparation.exit = none) :
    Registry.Issues preparation.registry preparation.linearize.registry
      preparation.linearize.exit.toList := by
  unfold linearize
  split
  · exact Registry.fresh_issues "exit" preparation.registry
  · rw [without]
    exact .nothing _

theorem exit_point : (preparation.point plan name).exit = preparation.exit := by
  unfold point
  split <;> rfl

theorem pointer_linearize : preparation.linearize.pointer = preparation.pointer := by
  unfold linearize
  split <;> rfl

end Preparation

theorem Function.prepare_accounts (plan : MacroPlan) (number : Nat) {function : Function}
    (form : function.IsBraced) (registry : Registry) :
    Registry.Accounts registry (function.prepare plan registry).registry fun origin name =>
      function.Renames number registry origin name ∨
        (origin = .pointer number ∧ (function.prepare plan registry).pointer = some name) ∨
        (origin = .exit number ∧ (function.prepare plan registry).exit = some name) := by
  let renamed := Preparation.rename function registry
  have objects : Registry.Accounts registry renamed.registry (function.Renames number registry) :=
    function.renameLocals_accounts number registry form.isBlock
  have pointers := Preparation.point_issues plan function.name renamed rfl
  have exits := Preparation.linearize_issues (renamed.point plan function.name)
    (Preparation.exit_point plan function.name renamed)
  have samePointer : (function.prepare plan registry).pointer = (renamed.point plan function.name).pointer :=
    Preparation.pointer_linearize (renamed.point plan function.name)
  have atPointer : Registry.Accounts renamed.registry (renamed.point plan function.name).registry
      fun origin name => origin = .pointer number ∧ (function.prepare plan registry).pointer = some name :=
    .ofOption pointers (.pointer number) fun _ _ made => ⟨made.1, samePointer ▸ made.2⟩
  have atExit : Registry.Accounts (renamed.point plan function.name).registry
      (function.prepare plan registry).registry
      fun origin name => origin = .exit number ∧ (function.prepare plan registry).exit = some name :=
    .ofOption exits (.exit number) fun _ _ made => made
  exact objects.trans (atPointer.trans atExit fun _ _ made => made) fun _ _ made => made

namespace Trail

variable {plan : MacroPlan} {trail : Trail}

theorem tokens (callsNone : trail.source.CallsNoMacro plan)
    (old : ∀ name, plan.isMacro name → name ∈ trail.before.used) (expands : trail.Expands plan) :
    ∃ tokens, Registry.Numbers "ns" (trail.prepared plan).2 trail.after tokens ∧
      (trail.result.invocations plan.isMacro).map Invocation.space =
        tokens.map (trail.expansion plan).space := by
  obtain ⟨tokens, numbers, length, invocations⟩ := (invokedFrom callsNone old expands).tokens
  refine ⟨tokens, numbers, ?_⟩
  rw [invocations, List.map_zipWith]
  generalize Occurrence.invoked _ = calls at length
  calc List.zipWith (fun _ token => (trail.expansion plan).space token) calls tokens
    _ = ((calls.zip tokens).map Prod.snd).map (trail.expansion plan).space := by
      rw [List.map_map]
      exact List.map_uncurry_zip_eq_zipWith.symm
    _ = tokens.map (trail.expansion plan).space := by rw [List.map_snd_zip (Nat.le_of_eq length)]

theorem accounts (number : Nat) (callsNone : trail.source.CallsNoMacro plan)
    (old : ∀ name, plan.isMacro name → name ∈ trail.before.used) (expands : trail.Expands plan) :
    Registry.Accounts trail.before trail.after (trail.Introduces plan number) := by
  obtain ⟨tokens, numbers, spaces⟩ := tokens callsNone old expands
  have atTokens : Registry.Accounts (trail.prepared plan).2 trail.after fun origin name =>
      ∃ index, origin = .token number index ∧ tokens[index]? = some name :=
    .ofNumbered numbers.toIssues (.token number) fun _ _ made => made
  have token : ∀ {index : Nat} {name : String} {invocation : Invocation},
      (trail.result.invocations plan.isMacro)[index]? = some invocation →
        invocation.space = (trail.expansion plan).space name → tokens[index]? = some name := by
    intro index name invocation found space
    have spaced : (tokens.map (trail.expansion plan).space)[index]? = some invocation.space := by
      rw [← spaces, List.getElem?_map, found]
      rfl
    rw [List.getElem?_map, Option.map_eq_some_iff] at spaced
    obtain ⟨token, among, same⟩ := spaced
    rw [among, (trail.expansion plan).space_injective (same.trans space)]
  unfold prepared at atTokens
  cases isMacro : plan.eligibility.isEligible trail.source.name with
  | true =>
    rw [if_pos isMacro] at atTokens
    refine (trail.source.prepare_accounts plan number callsNone.form trail.before).trans atTokens ?_
    intro origin name made
    cases made with
    | renamed isMacro renames => exact .inl (.inl renames)
    | pointer isMacro named => exact .inl (.inr (.inl ⟨rfl, named⟩))
    | exit isMacro named => exact .inl (.inr (.inr ⟨rfl, named⟩))
    | token found space => exact .inr ⟨_, rfl, token found space⟩
  | false =>
    rw [if_neg (by rw [isMacro]; exact Bool.false_ne_true)] at atTokens
    refine atTokens.mono fun origin name made => ?_
    cases made with
    | renamed eligible | pointer eligible | exit eligible =>
      rw [isMacro] at eligible
      cases eligible
    | token found space => exact ⟨_, rfl, token found space⟩

variable {before after : Registry} {trails : List Trail}

theorem Chain.accounts (chain : Chain plan before trails after) (start : Nat)
    (callNone : ∀ trail ∈ trails, trail.source.CallsNoMacro plan)
    (old : ∀ name, plan.isMacro name → name ∈ before.used) :
    Registry.Accounts before after (IntroducedAmong plan start trails) := by
  induction chain generalizing start with
  | nil registry =>
    refine .nothing registry ?_
    rintro origin name ⟨index, trail, found, -⟩
    cases found
  | cons trail trails after expands others ih =>
    rw [List.forall_mem_cons] at callNone
    have here := trail.accounts start callNone.1 old expands
    refine here.trans (ih (start + 1) callNone.2 fun name isMacro => here.mem_used (old name isMacro)) ?_
    rintro origin name ⟨index, found, among, introduces⟩
    cases index with
    | zero =>
      cases among
      exact .inl introduces
    | succ index =>
      rw [Nat.add_comm index, ← Nat.add_assoc] at introduces
      exact .inr ⟨index, found, among, introduces⟩

theorem Chain.mem (chain : Chain plan before trails after)
    (callNone : ∀ trail ∈ trails, trail.source.CallsNoMacro plan)
    (old : ∀ name, plan.isMacro name → name ∈ before.used) :
    ∀ trail ∈ trails, trail.Expands plan ∧ before.used ⊆ trail.before.used := by
  induction chain with
  | nil registry => exact fun _ member => absurd member List.not_mem_nil
  | cons trail trails after expands others ih =>
    rw [List.forall_mem_cons] at callNone
    have here := trail.accounts 0 callNone.1 old expands
    refine List.forall_mem_cons.mpr ⟨⟨expands, List.Subset.refl _⟩, fun other member => ?_⟩
    obtain ⟨otherExpands, older⟩ :=
      ih callNone.2 (fun name isMacro => here.mem_used (old name isMacro)) other member
    exact ⟨otherExpands, fun name used => older (here.mem_used used)⟩

def follow? (plan : MacroPlan) : List Function → Registry → Option (List Trail)
  | [], _ => some []
  | source :: sources, before =>
    match source.expand plan before with
    | .ok _ work =>
      (follow? plan sources work.registry).map (⟨source, before, work.function, work.registry⟩ :: ·)
    | .error .. => none

theorem Chain.follow?_eq (chain : Chain plan before trails after) :
    follow? plan (trails.map Trail.source) before = some trails := by
  induction chain with
  | nil registry => rfl
  | cons trail trails after expands others ih =>
    unfold Expands at expands
    simp only [List.map_cons, follow?, expands, ih]
    rfl

end Trail

/-! ## The whole unit -/

namespace CompilationUnit

section Names

variable (configuration : Configuration) (unit : CompilationUnit) (registry : Registry)

def temporaries : List (List String) :=
  Item.temporariesAll (unit.decision configuration).results unit.normalized.items
    (unit.planned configuration registry)

def trails? : Option (List Trail) :=
  Trail.follow? (unit.plan configuration registry)
    (Item.functions (unit.flattened configuration registry).1)
    (unit.flattened configuration registry).2

/-- The names that a run over a unit makes up, if its functions were processed in some way. -/
inductive Introduces (trails : List Trail) : Origin → String → Prop where
  | macroOf {number : Nat} {name : String}
      (named : (unit.macroNames configuration registry)[number]? = some name) :
      Introduces trails (.macroOf number) name
  | namespaceParameter :
      Introduces trails .namespaceParameter (unit.plan configuration registry).namespaceName
  | temporary {function number : Nat} {names : List String} {name : String}
      (found : (unit.temporaries configuration registry)[function]? = some names)
      (made : names[number]? = some name) : Introduces trails (.temporary function number) name
  | processed {function : Nat} {trail : Trail} {origin : Origin} {name : String}
      (found : trails[function]? = some trail)
      (introduces : trail.Introduces (unit.plan configuration registry) function origin name) :
      Introduces trails origin name

/-- How the functions of a unit were processed in a run with a result. -/
structure IsTraced (trails : List Trail) (result : CompilationUnit) : Prop where
  sources : trails.map Trail.source = Item.functions (unit.flattened configuration registry).1
  chain : ∃ after, Trail.Chain (unit.plan configuration registry)
    (unit.flattened configuration registry).2 trails after
  result : ∃ texts items, Item.functions items = trails.map Trail.result ∧
    result = unit.placed configuration registry texts items

end Names

variable {configuration : Configuration} {unit : CompilationUnit}

variable {trails : List Trail} {result : CompilationUnit}

theorem IsTraced.trails?_eq {registry : Registry}
    (traced : unit.IsTraced configuration registry trails result) :
    unit.trails? configuration registry = some trails := by
  obtain ⟨after, chain⟩ := traced.chain
  rw [trails?, ← traced.sources]
  exact chain.follow?_eq

theorem IsTraced.callNone (formed : unit.IsFormed) {registry : Registry}
    (traced : unit.IsTraced configuration registry trails result) :
    ∀ trail ∈ trails, trail.source.CallsNoMacro (unit.plan configuration registry) := by
  intro trail member
  refine callsNoMacro_of_flattened formed ?_
  rw [← traced.sources]
  exact List.mem_map_of_mem member

theorem isMacro_used (registry : Registry) : ∀ name, (unit.plan configuration registry).isMacro name →
      name ∈ (unit.flattened configuration registry).2.used := by
  intro name isMacro
  refine planned_old registry name ?_
  rw [MacroPlan.isKnown, isMacro, Bool.or_true]

theorem IsTraced.accounts (formed : unit.IsFormed) {registry : Registry}
    (traced : unit.IsTraced configuration registry trails result) :
    ∃ after, Registry.Accounts (registry.reserveAll unit.identifiers) after
      (unit.Introduces configuration registry trails) := by
  obtain ⟨after, chain⟩ := traced.chain
  have planned : Registry.Accounts (registry.reserveAll unit.identifiers)
      (unit.planned configuration registry) fun origin name =>
        (∃ number, origin = .macroOf number ∧ (unit.macroNames configuration registry)[number]? = some name) ∨
        (origin = .namespaceParameter ∧
          (unit.plan configuration registry).namespaceName = name) := by
    have macros := Registry.macroNamesFrom_issues (unit.decision configuration).eligible
      (registry.reserveAll unit.identifiers)
    have parameter : Registry.Accounts _ (unit.planned configuration registry)
        fun origin name => origin = .namespaceParameter ∧
          (unit.plan configuration registry).namespaceName = name :=
      .ofOption (Registry.claim_issues "namespace" _) .namespaceParameter
        fun _ _ made => ⟨made.1, congrArg some made.2⟩
    exact (Registry.Accounts.ofNumbered macros .macroOf fun _ _ made => made).trans parameter
      fun _ _ made => made
  have temporaries := Item.temporariesAll_accounts (unit.decision configuration).results
    unit.normalized.items 0 (unit.planned configuration registry)
  have processed := chain.accounts 0 (traced.callNone formed) (isMacro_used registry)
  refine ⟨after, planned.trans (temporaries.trans processed fun _ _ made => made) ?_⟩
  intro origin name made
  cases made with
  | macroOf named => exact .inl (.inl ⟨_, rfl, named⟩)
  | namespaceParameter => exact .inl (.inr ⟨rfl, rfl⟩)
  | temporary found made =>
    exact .inr (.inl ⟨_, _, _, by rw [Nat.zero_add], found, made⟩)
  | processed found introduces =>
    refine .inr (.inr ⟨_, _, found, ?_⟩)
    rw [Nat.zero_add]
    exact introduces

theorem IsTraced.mem (formed : unit.IsFormed) {registry : Registry}
    (traced : unit.IsTraced configuration registry trails result)
    {trail : Trail} (member : trail ∈ trails) : trail.source.CallsNoMacro (unit.plan configuration registry) ∧
      trail.Expands (unit.plan configuration registry) ∧
      (unit.flattened configuration registry).2.used ⊆ trail.before.used := by
  obtain ⟨after, chain⟩ := traced.chain
  exact ⟨traced.callNone formed trail member,
    chain.mem (traced.callNone formed) (isMacro_used registry) trail member⟩

theorem IsTraced.tokens (formed : unit.IsFormed) {registry : Registry}
    (traced : unit.IsTraced configuration registry trails result)
    {trail : Trail} (member : trail ∈ trails) : ∃ tokens : List String,
      (∀ token ∈ tokens, ∃ number, token = Registry.numbered "ns" number) ∧
      (trail.result.invocations (unit.plan configuration registry).isMacro).map Invocation.space =
        tokens.map (trail.expansion (unit.plan configuration registry)).space := by
  obtain ⟨callsNone, expands, older⟩ := traced.mem formed member
  obtain ⟨tokens, numbers, spaces⟩ := Trail.tokens callsNone
    (fun name isMacro => older (isMacro_used registry name isMacro)) expands
  exact ⟨tokens, numbers.numbered, spaces⟩

theorem IsTraced.exists_token (formed : unit.IsFormed) {registry : Registry}
    (traced : unit.IsTraced configuration registry trails result)
    {function number : Nat} {trail : Trail} {invocation : Invocation}
    (processed : trails[function]? = some trail)
    (found : (trail.result.invocations (unit.plan configuration registry).isMacro)[number]? =
      some invocation) : ∃ name, (∃ number, name = Registry.numbered "ns" number) ∧
      invocation.space = (trail.expansion (unit.plan configuration registry)).space name ∧
      unit.Introduces configuration registry trails (.token function number) name := by
  obtain ⟨tokens, numbered, spaces⟩ := traced.tokens formed (List.mem_of_getElem? processed)
  have spaced : (tokens.map (trail.expansion (unit.plan configuration registry)).space)[number]? =
      some invocation.space := by
    rw [← spaces, List.getElem?_map, found]
    rfl
  rw [List.getElem?_map, Option.map_eq_some_iff] at spaced
  obtain ⟨token, among, same⟩ := spaced
  exact ⟨token, numbered token (List.mem_of_getElem? among), same.symm,
    .processed processed (.token found same.symm)⟩

theorem macroize_traced (formed : unit.IsFormed) {state after : RunState} {report : Report}
    (runs : (unit.macroize configuration).run state = .ok (report, result) after) :
    ((unit.decision configuration).eligible = [] ∧ result = unit.normalized) ∨
      ∃ trails, unit.IsTraced configuration state.registry trails result := by
  have outcome := macroize_outcome configuration formed state
  obtain ⟨last, snapshots⟩ := after
  have ended : (unit.macroize configuration).outcome state = .ok (report, result) last :=
    Run.outcome_ok_iff.mpr ⟨snapshots, runs⟩
  rw [ended] at outcome
  split at outcome
  · next none =>
    cases outcome
    exact .inl ⟨List.isEmpty_iff.mp none, rfl⟩
  · dsimp only at outcome
    split at outcome
    · next processed left expanded =>
      obtain ⟨texts, items⟩ := processed
      cases outcome
      obtain ⟨trails, sources, ends, chain⟩ := Item.expandAll_chain expanded
      exact .inr ⟨trails, sources, ⟨_, chain⟩, texts, items, ends.symm, rfl⟩
    · cases outcome

/-- The names that a run makes up stand nowhere in the unit, each is made up for one thing only, and
each invocation has one. -/
theorem macroize_names_unique {text file : String} {typedefs : List String}
    (parses : CompilationUnit.parse text file typedefs = .ok unit) {state after : RunState}
    {report : Report} {result : CompilationUnit}
    (runs : (unit.macroize configuration).run state = .ok (report, result) after) :
    ((unit.decision configuration).eligible = [] ∧ result = unit.normalized) ∨
      ∃ trails, unit.IsTraced configuration state.registry trails result ∧
        (∀ origin name, unit.Introduces configuration state.registry trails origin name →
          name ∉ unit.identifiers) ∧
        (∀ origin other name, unit.Introduces configuration state.registry trails origin name →
          unit.Introduces configuration state.registry trails other name → origin = other) ∧
        ∀ function (trail : Trail), trails[function]? = some trail → ∀ number invocation,
          (trail.result.invocations
            (unit.plan configuration state.registry).isMacro)[number]? = some invocation →
          ∃ name, invocation.space =
              (trail.expansion (unit.plan configuration state.registry)).space name ∧
            unit.Introduces configuration state.registry trails (.token function number) name := by
  have formed := isFormed_of_parse parses
  refine (macroize_traced formed runs).imp_right fun ⟨trails, traced⟩ => ?_
  obtain ⟨last, accounts⟩ := traced.accounts formed
  refine ⟨trails, traced, ?_, ?_, ?_⟩
  · intro origin name made old
    exact accounts.fresh made (mem_reserved old state.registry)
  · exact fun origin other name made again => accounts.unique made again
  · intro function trail processed number invocation found
    obtain ⟨name, -, space, made⟩ := traced.exists_token formed processed found
    exact ⟨name, space, made⟩

theorem macroize_names_unique_in_copies :
    ∃ unit, CompilationUnit.parse
        "inline int g(int n) \x7b int m = n; \x7b int m; m = n; \x7d return m; \x7d
          inline void f(int n) \x7b if (n) g(n); else \x7b int m; m = g(n); \x7d \x7d
          int main(void) \x7b f(g(2)); f(3); return 0; \x7d" = .ok unit ∧
      ∃ report result after, (unit.macroize {}).run ⟨{}, []⟩ = .ok (report, result) after ∧
        ∃ trails, unit.IsTraced {} {} trails result ∧
          (∀ origin name, unit.Introduces {} {} trails origin name → name ∉ unit.identifiers) ∧
          (∀ origin other name, unit.Introduces {} {} trails origin name →
            unit.Introduces {} {} trails other name → origin = other) ∧
          ∀ function (trail : Trail), trails[function]? = some trail → ∀ number invocation,
            (trail.result.invocations (unit.plan {} {}).isMacro)[number]? = some invocation →
            ∃ name, invocation.space = (trail.expansion (unit.plan {} {})).space name ∧
              unit.Introduces {} {} trails (.token function number) name := by
  refine exists_parsed _ (fun unit => !unit.failsAtFirst && !(unit.decision {}).eligible.isEmpty)
    (by decide +kernel) ?_
  intro unit parses checked
  obtain ⟨some, report, result, after, runs⟩ := exists_run_with_macros checked
  exact ⟨report, result, after, runs,
    (macroize_names_unique parses runs).resolve_left fun none => some none.1⟩

end CompilationUnit

end InlineMacro
