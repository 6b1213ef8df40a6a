import InlineMacro.Proofs.Run.Freshness

/-!
# Paths of expansions

An invocation that stands in a macro is expanded with each expansion of that macro. A path leads from
an invocation outside of all macros through invocations inside them, and the label that the last
macro ends with is spelled with the tokens on the path in front. The tokens can be read off such a
label again, so no two paths end in the same one.
-/

set_option autoImplicit false

namespace InlineMacro

/-! ## Reading tokens off a spelling -/

namespace Registry

theorem toList_numbered_append (stem : String) (number : Nat) (text : String) :
    (numbered stem number ++ text).toList =
      stem.toList ++ '_' :: (Nat.toDigits 10 number ++ text.toList) := by
  simp [numbered]

theorem numbered_append_injective (stem : String) {first second : Nat} {text other : String}
    (ends : EndsNumber text) (otherEnds : EndsNumber other)
    (same : numbered stem first ++ text = numbered stem second ++ other) : first = second ∧ text = other := by
  have characters := congrArg String.toList same
  rw [toList_numbered_append, toList_numbered_append] at characters
  exact digits_append_injective ends otherEnds (List.cons.inj (List.append_cancel_left characters)).2

def spelled (tokens : List String) (label : String) : String := tokens.foldr (· ++ ·) label

variable {tokens others : List String}

theorem endsNumber_spelled (numbers : ∀ token ∈ tokens, ∃ number, token = numbered "ns" number)
    (exit : Nat) : EndsNumber (spelled tokens (numbered "exit" exit)) := by
  cases tokens with
  | nil =>
    have characters := toList_numbered_append "exit" exit ""
    rw [String.append_empty] at characters
    exact ⟨'e', _, characters, rfl⟩
  | cons token tokens =>
    obtain ⟨number, rfl⟩ := numbers token List.mem_cons_self
    exact ⟨'n', _, toList_numbered_append "ns" number _, rfl⟩

theorem spelled_cons_ne (number exit : Nat) (text : String) :
    numbered "exit" exit ≠ numbered "ns" number ++ text := by
  intro same
  have characters := congrArg String.toList same
  rw [toList_numbered_append, ← String.append_empty (s := numbered "exit" exit),
    toList_numbered_append] at characters
  exact absurd (List.cons.inj characters).1 (by decide)

theorem spelled_injective (numbers : ∀ token ∈ tokens, ∃ number, token = numbered "ns" number)
    (otherNumbers : ∀ token ∈ others, ∃ number, token = numbered "ns" number) {exit other : Nat}
    (same : spelled tokens (numbered "exit" exit) = spelled others (numbered "exit" other)) :
    tokens = others ∧ exit = other := by
  induction tokens generalizing others with
  | nil =>
    cases others with
    | nil => exact ⟨rfl, numbered_injective "exit" exit other same⟩
    | cons token others =>
      obtain ⟨number, rfl⟩ := otherNumbers token List.mem_cons_self
      exact absurd same (spelled_cons_ne number exit _)
  | cons token tokens ih =>
    obtain ⟨number, rfl⟩ := numbers token List.mem_cons_self
    have behind := fun token member => numbers token (List.mem_cons_of_mem _ member)
    cases others with
    | nil => exact absurd same.symm (spelled_cons_ne number other _)
    | cons token others =>
      obtain ⟨otherNumber, rfl⟩ := otherNumbers token List.mem_cons_self
      have otherBehind := fun token member => otherNumbers token (List.mem_cons_of_mem _ member)
      obtain ⟨sameNumber, rest⟩ := numbered_append_injective "ns" (endsNumber_spelled behind exit)
        (endsNumber_spelled otherBehind other) same
      obtain ⟨sameTokens, sameExit⟩ := ih behind otherBehind rest
      rw [sameNumber, sameTokens]
      exact ⟨rfl, sameExit⟩

end Registry

/-! ## Paths -/

/-- Where an invocation stands: in the function with a number, as the invocation with a number. -/
@[ext]
structure Site where
  function : Nat
  number : Nat
deriving DecidableEq, Repr

namespace Trail

variable (plan : MacroPlan) (trails : List Trail)

def Invokes (site : Site) (token : String) (target : Nat) : Prop :=
  ∃ caller called : Trail, ∃ invocation : Invocation, trails[site.function]? = some caller ∧
    (caller.result.invocations plan.isMacro)[site.number]? = some invocation ∧
    invocation.space = (caller.expansion plan).space token ∧
    trails[target]? = some called ∧ plan.eligibility.isEligible called.source.name ∧
    plan.macros.find? called.source.name = some invocation.macroName

/-- The sites of nested expansions from the outside in, with the tokens there and the function whose
macro is expanded last. The first site is in a function that does not become a macro. -/
inductive Path : List Site → List String → Nat → Prop where
  | first {site : Site} {token : String} {target : Nat}
      (outside : ∃ caller : Trail, trails[site.function]? = some caller ∧
        plan.eligibility.isEligible caller.source.name = false)
      (invokes : Invokes plan trails site token target) : Path [site] [token] target
  | next {sites : List Site} {tokens : List String} {site : Site} {token : String} {target : Nat}
      (path : Path sites tokens site.function) (invokes : Invokes plan trails site token target) :
      Path (sites ++ [site]) (tokens ++ [token]) target

def Labels (sites : List Site) (target : Nat) (label : String) : Prop :=
  ∃ tokens called exit, Path plan trails sites tokens target ∧ trails[target]? = some called ∧
    plan.eligibility.isEligible called.source.name ∧
    (called.source.prepare plan called.before).exit = some exit ∧
    label = Registry.spelled tokens exit

variable {plan trails}

theorem exit_numbered {function : Function} {registry : Registry} {exit : String}
    (found : (function.prepare plan registry).exit = some exit) :
    ∃ number, exit = Registry.numbered "exit" number := by
  let pointed := (Preparation.rename function registry).point plan function.name
  have none : pointed.exit = Option.none := Preparation.exit_point plan function.name _
  have same : pointed.linearize.exit = some exit := found
  unfold Preparation.linearize at same
  split at same
  · exact ⟨_, (Option.some.inj same).symm⟩
  · rw [none] at same
    cases same

end Trail

namespace CompilationUnit

variable {configuration : Configuration} {unit : CompilationUnit} {registry : Registry}
  {trails : List Trail} {result : CompilationUnit}

theorem IsTraced.token_of_invokes (formed : unit.IsFormed)
    (traced : unit.IsTraced configuration registry trails result) {site : Site} {token : String}
    {target : Nat} (invokes : Trail.Invokes (unit.plan configuration registry) trails site token target) :
    (∃ number, token = Registry.numbered "ns" number) ∧
      unit.Introduces configuration registry trails (.token site.function site.number) token := by
  obtain ⟨caller, called, invocation, processed, found, space, -⟩ := invokes
  obtain ⟨name, numbered, otherSpace, made⟩ := traced.exists_token formed processed found
  have same := Expansion.space_injective _ (space.symm.trans otherSpace)
  exact ⟨same ▸ numbered, same ▸ made⟩

theorem IsTraced.tokens_of_path (formed : unit.IsFormed)
    (traced : unit.IsTraced configuration registry trails result) {sites : List Site}
    {tokens : List String} {target : Nat}
    (path : Trail.Path (unit.plan configuration registry) trails sites tokens target) :
    (∀ token ∈ tokens, ∃ number, token = Registry.numbered "ns" number) ∧
      List.Forall₂ (fun site token =>
        unit.Introduces configuration registry trails (.token site.function site.number) token)
        sites tokens := by
  induction path with
  | first outside invokes =>
    obtain ⟨numbered, made⟩ := traced.token_of_invokes formed invokes
    exact ⟨List.forall_mem_singleton.mpr numbered, .cons made .nil⟩
  | next path invokes ih =>
    obtain ⟨numbered, made⟩ := traced.token_of_invokes formed invokes
    exact ⟨List.forall_mem_append.mpr ⟨ih.1, List.forall_mem_singleton.mpr numbered⟩,
      List.rel_append ih.2 (.cons made .nil)⟩

theorem IsTraced.sites_unique (formed : unit.IsFormed)
    (traced : unit.IsTraced configuration registry trails result) {first second : List Site}
    {tokens : List String}
    (firstMade : List.Forall₂ (fun site token => unit.Introduces configuration registry trails
      (.token site.function site.number) token) first tokens)
    (secondMade : List.Forall₂ (fun site token => unit.Introduces configuration registry trails
      (.token site.function site.number) token) second tokens) : first = second := by
  obtain ⟨after, accounts⟩ := traced.accounts formed
  induction firstMade generalizing second with
  | nil =>
    cases secondMade
    rfl
  | cons made others ih =>
    cases secondMade with
    | cons again otherMade =>
      obtain ⟨sameFunction, sameNumber⟩ := Origin.token.inj (accounts.unique made again)
      rw [ih otherMade, Site.ext_iff.mpr ⟨sameFunction, sameNumber⟩]

theorem IsTraced.labels_unique (formed : unit.IsFormed)
    (traced : unit.IsTraced configuration registry trails result) {first second : List Site}
    {target other : Nat} {label : String}
    (labels : Trail.Labels (unit.plan configuration registry) trails first target label)
    (again : Trail.Labels (unit.plan configuration registry) trails second other label) :
    first = second ∧ target = other := by
  obtain ⟨tokens, called, exit, path, found, eligible, exited, rfl⟩ := labels
  obtain ⟨others, otherCalled, otherExit, otherPath, otherFound, otherEligible, otherExited, same⟩ :=
    again
  obtain ⟨numbers, made⟩ := traced.tokens_of_path formed path
  obtain ⟨otherNumbers, otherMade⟩ := traced.tokens_of_path formed otherPath
  obtain ⟨number, rfl⟩ := Trail.exit_numbered exited
  obtain ⟨otherNumber, rfl⟩ := Trail.exit_numbered otherExited
  obtain ⟨rfl, rfl⟩ := Registry.spelled_injective numbers otherNumbers same
  refine ⟨traced.sites_unique formed made otherMade, ?_⟩
  obtain ⟨after, accounts⟩ := traced.accounts formed
  cases accounts.unique (.processed found (.exit eligible exited))
    (.processed otherFound (.exit otherEligible otherExited))
  rfl

end CompilationUnit

end InlineMacro
