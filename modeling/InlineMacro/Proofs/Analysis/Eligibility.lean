import InlineMacro.Analysis.Eligibility
import InlineMacro.Proofs.Analysis.Census

/-!
# Which functions become macros

What a function needs to become a macro, said without counting and searching, and what stands
against it otherwise. The decision about a unit agrees with both, whatever the order of the entries
of its census.
-/

set_option autoImplicit false

namespace InlineMacro

/-! ## Uses in a unit -/

namespace CompilationUnit

variable (unit : CompilationUnit)

def CallsDirectly (caller callee : String) : Prop :=
  ∃ function ∈ unit.functions, function.name = caller ∧
    ∃ occurrence ∈ function.occurrences .locals, occurrence.isVisible ∧
      occurrence.use = .called callee

def ReachesItself (name : String) : Prop := Relation.TransGen unit.CallsDirectly name name

def Mentions (name : String) : Prop :=
  ∃ occurrence ∈ unit.occurrences .locals, occurrence.isVisible ∧
    occurrence.use = .mentioned name

def CallsInExpression (name : String) : Prop :=
  ∃ occurrence ∈ unit.occurrences .locals, occurrence.isVisible ∧
    occurrence.use = .called name ∧ ¬ occurrence.isPositioned

end CompilationUnit

/-- The constructs that no macro can have. -/
inductive Node.IsUnsupported : Node → Prop where
  | goto (span : Span) (label : String) : IsUnsupported (.statement (.gotoStatement span label))
  | label (span : Span) (label : String) (marked : Statement) :
      IsUnsupported (.statement (.labelled span label marked))
  | staticLocal (declaration : Declaration) (isStatic : declaration.storage = some .static) :
      IsUnsupported (.declaration declaration)

/-! ## Requirements and obstacles -/

/-- What a function needs to become a macro. -/
structure Function.Qualifies (mask : Nat) (unit : CompilationUnit) (function : Function) :
    Prop where
  selected : function.specifierBits &&& mask ≠ 0
  notVariadic : ¬ function.isVariadic
  named : function.hasNoParameters ∨ ∀ parameter ∈ function.parameters, parameter.name.isSome
  supported : ∀ node ∈ function.body.nodes, ¬ node.IsUnsupported
  notRecursive : ¬ unit.ReachesItself function.name
  notMentioned : ¬ unit.Mentions function.name
  positioned : ¬ unit.CallsInExpression function.name

/-- What stands against making a function a macro, with the rank at which it is looked at. -/
inductive Function.Obstacle (mask : Nat) (unit : CompilationUnit) (function : Function) :
    Nat → Rejection → Prop where
  | notSelected (unmet : function.specifierBits &&& mask = 0) :
      Obstacle mask unit function 0 .notSelected
  | variadic (isVariadic : function.isVariadic) : Obstacle mask unit function 1 .variadic
  | unnamed (takesSome : ¬ function.hasNoParameters) (parameter : Parameter)
      (member : parameter ∈ function.parameters) (nameless : parameter.name = none) :
      Obstacle mask unit function 2 (.unsupported "an unnamed parameter")
  | unsupported (before : List Node) (node : Node) (after : List Node) (construct : String)
      (split : function.body.nodes = before ++ node :: after)
      (first : ∀ earlier ∈ before, ¬ earlier.IsUnsupported)
      (names : Function.unsupportedIn node = some construct) :
      Obstacle mask unit function 3 (.unsupported construct)
  | recursive (cyclic : unit.ReachesItself function.name) :
      Obstacle mask unit function 4 .recursive
  | addressTaken (mentioned : unit.Mentions function.name) :
      Obstacle mask unit function 5 .addressTaken
  | calledInExpression (called : unit.CallsInExpression function.name) :
      Obstacle mask unit function 6 .calledInExpression

def Function.FirstObstacle (mask : Nat) (unit : CompilationUnit) (function : Function)
    (reason : Rejection) : Prop :=
  ∃ rank, function.Obstacle mask unit rank reason ∧
    ∀ earlier < rank, ∀ other, ¬ function.Obstacle mask unit earlier other

/-- The functions of a unit are parted as they should: each either gives its name to the eligible
ones or is rejected once, for the first reason against it. -/
inductive CompilationUnit.Parted (mask : Nat) (unit : CompilationUnit) :
    List Function → List String → List (String × Rejection) → Prop where
  | nil : Parted mask unit [] [] []
  | accepted {function : Function} {functions : List Function} {eligible : List String}
      {rejected : List (String × Rejection)} (qualifies : function.Qualifies mask unit)
      (others : Parted mask unit functions eligible rejected) :
      Parted mask unit (function :: functions) (function.name :: eligible) rejected
  | refused {function : Function} {functions : List Function} {eligible : List String}
      {rejected : List (String × Rejection)} {reason : Rejection}
      (obstacle : function.FirstObstacle mask unit reason)
      (others : Parted mask unit functions eligible rejected) :
      Parted mask unit (function :: functions) eligible ((function.name, reason) :: rejected)

/-! ## What the decision looks at -/

theorem Node.isUnsupported_iff (node : Node) : node.IsUnsupported ↔ (Function.unsupportedIn node).isSome := by
  constructor
  · intro unsupported
    cases unsupported with
    | goto | label => rfl
    | staticLocal declaration isStatic => simp [Function.unsupportedIn, isStatic]
  · intro found
    unfold Function.unsupportedIn at found
    split at found
    · exact .goto _ _
    · exact .label _ _ _
    · next declaration =>
      split at found
      · next isStatic => exact .staticLocal declaration (beq_iff_eq.mp isStatic)
      · cases found
    · cases found

namespace CompilationUnit

variable (unit : CompilationUnit) (name : String)

theorem census_calls_eq : unit.census.Calls = unit.CallsDirectly := by
  funext caller callee
  exact propext (unit.mem_callees caller callee)

theorem isRecursive_iff : unit.census.isRecursive name ↔ unit.ReachesItself name := by
  rw [Census.isRecursive_iff, census_calls_eq]
  rfl

end CompilationUnit

namespace Function

variable {mask : Nat} {unit : CompilationUnit} {function : Function}

theorem hasUnnamedParameter_iff : function.hasUnnamedParameter ↔
      ¬ function.hasNoParameters ∧ ∃ parameter ∈ function.parameters, parameter.name = none := by
  simp [hasUnnamedParameter]

theorem unsupportedConstruct?_eq_none_iff :
    function.unsupportedConstruct? = none ↔ ∀ node ∈ function.body.nodes, ¬ node.IsUnsupported := by
  simp [unsupportedConstruct?, Node.isUnsupported_iff]

/-! ## Obstacles as the decision looks at them -/

variable {reason : Rejection}

theorem obstacle_zero_iff : function.Obstacle mask unit 0 reason ↔
      function.specifierBits &&& mask = 0 ∧ reason = .notSelected := by
  constructor
  · rintro ⟨unmet⟩
    exact ⟨unmet, rfl⟩
  · rintro ⟨unmet, rfl⟩
    exact .notSelected unmet

theorem obstacle_one_iff :
    function.Obstacle mask unit 1 reason ↔ function.isVariadic ∧ reason = .variadic := by
  constructor
  · intro obstacle
    cases obstacle with
    | variadic isVariadic => exact ⟨isVariadic, rfl⟩
  · rintro ⟨isVariadic, rfl⟩
    exact .variadic isVariadic

theorem obstacle_two_iff : function.Obstacle mask unit 2 reason ↔
      function.hasUnnamedParameter ∧ reason = .unsupported "an unnamed parameter" := by
  rw [hasUnnamedParameter_iff]
  constructor
  · intro obstacle
    cases obstacle with
    | unnamed takesSome parameter member nameless =>
      exact ⟨⟨takesSome, parameter, member, nameless⟩, rfl⟩
  · rintro ⟨⟨takesSome, parameter, member, nameless⟩, rfl⟩
    exact .unnamed takesSome parameter member nameless

theorem obstacle_three_iff : function.Obstacle mask unit 3 reason ↔
      function.unsupportedConstruct?.map .unsupported = some reason := by
  rw [Option.map_eq_some_iff]
  constructor
  · intro obstacle
    cases obstacle with
    | unsupported before node after construct split first names =>
      refine ⟨construct, ?_, rfl⟩
      refine List.findSome?_eq_some_iff.mpr ⟨before, node, after, split, names, ?_⟩
      intro earlier member
      simpa [Node.isUnsupported_iff] using first earlier member
  · rintro ⟨construct, found, rfl⟩
    obtain ⟨before, node, after, split, names, first⟩ := List.findSome?_eq_some_iff.mp found
    refine .unsupported before node after construct split (fun earlier member => ?_) names
    simp [Node.isUnsupported_iff, first earlier member]

theorem obstacle_four_iff : function.Obstacle mask unit 4 reason ↔
      unit.census.isRecursive function.name ∧ reason = .recursive := by
  rw [unit.isRecursive_iff]
  constructor
  · intro obstacle
    cases obstacle with
    | recursive cyclic => exact ⟨cyclic, rfl⟩
  · rintro ⟨cyclic, rfl⟩
    exact .recursive cyclic

theorem obstacle_five_iff : function.Obstacle mask unit 5 reason ↔
      unit.census.isMentioned function.name ∧ reason = .addressTaken := by
  rw [unit.isMentioned_iff]
  constructor
  · intro obstacle
    cases obstacle with
    | addressTaken mentioned => exact ⟨mentioned, rfl⟩
  · rintro ⟨mentioned, rfl⟩
    exact .addressTaken mentioned

theorem obstacle_six_iff : function.Obstacle mask unit 6 reason ↔
      unit.census.isCalledInExpression function.name ∧ reason = .calledInExpression := by
  rw [unit.isCalledInExpression_iff]
  constructor
  · intro obstacle
    cases obstacle with
    | calledInExpression called => exact ⟨called, rfl⟩
  · rintro ⟨called, rfl⟩
    exact .calledInExpression called

variable {rank : Nat}

theorem Qualifies.no_obstacle (qualifies : function.Qualifies mask unit)
    : ¬ function.Obstacle mask unit rank reason := by
  intro obstacle
  cases obstacle with
  | notSelected unmet => exact qualifies.selected unmet
  | variadic isVariadic => exact qualifies.notVariadic isVariadic
  | unnamed takesSome parameter member nameless =>
    rcases qualifies.named with takesNone | named
    · exact takesSome takesNone
    · simpa [nameless] using named parameter member
  | unsupported before node after construct split first names =>
    refine qualifies.supported node (by simp [split]) ?_
    simp [Node.isUnsupported_iff, names]
  | recursive cyclic => exact qualifies.notRecursive cyclic
  | addressTaken mentioned => exact qualifies.notMentioned mentioned
  | calledInExpression called => exact qualifies.positioned called

theorem Obstacle.unique {other : Rejection} (obstacle : function.Obstacle mask unit rank reason)
    (again : function.Obstacle mask unit rank other) : reason = other := by
  cases obstacle with
  | unsupported before node after construct split first names =>
    have found := obstacle_three_iff.mp
      (Obstacle.unsupported before node after construct split first names : Obstacle mask unit _ _ _)
    exact Option.some.inj (found.symm.trans (obstacle_three_iff.mp again))
  | _ => cases again; rfl

theorem FirstObstacle.unique {other : Rejection} (obstacle : function.FirstObstacle mask unit reason)
    (again : function.FirstObstacle mask unit other) : reason = other := by
  obtain ⟨rank, stands, first⟩ := obstacle
  obtain ⟨rank', stands', first'⟩ := again
  rcases Nat.lt_trichotomy rank rank' with lower | rfl | lower
  · exact absurd stands (first' rank lower reason)
  · exact stands.unique stands'
  · exact absurd stands' (first rank' lower other)

def Clears (mask : Nat) (unit : CompilationUnit) (function : Function) (rank : Nat) : Prop :=
  ∀ earlier < rank, ∀ other, ¬ function.Obstacle mask unit earlier other

theorem Clears.succ (clears : function.Clears mask unit rank)
    (next : ∀ reason, ¬ function.Obstacle mask unit rank reason) : function.Clears mask unit (rank + 1) := by
  intro earlier lower other
  rcases Nat.lt_succ_iff_lt_or_eq.mp lower with lower | rfl
  · exact clears earlier lower other
  · exact next other

def Verdict (mask : Nat) (unit : CompilationUnit) (function : Function) : Option Rejection → Prop
  | none => function.Qualifies mask unit
  | some reason => function.FirstObstacle mask unit reason

theorem verdict_ite {condition : Prop} [Decidable condition]
    {others : Option Rejection} (clears : function.Clears mask unit rank)
    (unmet : ∀ other, function.Obstacle mask unit rank other ↔ condition ∧ other = reason)
    (further : function.Clears mask unit (rank + 1) → function.Verdict mask unit others) :
    function.Verdict mask unit (if condition then some reason else others) := by
  split
  · next holds => exact ⟨rank, (unmet reason).mpr ⟨holds, rfl⟩, clears⟩
  · next fails =>
    exact further (clears.succ fun other obstacle => fails ((unmet other).mp obstacle).1)

theorem qualifies_of_clears (clears : function.Clears mask unit 7) :
    function.Qualifies mask unit where
  selected unmet := clears 0 (by decide) _ (.notSelected unmet)
  notVariadic isVariadic := clears 1 (by decide) _ (.variadic isVariadic)
  named := by
    by_contra nameless
    rw [not_or, not_forall] at nameless
    obtain ⟨takesSome, parameter, nameless⟩ := nameless
    simp only [Classical.not_imp, Bool.not_eq_true, Option.isSome_eq_false_iff,
      Option.isNone_iff_eq_none] at nameless
    exact clears 2 (by decide) _ (.unnamed takesSome parameter nameless.1 nameless.2)
  supported := by
    rw [← unsupportedConstruct?_eq_none_iff]
    cases found : function.unsupportedConstruct? with
    | none => rfl
    | some construct =>
      have obstacle : function.Obstacle mask unit 3 (.unsupported construct) :=
        obstacle_three_iff.mpr (congrArg (Option.map Rejection.unsupported) found)
      exact absurd obstacle (clears 3 (by decide) _)
  notRecursive cyclic := clears 4 (by decide) _ (.recursive cyclic)
  notMentioned mentioned := clears 5 (by decide) _ (.addressTaken mentioned)
  positioned called := clears 6 (by decide) _ (.calledInExpression called)

theorem rejection?_verdict (mask : Nat) (unit : CompilationUnit) (function : Function) :
    function.Verdict mask unit (function.rejection? mask unit.census) := by
  have clears : function.Clears mask unit 0 := fun _ lower => absurd lower (Nat.not_lt_zero _)
  unfold rejection?
  refine verdict_ite clears (fun _ => obstacle_zero_iff) fun clears => ?_
  refine verdict_ite clears (fun _ => obstacle_one_iff) fun clears => ?_
  refine verdict_ite clears (fun _ => obstacle_two_iff) fun clears => ?_
  cases found : function.unsupportedConstruct? with
  | some construct =>
    exact ⟨3, obstacle_three_iff.mpr (congrArg (Option.map Rejection.unsupported) found), clears⟩
  | none =>
    replace clears : function.Clears mask unit 4 := clears.succ fun reason obstacle => by
      simp [obstacle_three_iff, found] at obstacle
    refine verdict_ite clears (fun _ => obstacle_four_iff) fun clears => ?_
    refine verdict_ite clears (fun _ => obstacle_five_iff) fun clears => ?_
    exact verdict_ite clears (fun _ => obstacle_six_iff) qualifies_of_clears

end Function

/-! ## The order of the census -/

namespace Census

variable {census other : Census} (same : census.entries.Perm other.entries)

include same

theorem calls_of_perm : census.Calls = other.Calls := by
  funext caller callee
  exact propext (same.filterMap _).mem_iff

theorem isRecursive_of_perm (name : String) : census.isRecursive name = other.isRecursive name := by
  rw [Bool.eq_iff_iff, isRecursive_iff, isRecursive_iff, calls_of_perm same]

theorem isMentioned_of_perm (name : String) : census.isMentioned name = other.isMentioned name :=
  same.any_eq

theorem isCalledInExpression_of_perm (name : String) :
    census.isCalledInExpression name = other.isCalledInExpression name := by
  rw [isCalledInExpression, isCalledInExpression, positionedCalls, positionedCalls, calls, calls,
    same.countP_eq, same.countP_eq]

theorem rejection?_of_perm (mask : Nat) (function : Function) :
    function.rejection? mask census = function.rejection? mask other := by
  simp only [Function.rejection?, isRecursive_of_perm same, isMentioned_of_perm same,
    isCalledInExpression_of_perm same]

end Census

/-! ## The decision about a unit -/

theorem Function.rejection?_eq_none_iff {mask : Nat} {unit : CompilationUnit} {function : Function} :
    function.rejection? mask unit.census = none ↔ function.Qualifies mask unit := by
  have verdict := function.rejection?_verdict mask unit
  cases decided : function.rejection? mask unit.census with
  | none =>
    rw [decided] at verdict
    exact ⟨fun _ => verdict, fun _ => rfl⟩
  | some reason =>
    rw [decided] at verdict
    obtain ⟨rank, obstacle, -⟩ := verdict
    exact ⟨fun impossible => (by cases impossible),
      fun qualifies => absurd obstacle qualifies.no_obstacle⟩

namespace CompilationUnit

variable {mask : Nat} {unit : CompilationUnit} {name : String}

theorem mem_eligible : name ∈ (unit.eligibility mask).eligible ↔
      ∃ function ∈ unit.functions, function.name = name ∧ function.Qualifies mask unit := by
  simp only [eligibility, List.mem_map, List.mem_filter, Option.isNone_iff_eq_none,
    Function.rejection?_eq_none_iff]
  constructor
  · rintro ⟨function, ⟨member, qualifies⟩, named⟩
    exact ⟨function, member, named, qualifies⟩
  · rintro ⟨function, member, named, qualifies⟩
    exact ⟨function, ⟨member, qualifies⟩, named⟩

theorem mem_results {name : String} {type : CType} : (name, type) ∈ (((unit.functions.filter fun function =>
        (function.rejection? mask unit.census).isNone).filter fun function =>
          !function.result.isVoid).map fun function => (function.name, function.result)) ↔
      ∃ function ∈ unit.functions, function.Qualifies mask unit ∧ ¬ function.result.isVoid ∧
        function.name = name ∧ function.result = type := by
  simp only [List.mem_map, List.mem_filter, Option.isNone_iff_eq_none,
    Function.rejection?_eq_none_iff, Prod.mk.injEq, Bool.not_eq_true', Bool.not_eq_true]
  constructor
  · rintro ⟨function, ⟨⟨member, qualifies⟩, notVoid⟩, named, typed⟩
    exact ⟨function, member, qualifies, notVoid, named, typed⟩
  · rintro ⟨function, member, qualifies, notVoid, named, typed⟩
    exact ⟨function, ⟨⟨member, qualifies⟩, notVoid⟩, named, typed⟩

theorem find?_results {type : CType} (found : (unit.eligibility mask).results.find? name = some type) :
    ∃ function ∈ unit.functions, function.Qualifies mask unit ∧ ¬ function.result.isVoid ∧
      function.name = name ∧ function.result = type :=
  mem_results.mp (Association.mem_of_find?_ofPairs found)

theorem contains_results : (unit.eligibility mask).results.contains name ↔
      ∃ function ∈ unit.functions, function.Qualifies mask unit ∧ ¬ function.result.isVoid ∧
        function.name = name := by
  refine (Association.contains_ofPairs _ _).trans ?_
  rw [List.mem_map]
  constructor
  · rintro ⟨⟨given, type⟩, member, rfl⟩
    obtain ⟨function, among, qualifies, notVoid, named, -⟩ := mem_results.mp member
    exact ⟨function, among, qualifies, notVoid, named⟩
  · rintro ⟨function, among, qualifies, notVoid, named⟩
    exact ⟨(name, function.result), mem_results.mpr ⟨function, among, qualifies, notVoid, named, rfl⟩, rfl⟩

end CompilationUnit

theorem CompilationUnit.eligibility_parted (mask : Nat) (unit : CompilationUnit) :
    unit.Parted mask unit.functions (unit.eligibility mask).eligible (unit.eligibility mask).rejected := by
  simp only [eligibility]
  induction unit.functions with
  | nil => exact .nil
  | cons function functions ih =>
    have verdict := function.rejection?_verdict mask unit
    cases decided : function.rejection? mask unit.census with
    | none =>
      rw [decided] at verdict
      simpa [decided] using ih.accepted verdict
    | some reason =>
      rw [decided] at verdict
      simpa [decided] using ih.refused verdict

theorem Function.qualifies_or_firstObstacle (mask : Nat) (unit : CompilationUnit) (function : Function) :
    (function.Qualifies mask unit ∧ ¬ ∃ reason, function.FirstObstacle mask unit reason) ∨
      (¬ function.Qualifies mask unit ∧ ∃! reason, function.FirstObstacle mask unit reason) := by
  have verdict := function.rejection?_verdict mask unit
  cases decided : function.rejection? mask unit.census with
  | none =>
    rw [decided] at verdict
    exact .inl ⟨verdict, fun ⟨_, _, stands, _⟩ => verdict.no_obstacle stands⟩
  | some reason =>
    rw [decided] at verdict
    obtain ⟨rank, stands, first⟩ := verdict
    refine .inr ⟨fun qualifies => qualifies.no_obstacle stands, reason, ⟨rank, stands, first⟩, ?_⟩
    intro other again
    exact again.unique ⟨rank, stands, first⟩

/-- The eligible functions of a unit are those that have all they need, every other one is rejected
once for the first obstacle, and no decision depends on the order in which the census was taken. -/
theorem CompilationUnit.eligibility_spec (mask : Nat) (unit : CompilationUnit) :
    unit.Parted mask unit.functions (unit.eligibility mask).eligible
        (unit.eligibility mask).rejected ∧
      (∀ function : Function,
        (function.Qualifies mask unit ∧ ¬ ∃ reason, function.FirstObstacle mask unit reason) ∨
        (¬ function.Qualifies mask unit ∧
          ∃! reason, function.FirstObstacle mask unit reason)) ∧
      ∀ census : Census, census.entries.Perm unit.census.entries → ∀ function : Function,
        function.rejection? mask census = function.rejection? mask unit.census :=
  ⟨unit.eligibility_parted mask, Function.qualifies_or_firstObstacle mask unit,
    fun _ same function => Census.rejection?_of_perm same mask function⟩

end InlineMacro
