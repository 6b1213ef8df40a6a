import InlineMacro.Proofs.Pass.RenameCalls
import InlineMacro.Proofs.Registry.FreshNames

/-!
# The stack of alias scopes

What is declared in a scope goes with the scope: behind a balanced sequence of operations that writes
only in scopes of its own the table answers as before. An alias that a declaration returned is fixed in
one scope for one name, and because the registry gives no name out twice, it is fixed nowhere else; so
a declaration that returns it again is one of the same name in the same scope.
-/

set_option autoImplicit false

namespace InlineMacro.AliasTable

/-- What can be done with a table and its registry. -/
inductive Operation where
  | enter
  | leave
  | declare (name : String)
  | register (name : String)
  | bind (name known : String)
  | ask (request : Registry.Request)

namespace Operation

def perform : Operation → RenameState → Option String × RenameState
  | enter, state => (none, { state with table := state.table.enter })
  | leave, state => (none, { state with table := state.table.leave })
  | declare name, state =>
    let (known, table, registry) := AliasTable.declare name state.table state.registry
    (some known, ⟨table, registry⟩)
  | register name, state =>
    let (known, table, registry) := AliasTable.register name state.table state.registry
    (some known, ⟨table, registry⟩)
  | bind name known, state => (none, { state with table := state.table.bind name known })
  | ask request, state => (none, { state with registry := (request.perform state.registry).2 })

def declared? : Operation → Option String
  | declare name | register name => some name
  | _ => none

end Operation

def run : List Operation → RenameState → RenameState
  | [], state => state
  | operation :: operations, state => run operations (operation.perform state).2

theorem run_append (first second : List Operation) (state : RenameState) :
    run (first ++ second) state = run second (run first state) := by
  induction first generalizing state with
  | nil => rfl
  | cons operation first ih => exact ih _

/-! ## Balanced sequences -/

/-- Whether as many scopes as are open at the start, and all that are opened on the way, are closed in
the end, no other one is closed, and nothing is written but in one of these. -/
def isConfined : Nat → List Operation → Bool
  | opened, [] => opened == 0
  | opened, .enter :: operations => isConfined (opened + 1) operations
  | 0, .leave :: _ => false
  | opened + 1, .leave :: operations => isConfined opened operations
  | opened, .ask _ :: operations => isConfined opened operations
  | opened, _ :: operations => opened != 0 && isConfined opened operations

theorem scopes_set (table : AliasTable) (name : String) (entry : Alias) :
    (table.set name entry).scopes = table.current.insert name entry :: table.outer :=
  rfl

theorem scopes_leave {table : AliasTable} (notLast : table.outer ≠ []) :
    table.leave.scopes = table.outer := by
  unfold leave
  split
  · next last => exact absurd last notLast
  · next same => exact same.symm

theorem exists_scopes_declare (name : String) (table : AliasTable) (registry : Registry) :
    ∃ scope, (declare name table registry).2.1.scopes = scope :: table.outer := by
  unfold declare
  split
  · exact ⟨table.current, rfl⟩
  · exact ⟨_, rfl⟩

variable {operations : List Operation}

theorem scopes_run {own base : List (Association Alias)}
    (some : base ≠ []) {state : RenameState} (scopes : state.table.scopes = own ++ base)
    (confined : isConfined own.length operations) : (run operations state).table.scopes = base := by
  induction operations generalizing own state with
  | nil =>
    rw [isConfined, beq_iff_eq] at confined
    rw [List.eq_nil_of_length_eq_zero confined] at scopes
    exact scopes
  | cons operation operations ih =>
    -- Whatever writes finds a scope of the sequence in front, and only that one changes.
    have written (after : RenameState) (scope : Association Alias)
        (front : after.table.scopes = scope :: state.table.outer)
        (inside : own.length != 0 && isConfined own.length operations) :
        (run operations after).table.scopes = base := by
      rw [Bool.and_eq_true] at inside
      cases own with
      | nil => cases inside.1
      | cons first own =>
        obtain ⟨rfl, outer⟩ := List.cons.inj scopes
        refine @ih (scope :: own) after ?_ inside.2
        rw [front, outer]
        rfl
    cases operation with
    | enter =>
      refine @ih ([] :: own) _ ?_ confined
      exact congrArg ([] :: ·) scopes
    | leave =>
      cases own with
      | nil => cases confined
      | cons first own =>
        obtain ⟨rfl, outer⟩ := List.cons.inj scopes
        refine @ih own _ ?_ confined
        have notLast : state.table.outer ≠ [] := by simp [outer, some]
        exact (scopes_leave notLast).trans outer
    | declare name =>
      obtain ⟨scope, front⟩ := exists_scopes_declare name state.table state.registry
      exact written _ scope front confined
    | register name => exact written _ _ (scopes_set _ _ _) confined
    | bind name known => exact written _ _ (scopes_set _ _ _) confined
    | ask request => exact ih scopes confined

theorem aliasOf_of_scopes {first second : AliasTable} (same : first.scopes = second.scopes)
    (name : String) : first.aliasOf name = second.aliasOf name := by
  rw [aliasOf, aliasOf, same]

theorem isDeclared_of_scopes {first second : AliasTable} (same : first.scopes = second.scopes)
    (name : String) : first.isDeclared name = second.isDeclared name := by
  rw [isDeclared, isDeclared, same]

/-! ## Fixed aliases -/

def Fixes (table : AliasTable) (level : Nat) (name known : String) : Prop :=
  ∃ scope : Association Alias, table.scopes.reverse[level]? = some scope ∧
    scope.find? name = some ⟨known, false⟩

section Fixes

variable {table : AliasTable} {level : Nat} {name known : String}

theorem Fixes.level_lt (fixes : table.Fixes level name known) : level < table.depth := by
  obtain ⟨scope, found, -⟩ := fixes
  have least := (List.getElem?_eq_some_iff.mp found).1
  rwa [List.length_reverse] at least

theorem fixes_iff : table.Fixes level name known ↔
    (level = table.outer.length ∧ table.current.find? name = some ⟨known, false⟩) ∨
      ∃ scope : Association Alias, table.outer.reverse[level]? = some scope ∧
        scope.find? name = some ⟨known, false⟩ := by
  have reversed : table.scopes.reverse = table.outer.reverse ++ [table.current] :=
    List.reverse_cons
  unfold Fixes
  rw [reversed]
  by_cases inner : level < table.outer.length
  · rw [List.getElem?_append_left (by rwa [List.length_reverse])]
    exact ⟨.inr, fun found => found.resolve_left fun here => absurd here.1 (Nat.ne_of_lt inner)⟩
  · rw [List.getElem?_append_right (by rw [List.length_reverse]; omega), List.length_reverse]
    constructor
    · rintro ⟨scope, found, fixed⟩
      obtain ⟨least, rfl⟩ := List.getElem?_eq_some_iff.mp found
      rw [List.length_singleton] at least
      exact .inl ⟨by omega, by simpa using fixed⟩
    · rintro (⟨rfl, fixed⟩ | ⟨scope, found, -⟩)
      · exact ⟨table.current, by simp, fixed⟩
      · have least := (List.getElem?_eq_some_iff.mp found).1
        rw [List.length_reverse] at least
        exact absurd least inner

theorem fixes_current (found : table.current.find? name = some ⟨known, false⟩) :
    table.Fixes table.outer.length name known :=
  fixes_iff.mpr (.inl ⟨rfl, found⟩)

theorem fixes_of_enter (fixes : table.enter.Fixes level name known) : table.Fixes level name known := by
  rcases fixes_iff.mp fixes with ⟨-, found⟩ | old
  · cases found
  · exact old

theorem fixes_of_leave (fixes : table.leave.Fixes level name known) : table.Fixes level name known := by
  unfold leave at fixes
  split at fixes
  · exact fixes
  · next scope scopes outer =>
    refine fixes_iff.mpr (.inr ?_)
    rw [outer]
    exact fixes

theorem fixes_of_set {wanted : String} {entry : Alias}
    (fixes : (table.set wanted entry).Fixes level name known) :
    (level = table.outer.length ∧ name = wanted ∧ entry = ⟨known, false⟩) ∨ table.Fixes level name known := by
  rcases fixes_iff.mp fixes with ⟨rfl, found⟩ | outside
  · change (table.current.insert wanted entry).find? name = _ at found
    rw [Association.find?_insert] at found
    split at found
    · next same => exact .inl ⟨rfl, same, Option.some.inj found⟩
    · exact .inr (fixes_current found)
  · exact .inr (fixes_iff.mpr (.inr outside))

end Fixes

namespace Operation

variable {operation : Operation} {state : RenameState} {level : Nat} {name known : String}

/-- Whatever an operation fixes was fixed before, or is a name that the registry has just made up for a
declaration in the innermost scope. -/
theorem fixes_of_perform (fixes : (operation.perform state).2.table.Fixes level name known) :
    state.table.Fixes level name known ∨ (level = state.table.outer.length ∧ operation.declared? = some name ∧
        known ∉ state.registry.used ∧ known ∈ (operation.perform state).2.registry.used) := by
  have registered (wanted : String)
      (fixes : (AliasTable.register wanted state.table state.registry).2.1.Fixes level name known) :
      state.table.Fixes level name known ∨
        (level = state.table.outer.length ∧ name = wanted ∧ known ∉ state.registry.used ∧
          known ∈ (AliasTable.register wanted state.table state.registry).2.2.used) := by
    rcases fixes_of_set fixes with ⟨here, sameName, entry⟩ | old
    · obtain rfl : (Registry.fresh wanted state.registry).1 = known := congrArg Alias.name entry
      have issues := Registry.fresh_issues wanted state.registry
      exact .inr ⟨here, sameName, issues.fresh _ (List.mem_singleton_self _),
        (issues.used _).mpr (.inl (List.mem_singleton_self _))⟩
    · exact .inl old
  cases operation with
  | enter => exact .inl (fixes_of_enter fixes)
  | leave => exact .inl (fixes_of_leave fixes)
  | declare wanted =>
    rcases declare_cases wanted state.table state.registry with ⟨found, -, same⟩ | same
    · simp only [perform, same] at fixes
      exact .inl fixes
    · simp only [perform, same] at fixes ⊢
      refine (registered wanted fixes).imp_right fun ⟨here, sameName, unused, used⟩ => ?_
      exact ⟨here, congrArg some sameName.symm, unused, used⟩
  | register wanted =>
    refine (registered wanted fixes).imp_right fun ⟨here, sameName, unused, used⟩ => ?_
    exact ⟨here, congrArg some sameName.symm, unused, used⟩
  | bind wanted given =>
    rcases fixes_of_set fixes with ⟨-, -, entry⟩ | old
    · cases entry
    · exact .inl old
  | ask request => exact .inl fixes

theorem used_perform (operation : Operation) (state : RenameState) :
    state.registry.used ⊆ (operation.perform state).2.registry.used := by
  have registered (wanted : String) : state.registry.used ⊆
      (AliasTable.register wanted state.table state.registry).2.2.used := fun _ old =>
    (Registry.fresh_issues wanted state.registry).mem_used old
  cases operation with
  | declare wanted =>
    rcases declare_cases wanted state.table state.registry with ⟨found, -, same⟩ | same
    · simp only [perform, same]
      exact List.Subset.refl _
    · simp only [perform, same]
      exact registered wanted
  | register wanted => exact registered wanted
  | ask request => exact fun other old => (request.used_perform _ other).mpr (.inr old)
  | enter | leave | bind => exact List.Subset.refl _

/-- The alias that a declaration answers with is fixed for its name in the innermost scope behind it. It
was fixed there before unless it has just been made up. -/
theorem fixes_of_answer (answers : (operation.perform state).1 = some known) :
    ∃ name, operation.declared? = some name ∧
      (operation.perform state).2.table.Fixes state.table.outer.length name known ∧
      (state.table.Fixes state.table.outer.length name known ∨ known ∉ state.registry.used) := by
  have registered (wanted : String) :
      (AliasTable.register wanted state.table state.registry).2.1.Fixes state.table.outer.length
        wanted (AliasTable.register wanted state.table state.registry).1 := by
    refine fixes_iff.mpr (.inl ⟨rfl, ?_⟩)
    exact (Association.find?_insert _ _ _ _).trans (if_pos rfl)
  have madeUp (wanted : String) :
      (AliasTable.register wanted state.table state.registry).1 ∉ state.registry.used :=
    (Registry.fresh_issues wanted state.registry).fresh _ (List.mem_singleton_self _)
  cases operation with
  | declare wanted =>
    refine ⟨wanted, rfl, ?_⟩
    rcases declare_cases wanted state.table state.registry with ⟨old, found, same⟩ | same
    · simp only [perform, same, Option.some.injEq] at answers ⊢
      subst answers
      exact ⟨fixes_current found, .inl (fixes_current found)⟩
    · simp only [perform, same, Option.some.injEq] at answers ⊢
      subst answers
      exact ⟨registered wanted, .inr (madeUp wanted)⟩
  | register wanted =>
    obtain rfl := Option.some.inj answers
    exact ⟨wanted, rfl, registered wanted, .inr (madeUp wanted)⟩
  | enter | leave | bind | ask => cases answers

end Operation

theorem used_run (operations : List Operation) (state : RenameState) :
    state.registry.used ⊆ (run operations state).registry.used := by
  induction operations generalizing state with
  | nil => exact List.Subset.refl _
  | cons operation operations ih => exact List.Subset.trans (operation.used_perform state) (ih _)

/-! ## Fixed once -/

/-- Every alias that is fixed is in use, and it is fixed in one scope for one name. -/
structure IsSound (state : RenameState) : Prop where
  used : ∀ level name known, state.table.Fixes level name known → known ∈ state.registry.used
  unique : ∀ level name other otherName known, state.table.Fixes level name known →
    state.table.Fixes other otherName known → level = other ∧ name = otherName

theorem IsSound.empty (registry : Registry) : IsSound ⟨{}, registry⟩ := by
  have none (level : Nat) (name known : String) : ¬ ({} : AliasTable).Fixes level name known := by
    intro fixes
    rcases fixes_iff.mp fixes with ⟨-, found⟩ | ⟨scope, found, -⟩
    · cases found
    · cases found
  exact ⟨fun level name known fixes => absurd fixes (none level name known),
    fun level name _ _ known fixes => absurd fixes (none level name known)⟩

theorem IsSound.perform {state : RenameState} (sound : IsSound state) (operation : Operation) :
    IsSound (operation.perform state).2 where
  used level name known fixes := by
    rcases Operation.fixes_of_perform fixes with old | ⟨-, -, -, used⟩
    · exact operation.used_perform state (sound.used level name known old)
    · exact used
  unique level name other otherName known fixes again := by
    rcases Operation.fixes_of_perform fixes with old | ⟨here, declares, unused, -⟩ <;>
      rcases Operation.fixes_of_perform again with former | ⟨there, redeclares, free, -⟩
    · exact sound.unique level name other otherName known old former
    · exact absurd (sound.used level name known old) free
    · exact absurd (sound.used other otherName known former) unused
    · exact ⟨here.trans there.symm, Option.some.inj (declares.symm.trans redeclares)⟩

theorem IsSound.run {state : RenameState} (sound : IsSound state) (operations : List Operation) :
    IsSound (run operations state) := by
  induction operations generalizing state with
  | nil => exact sound
  | cons operation operations ih => exact ih (sound.perform operation)

/-- What is fixed behind a sequence of operations, under an alias that was in use before it, was fixed
from the start: the scope was open all along. -/
theorem fixes_of_run {state : RenameState} {level : Nat}
    {name known : String} (used : known ∈ state.registry.used)
    (fixes : (run operations state).table.Fixes level name known) :
    ∀ count ≤ operations.length, (run (operations.take count) state).table.Fixes level name known := by
  induction operations generalizing state with
  | nil =>
    intro count least
    rw [List.take_nil]
    exact fixes
  | cons operation operations ih =>
    have behind := ih (operation.used_perform state used) fixes
    have atStart : state.table.Fixes level name known := by
      rcases Operation.fixes_of_perform (behind 0 (Nat.zero_le _)) with old | ⟨-, -, unused, -⟩
      · exact old
      · exact absurd used unused
    intro count least
    cases count with
    | zero => exact atStart
    | succ count => exact behind count (Nat.le_of_succ_le_succ least)

/-! ## The answers of a sequence -/

def stateAt (operations : List Operation) (start : RenameState) (number : Nat) : RenameState :=
  run (operations.take number) start

def answerAt (operations : List Operation) (start : RenameState) (number : Nat) : Option String :=
  operations[number]?.bind fun operation => (operation.perform (stateAt operations start number)).1

/-- The scope in which the first of two operations stands is still open at the second one, and it is
the innermost one there. -/
def SameScope (operations : List Operation) (start : RenameState) (first second : Nat) : Prop :=
  (stateAt operations start second).table.depth = (stateAt operations start first).table.depth ∧
    ∀ between, first ≤ between → between ≤ second →
      (stateAt operations start first).table.depth ≤ (stateAt operations start between).table.depth

theorem stateAt_succ {number : Nat} {operation : Operation}
    (found : operations[number]? = some operation) (start : RenameState) :
    stateAt operations start (number + 1) = (operation.perform (stateAt operations start number)).2 := by
  rw [stateAt, List.take_add_one, found, run_append]
  rfl

theorem stateAt_add (operations : List Operation) (start : RenameState) (first count : Nat) :
    stateAt operations start (first + count) =
      run ((operations.drop first).take count) (stateAt operations start first) := by
  rw [stateAt, List.take_add, run_append]
  rfl

theorem sameScope_of_answerAt {start : RenameState}
    (sound : IsSound start) {first second : Nat} (earlier : first < second) {known : String}
    (answers : answerAt operations start first = some known)
    (answersAgain : answerAt operations start second = some known) :
    (∃ name, operations[first]?.bind Operation.declared? = some name ∧
      operations[second]?.bind Operation.declared? = some name) ∧
      SameScope operations start first second := by
  obtain ⟨former, foundFormer, formerAnswers⟩ := Option.bind_eq_some_iff.mp answers
  obtain ⟨latter, foundLatter, latterAnswers⟩ := Option.bind_eq_some_iff.mp answersAgain
  obtain ⟨name, declares, fixed, -⟩ := Operation.fixes_of_answer formerAnswers
  obtain ⟨other, redeclares, -, origin⟩ := Operation.fixes_of_answer latterAnswers
  rw [← stateAt_succ foundFormer] at fixed
  have behind : IsSound (stateAt operations start (first + 1)) := sound.run _
  have used := behind.used _ _ _ fixed
  obtain ⟨count, rfl⟩ : ∃ count, second = first + 1 + count := Nat.exists_eq_add_of_le earlier
  have within : count ≤ ((operations.drop (first + 1)).take count).length := by
    have least := (List.getElem?_eq_some_iff.mp foundLatter).1
    rw [List.length_take, List.length_drop]
    omega
  rw [stateAt_add] at origin
  have kept := fixes_of_run used (origin.resolve_right fun unused => unused (used_run _ _ used))
  obtain ⟨sameLevel, sameName⟩ := behind.unique _ _ _ _ _ fixed (kept 0 (Nat.zero_le _))
  rw [← stateAt_add] at sameLevel kept
  have sameDepth : (stateAt operations start (first + 1 + count)).table.depth =
      (stateAt operations start first).table.depth := congrArg (· + 1) sameLevel.symm
  refine ⟨⟨name, ?_, ?_⟩, sameDepth, fun between least most => ?_⟩
  · rw [foundFormer, Option.bind_some, declares]
  · rw [foundLatter, Option.bind_some, redeclares, sameName]
  · rcases Nat.eq_or_lt_of_le least with rfl | later
    · exact Nat.le_refl _
    · obtain ⟨offset, rfl⟩ : ∃ offset, between = first + 1 + offset :=
        Nat.exists_eq_add_of_le later
      have stands := kept offset (by omega)
      rw [List.take_take, Nat.min_eq_left (by omega), ← stateAt_add] at stands
      have deep := stands.level_lt
      rw [← sameDepth]
      exact deep

/-- The table is a stack of scopes: some scope is always open; behind a balanced sequence that writes
only in scopes of its own every name has the alias that it had; and with a table from the start on,
two declarations answer with one alias only if they declare one name in one scope that stays open
between them. -/
theorem aliasTable_isStack :
    (∀ operations state, 1 ≤ (run operations state).table.depth) ∧
    (∀ operations state, isConfined 0 operations → ∀ name,
      (run operations state).table.aliasOf name = state.table.aliasOf name ∧
        (run operations state).table.isDeclared name = state.table.isDeclared name) ∧
    ∀ operations registry first second known, first < second →
      answerAt operations ⟨{}, registry⟩ first = some known →
      answerAt operations ⟨{}, registry⟩ second = some known →
      (∃ name, operations[first]?.bind Operation.declared? = some name ∧
        operations[second]?.bind Operation.declared? = some name) ∧
        SameScope operations ⟨{}, registry⟩ first second := by
  refine ⟨fun operations state => Nat.le_add_left 1 _, ?_, ?_⟩
  · intro operations state confined name
    have same : (run operations state).table.scopes = state.table.scopes :=
      scopes_run (List.cons_ne_nil _ _) (List.nil_append _).symm confined
    exact ⟨aliasOf_of_scopes same name, isDeclared_of_scopes same name⟩
  · intro operations registry first second known earlier answers answersAgain
    exact sameScope_of_answerAt (.empty registry) earlier answers answersAgain

def shadowing : List Operation :=
  [.declare "x", .enter, .declare "x", .bind "x" "y", .leave, .declare "x"]

theorem shadowing_isStack :
    (∀ name, (run [.enter, .declare "x", .leave] ⟨{}, {}⟩).table.aliasOf name = name) ∧
      answerAt shadowing ⟨{}, {}⟩ 0 = some "x_0" ∧ answerAt shadowing ⟨{}, {}⟩ 2 = some "x_1" ∧
      answerAt shadowing ⟨{}, {}⟩ 5 = some "x_0" ∧ SameScope shadowing ⟨{}, {}⟩ 0 5 := by
  obtain ⟨-, restores, declares⟩ := aliasTable_isStack
  refine ⟨fun name => (restores _ ⟨{}, {}⟩ (by decide) name).1, rfl, rfl, rfl, ?_⟩
  exact (declares shadowing {} 0 5 "x_0" (by decide) rfl rfl).2

end InlineMacro.AliasTable
