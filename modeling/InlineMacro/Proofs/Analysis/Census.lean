import InlineMacro.Proofs.Association
import InlineMacro.Proofs.Scope.Bindings
import InlineMacro.Proofs.Scope.PlacedUse
import Mathlib.Data.List.Basic
import Mathlib.Data.List.Perm.Subperm
import Mathlib.Logic.Relation

/-!
# What the census enters

The census keeps the names in scope while it goes through a unit. Its entries are, in some order,
one for each visible occurrence of a name, and one more for each visible call that can become a
statement of its own.
-/

set_option autoImplicit false

namespace InlineMacro

/-! ## Entries of occurrences -/

namespace Occurrence

def isVisible (occurrence : Occurrence LocalNames) : Bool :=
  !occurrence.scope.contains occurrence.use.name

def asUsed? (within : Option String) (occurrence : Occurrence LocalNames) :
    Option CensusEntry :=
  if occurrence.isVisible then some (.used within occurrence.use) else none

def asPositioned? (occurrence : Occurrence LocalNames) : Option CensusEntry :=
  if occurrence.isVisible && occurrence.isPositioned then
    occurrence.use.callee?.map .positioned
  else none

def entries (within : Option String) (occurrences : List (Occurrence LocalNames)) :
    List CensusEntry :=
  occurrences.filterMap (asUsed? within) ++ occurrences.filterMap asPositioned?

theorem entries_append (within : Option String) (first second : List (Occurrence LocalNames)) :
    (entries within (first ++ second)).Perm (entries within first ++ entries within second) := by
  simp only [entries, List.filterMap_append, List.append_assoc]
  refine List.Perm.append_left _ ?_
  simp only [← List.append_assoc]
  exact List.Perm.append_right _ List.perm_append_comm

theorem positioned_elsewhereAt (scope : LocalNames) (uses : List Use) :
    (elsewhereAt scope uses).filterMap asPositioned? = [] := by
  simp [elsewhereAt, List.filterMap_map, Function.comp_def, asPositioned?, isPositioned]

theorem used_elsewhereAt (within : Option String) (scope : LocalNames) (uses : List Use) :
    (elsewhereAt scope uses).filterMap (asUsed? within) =
      (uses.filter fun use => !scope.contains use.name).map (.used within) := by
  induction uses with
  | nil => rfl
  | cons use uses ih =>
    rw [elsewhereAt, List.map_cons, List.filterMap_cons]
    cases shadowed : scope.contains use.name with
    | false => simp [asUsed?, isVisible, shadowed, ← ih, elsewhereAt]
    | true => simp [asUsed?, isVisible, shadowed, ← ih, elsewhereAt]

theorem entries_elsewhereAt (within : Option String) (scope : LocalNames) (uses : List Use) :
    entries within (elsewhereAt scope uses) =
      (uses.filter fun use => !scope.contains use.name).map (.used within) := by
  rw [entries, positioned_elsewhereAt, List.append_nil, used_elsewhereAt]

theorem positioned_placedAt (scope : LocalNames) (uses : List (Use × UsePlace)) :
    (placedAt scope true uses).filterMap asPositioned? =
      ((uses.filterMap Use.positionedCallee?).filter fun name => !scope.contains name).map .positioned := by
  induction uses with
  | nil => rfl
  | cons placed uses ih =>
    obtain ⟨use, place⟩ := placed
    unfold placedAt at ih ⊢
    rw [List.map_cons, List.filterMap_cons, List.filterMap_cons, ih]
    cases use with
    | mentioned name =>
      simp [asPositioned?, Use.callee?, Use.positionedCallee?]
    | called name =>
      by_cases elsewhere : place = .elsewhere <;>
        cases shadowed : scope.contains name <;>
        simp [asPositioned?, Use.callee?, Use.positionedCallee?, isVisible, isPositioned,
          elsewhere, shadowed, Use.name]

/-- Placed uses of a block's statement are entered like uses elsewhere, and those that can become
statements of their own once more. -/
theorem entries_placedAt (within : Option String) (scope : LocalNames) (uses : List (Use × UsePlace)) :
    entries within (placedAt scope true uses) = entries within (elsewhereAt scope (uses.map Prod.fst)) ++
        ((uses.filterMap Use.positionedCallee?).filter fun name => !scope.contains name).map .positioned := by
  have used : (placedAt scope true uses).filterMap (asUsed? within) =
      (elsewhereAt scope (uses.map Prod.fst)).filterMap (asUsed? within) := by
    simp [placedAt, elsewhereAt, List.filterMap_map, Function.comp_def, asUsed?, isVisible]
  rw [entries, entries, used, positioned_elsewhereAt, List.append_nil, positioned_placedAt]

theorem entries_placedAt_outside (within : Option String) (scope : LocalNames)
    (uses : List (Use × UsePlace)) : entries within (placedAt scope false uses) =
      entries within (elsewhereAt scope (uses.map Prod.fst)) := by
  simp [entries, placedAt, elsewhereAt, List.filterMap_map, Function.comp_def, asUsed?,
    isVisible, asPositioned?, isPositioned]

end Occurrence

/-- A statement of a block has its uses entered, and those of its calls that can become statements
of their own once more. -/
theorem Statement.entries_inBlock (within : Option String) (scope : LocalNames) (statement : Statement) :
    Occurrence.entries within (statement.occurrences .locals true scope) =
      Occurrence.entries within (statement.occurrences .locals false scope) ++
        ((statement.positionedCalls.filterMap Expr.callee?).filter
          fun name => !scope.contains name).map .positioned := by
  rw [← statement.positioned_ownUses]
  cases statement with
  | expression span value =>
    simp only [Statement.occurrences, Statement.ownUses, Occurrence.entries_placedAt,
      Occurrence.entries_placedAt_outside]
  | returnStatement span value =>
    cases value with
    | none => rfl
    | some value =>
      simp only [Statement.occurrences, Statement.ownUses, Option.map_some, Option.getD_some,
        Occurrence.entries_placedAt, Occurrence.entries_placedAt_outside]
  | ifElse span condition thenBranch elseBranch =>
    cases elseBranch with
    | none => exact (List.append_nil _).symm
    | some elseBranch => exact (List.append_nil _).symm
  | forLoop span init condition update body =>
    cases init with
    | none => exact (List.append_nil _).symm
    | some init => exact (List.append_nil _).symm
  | _ => exact (List.append_nil _).symm

/-! ## What the census enters -/

/-- The census goes from one state to another: it is still in the same function, a scope follows,
and it has entered occurrences in some order. -/
structure CensusState.Enters (state next : CensusState) (scope : LocalNames)
    (occurrences : List (Occurrence LocalNames)) : Prop where
  within : next.within = state.within
  locals : next.locals = scope
  entries : next.entries.Perm (state.entries ++ Occurrence.entries state.within occurrences)

namespace CensusState.Enters

variable {state middle next : CensusState} {scope first second : LocalNames}
  {earlier later : List (Occurrence LocalNames)}

theorem nothing (state : CensusState) (known : state.locals = scope) : state.Enters state scope [] :=
  ⟨rfl, known, by simp [Occurrence.entries]⟩

theorem trans (entered : state.Enters middle first earlier)
    (further : middle.Enters next second later) : state.Enters next second (earlier ++ later) where
  within := further.within.trans entered.within
  locals := further.locals
  entries := by
    refine further.entries.trans ?_
    rw [entered.within]
    refine (entered.entries.append_right _).trans ?_
    rw [List.append_assoc]
    exact (Occurrence.entries_append _ _ _).symm.append_left _

theorem record (state : CensusState) (known : state.locals = scope) (uses : List Use) :
    state.Enters (state.record uses) scope (Occurrence.elsewhereAt scope uses) where
  within := rfl
  locals := known
  entries := by
    rw [Occurrence.entries_elsewhereAt, ← known]
    exact .refl _

theorem placed (state : CensusState) (known : state.locals = scope) (uses : List (Use × UsePlace)) :
    state.Enters (state.record (uses.map Prod.fst)) scope (Occurrence.placedAt scope false uses) := by
  have entered := record state known (uses.map Prod.fst)
  refine ⟨entered.within, entered.locals, ?_⟩
  rw [Occurrence.entries_placedAt_outside]
  exact entered.entries

theorem option (state : CensusState) (known : state.locals = scope) (part : Option Expr) :
    state.Enters (state.option part) scope (Occurrence.elsewhereAt scope (optionalUses Expr.uses part)) := by
  cases part with
  | none => exact nothing state known
  | some value => exact record state known value.uses

theorem loopHead (state : CensusState) (known : state.locals = scope) (condition update : Option Expr) :
    state.Enters ((state.option condition).option update) scope (Occurrence.elsewhereAt scope
        (optionalUses Expr.uses condition ++ optionalUses Expr.uses update)) := by
  have entered := option state known condition
  have both := entered.trans (option _ entered.locals update)
  simpa only [Occurrence.elsewhereAt, List.map_append] using both

theorem declaration (state : CensusState) (known : state.locals = scope)
    (declared : Declaration) :
    state.Enters (state.declaration declared) (scope.declare declared)
      (declared.occurrences .locals scope) := by
  have typed := record state known declared.type.uses
  have opened : state.Enters
      { state.record declared.type.uses with locals := state.locals.declare declared }
      (scope.declare declared) (Occurrence.elsewhereAt scope declared.type.uses) :=
    ⟨rfl, congrArg (·.declare declared) known, typed.entries⟩
  have initialized : ∀ initializer, state.Enters
      (({ state.record declared.type.uses with
        locals := state.locals.declare declared } : CensusState).record initializer)
      (scope.declare declared) (Occurrence.elsewhereAt scope declared.type.uses ++
        Occurrence.elsewhereAt (scope.declare declared) initializer) :=
    fun initializer => opened.trans (record _ opened.locals initializer)
  unfold CensusState.declaration Declaration.occurrences
  cases declared.initializer with
  | none =>
    change state.Enters _ _ (_ ++ [])
    rw [List.append_nil]
    exact opened
  | some initializer => exact initialized initializer.uses

theorem declarations (state : CensusState) (known : state.locals = scope) (declared : List Declaration) :
    state.Enters (declared.foldl CensusState.declaration state)
      (declared.foldl LocalNames.declare scope) (Declaration.listOccurrences .locals scope declared) := by
  induction declared generalizing state scope with
  | nil => exact nothing state known
  | cons first rest ih =>
    have entered := declaration state known first
    exact entered.trans (ih _ entered.locals)

theorem positioned {statement : Statement} (known : state.locals = scope)
    (entered : (state.recordPositioned statement).Enters next first
      (statement.occurrences .locals false scope)) :
    state.Enters next first (statement.occurrences .locals true scope) where
  within := entered.within
  locals := entered.locals
  entries := by
    refine entered.entries.trans ?_
    rw [Statement.entries_inBlock, ← known]
    change ((state.entries ++ _) ++ _).Perm _
    rw [List.append_assoc]
    exact List.perm_append_comm.append_left _

theorem closed {occurrences : List (Occurrence LocalNames)}
    (entered : state.enter.Enters next first occurrences)
    (inner : first.frames.tail = scope.enter.frames.tail) :
    state.Enters next.leave scope occurrences where
  within := entered.within
  locals := by
    change next.locals.leave = scope
    rw [entered.locals]
    exact LocalNames.leave_of_tail inner
  entries := entered.entries

end CensusState.Enters

private theorem listCensus_enters {statements : List Statement}
    (each : ∀ statement ∈ statements, ∀ (state : CensusState) (scope : LocalNames),
      state.locals = scope → state.Enters (statement.census state)
        (statement.scopeAfter .locals scope) (statement.occurrences .locals false scope))
    (state : CensusState) {scope : LocalNames} (known : state.locals = scope) :
    state.Enters (Statement.listCensus state statements) (Statement.listScopeAfter .locals scope statements)
      (Statement.listOccurrences .locals scope statements) := by
  induction statements generalizing state scope with
  | nil => exact .nothing state known
  | cons first rest ih =>
    have entered := CensusState.Enters.positioned known
      (each first (by simp) (state.recordPositioned first) scope known)
    exact entered.trans
      (ih (fun statement member => each statement (by simp [member])) _ entered.locals)

theorem Statement.census_enters (statement : Statement) (state : CensusState)
    {scope : LocalNames} (known : state.locals = scope) :
    state.Enters (statement.census state) (statement.scopeAfter .locals scope)
      (statement.occurrences .locals false scope) := by
  induction statement generalizing state scope with
  | expression span value =>
    have entered := CensusState.Enters.placed state known value.statementUses
    rw [Expr.map_fst_statementUses] at entered
    exact entered
  | block span statements each =>
    have opened : state.enter.locals = scope.enter := congrArg LocalNames.enter known
    exact .closed (listCensus_enters each state.enter opened)
      (Statement.tail_listScopeAfter statements scope.enter)
  | declaration span declarations => exact .declarations state known declarations
  | typeDefinition span type => exact .record state known type.uses
  | ifThen span condition thenBranch ih =>
    have entered := CensusState.Enters.record state known condition.uses
    exact entered.trans (ih _ entered.locals)
  | ifElse span condition thenBranch elseBranch thenIh elseIh =>
    have entered := CensusState.Enters.record state known condition.uses
    have branched := thenIh _ entered.locals
    exact entered.trans (branched.trans (elseIh _ branched.locals))
  | whileLoop span condition body ih =>
    have entered := CensusState.Enters.record state known condition.uses
    exact entered.trans (ih _ entered.locals)
  | bareLoop span condition update body ih =>
    have entered := CensusState.Enters.loopHead state known condition update
    exact entered.trans (ih _ entered.locals)
  | forLoop span init condition update body initIh bodyIh =>
    have opened : state.enter.locals = scope.enter := congrArg LocalNames.enter known
    have started := initIh state.enter opened
    have entered := CensusState.Enters.loopHead _ started.locals condition update
    have looped := bodyIh _ entered.locals
    refine .closed (started.trans (entered.trans looped)) ?_
    rw [body.tail_scopeAfter, init.tail_scopeAfter]
    rfl
  | doWhile span body condition ih =>
    have looped := ih state known
    exact looped.trans (.record _ looped.locals condition.uses)
  | switch span subject body ih =>
    have entered := CensusState.Enters.record state known subject.uses
    exact entered.trans (ih _ entered.locals)
  | caseLabel span value statement ih =>
    have entered := CensusState.Enters.record state known value.uses
    exact entered.trans (ih _ entered.locals)
  | defaultLabel span statement ih => exact ih state known
  | breakStatement span => exact .nothing state known
  | continueStatement span => exact .nothing state known
  | returnStatement span value =>
    cases value with
    | none => exact .nothing state known
    | some value =>
      have entered := CensusState.Enters.placed state known (value.placedUses (.call .returned))
      rw [Expr.map_fst_placedUses] at entered
      exact entered
  | gotoStatement span label => exact .nothing state known
  | labelled span label statement ih => exact ih state known
  | empty span => exact .nothing state known

/-! ## The census of a unit -/

def Item.within? (item : Item) : Option String :=
  item.function?.map Function.name

def Item.entries (item : Item) : List CensusEntry :=
  Occurrence.entries item.within? (item.occurrences .locals)

theorem CensusState.eq_of_outside {state : CensusState} (within : state.within = none)
    (locals : state.locals = {}) : state = { entries := state.entries } := by
  cases state
  cases within
  cases locals
  rfl

theorem Item.census_entries (item : Item) (entries : List CensusEntry) :
    ∃ further, item.census { entries := entries } = { entries := further } ∧
      further.Perm (entries ++ item.entries) := by
  cases item with
  | function definition =>
    let opened : CensusState :=
      { within := some definition.name, locals := .ofFunction definition, entries := entries }
    have entered := CensusState.Enters.record opened rfl
      (definition.result.uses ++ Parameter.listUses definition.parameters)
    have whole := entered.trans (definition.body.census_enters _ entered.locals)
    exact ⟨_, rfl, whole.entries⟩
  | declaration declared =>
    have entered := CensusState.Enters.declaration { entries := entries } rfl declared
    have outside : Scoping.locals.declare {} declared = {} := LocalNames.declare_outside declared
    have same : declared.occurrences .locals {} =
        Item.occurrences .locals (.declaration declared) := by
      rw [Declaration.occurrences, outside]
      simp [Item.occurrences, Occurrence.elsewhereAt, Scoping.locals]
    refine ⟨_, CensusState.eq_of_outside entered.within (entered.locals.trans outside), ?_⟩
    rw [Item.entries, ← same]
    exact entered.entries
  | typeDefinition type span =>
    exact ⟨_, rfl, (CensusState.Enters.record { entries := entries } rfl type.uses).entries⟩
  | verbatim text span =>
    exact ⟨entries, rfl, by simp [Item.entries, Item.occurrences, Occurrence.entries]⟩

theorem Item.foldl_census_entries (items : List Item) (entries : List CensusEntry) :
    ((items.foldl Item.census { entries := entries }).entries).Perm
      (entries ++ items.flatMap Item.entries) := by
  induction items generalizing entries with
  | nil => simp
  | cons item items ih =>
    obtain ⟨further, counted, entered⟩ := item.census_entries entries
    rw [List.foldl_cons, counted, List.flatMap_cons, ← List.append_assoc]
    exact (ih further).trans (entered.append_right _)

theorem CompilationUnit.census_entries (unit : CompilationUnit) :
    unit.census.entries.Perm (unit.items.flatMap Item.entries) :=
  Item.foldl_census_entries unit.items []

/-! ## What the census tells -/

namespace CensusEntry

def isCall (name : String) : CensusEntry → Bool
  | used _ use => use == .called name
  | positioned _ => false

def isPositionedCall (name : String) : CensusEntry → Bool
  | used .. => false
  | positioned callee => callee == name

end CensusEntry

theorem Census.calls_eq_countP (census : Census) (name : String) :
    census.calls name = census.entries.countP (CensusEntry.isCall name) := by
  refine List.countP_congr fun entry _ => ?_
  cases entry with
  | used within use => cases use <;> simp [CensusEntry.isCall]
  | positioned callee => rfl

theorem Census.positionedCalls_eq_countP (census : Census) (name : String) :
    census.positionedCalls name = census.entries.countP (CensusEntry.isPositionedCall name) := by
  refine List.countP_congr fun entry _ => ?_
  cases entry <;> rfl

namespace Occurrence

variable (name : String) (within : Option String) (occurrences : List (Occurrence LocalNames))

def callsVisibly (occurrence : Occurrence LocalNames) : Bool :=
  occurrence.isVisible && occurrence.use == .called name

theorem countP_isCall_entries : (entries within occurrences).countP (CensusEntry.isCall name) =
      occurrences.countP (callsVisibly name) := by
  have positioned : (occurrences.filterMap asPositioned?).countP (CensusEntry.isCall name) = 0 := by
    simp only [List.countP_eq_zero, List.mem_filterMap, asPositioned?]
    rintro entry ⟨occurrence, -, entered⟩
    cases callee : occurrence.use.callee? with
    | none => simp [callee] at entered
    | some callee =>
      simp only [callee, Option.map_some, Option.ite_none_right_eq_some, Option.some.injEq] at entered
      simp [← entered.2, CensusEntry.isCall]
  rw [entries, List.countP_append, positioned, Nat.add_zero, List.countP_filterMap]
  refine List.countP_congr fun occurrence _ => ?_
  rw [asUsed?, callsVisibly]
  cases occurrence.isVisible <;> simp [CensusEntry.isCall]

theorem countP_isPositionedCall_entries :
    (entries within occurrences).countP (CensusEntry.isPositionedCall name) =
      occurrences.countP fun occurrence =>
        callsVisibly name occurrence && occurrence.isPositioned := by
  have used : (occurrences.filterMap (asUsed? within)).countP
      (CensusEntry.isPositionedCall name) = 0 := by
    simp only [List.countP_eq_zero, List.mem_filterMap, asUsed?]
    rintro entry ⟨occurrence, -, entered⟩
    simp only [Option.ite_none_right_eq_some, Option.some.injEq] at entered
    simp [← entered.2, CensusEntry.isPositionedCall]
  rw [entries, List.countP_append, used, Nat.zero_add, List.countP_filterMap]
  refine List.countP_congr fun occurrence _ => ?_
  rw [asPositioned?, callsVisibly]
  cases occurrence.isVisible <;> cases occurrence.isPositioned <;> cases occurrence.use <;>
    simp [Use.callee?, CensusEntry.isPositionedCall]

end Occurrence

section Told

variable (unit : CompilationUnit) (name : String)

theorem CompilationUnit.census_calls : unit.census.calls name =
      (unit.occurrences .locals).countP (Occurrence.callsVisibly name) := by
  rw [Census.calls_eq_countP, unit.census_entries.countP_eq, List.countP_flatMap,
    CompilationUnit.occurrences, List.countP_flatMap]
  refine congrArg List.sum (List.map_congr_left fun item _ => ?_)
  exact Occurrence.countP_isCall_entries name item.within? (item.occurrences .locals)

theorem CompilationUnit.census_positionedCalls : unit.census.positionedCalls name =
      (unit.occurrences .locals).countP fun occurrence =>
        occurrence.callsVisibly name && occurrence.isPositioned := by
  rw [Census.positionedCalls_eq_countP, unit.census_entries.countP_eq, List.countP_flatMap,
    CompilationUnit.occurrences, List.countP_flatMap]
  refine congrArg List.sum (List.map_congr_left fun item _ => ?_)
  exact Occurrence.countP_isPositionedCall_entries name item.within? (item.occurrences .locals)

theorem CompilationUnit.isCalledInExpression_iff : unit.census.isCalledInExpression name ↔
      ∃ occurrence ∈ unit.occurrences .locals, occurrence.isVisible ∧
        occurrence.use = .called name ∧ ¬ occurrence.isPositioned := by
  have parted := List.countP_eq_countP_filter_add (unit.occurrences .locals)
    (Occurrence.callsVisibly name) Occurrence.isPositioned
  simp only [List.countP_filter] at parted
  rw [Census.isCalledInExpression, decide_eq_true_iff, unit.census_calls,
    unit.census_positionedCalls, parted, Nat.lt_add_right_iff_pos, List.countP_pos_iff]
  simp [Occurrence.callsVisibly, and_assoc]

theorem CompilationUnit.used_mem_entries (within : Option String) (use : Use) :
    .used within use ∈ unit.census.entries ↔ ∃ item ∈ unit.items, item.within? = within ∧
        ∃ occurrence ∈ item.occurrences .locals, occurrence.isVisible ∧ occurrence.use = use := by
  rw [unit.census_entries.mem_iff, List.mem_flatMap]
  refine exists_congr fun item => and_congr_right fun _ => ?_
  rw [Item.entries, Occurrence.entries, List.mem_append, List.mem_filterMap, List.mem_filterMap]
  constructor
  · rintro (⟨occurrence, member, entered⟩ | ⟨occurrence, member, entered⟩)
    · simp only [Occurrence.asUsed?, Option.ite_none_right_eq_some, Option.some.injEq,
        CensusEntry.used.injEq] at entered
      exact ⟨entered.2.1, occurrence, member, entered.1, entered.2.2⟩
    · simp [Occurrence.asPositioned?] at entered
  · rintro ⟨rfl, occurrence, member, visible, rfl⟩
    exact .inl ⟨occurrence, member, by simp [Occurrence.asUsed?, visible]⟩

theorem CompilationUnit.isMentioned_iff : unit.census.isMentioned name ↔
      ∃ occurrence ∈ unit.occurrences .locals, occurrence.isVisible ∧ occurrence.use = .mentioned name := by
  have entered : unit.census.isMentioned name ↔
      ∃ within, .used within (.mentioned name) ∈ unit.census.entries := by
    rw [Census.isMentioned, List.any_eq_true]
    constructor
    · rintro ⟨entry, member, mentioned⟩
      split at mentioned
      · next within _ => exact ⟨within, (beq_iff_eq.mp mentioned) ▸ member⟩
      · cases mentioned
    · rintro ⟨within, member⟩
      exact ⟨_, member, beq_self_eq_true name⟩
  simp only [entered, unit.used_mem_entries, CompilationUnit.occurrences, List.mem_flatMap]
  constructor
  · rintro ⟨within, item, member, -, occurrence, found, visible⟩
    exact ⟨occurrence, ⟨item, member, found⟩, visible⟩
  · rintro ⟨occurrence, ⟨item, member, found⟩, visible⟩
    exact ⟨item.within?, item, member, rfl, occurrence, found, visible⟩

theorem CompilationUnit.mem_callees (caller callee : String) : callee ∈ unit.census.callees caller ↔
      ∃ function ∈ unit.functions, function.name = caller ∧
        ∃ occurrence ∈ function.occurrences .locals, occurrence.isVisible ∧
          occurrence.use = .called callee := by
  have entered : callee ∈ unit.census.callees caller ↔
      .used (some caller) (.called callee) ∈ unit.census.entries := by
    rw [Census.callees, List.mem_filterMap]
    constructor
    · rintro ⟨entry, member, found⟩
      split at found
      · simp only [beq_iff_eq, Option.ite_none_right_eq_some, Option.some.injEq] at found
        obtain ⟨rfl, rfl⟩ := found
        exact member
      · cases found
    · intro member
      exact ⟨_, member, by simp⟩
  rw [entered, unit.used_mem_entries]
  constructor
  · rintro ⟨item, member, within, found⟩
    cases item with
    | function definition =>
      exact ⟨definition, List.mem_filterMap.mpr ⟨_, member, rfl⟩, Option.some.inj within, found⟩
    | _ => cases within
  · rintro ⟨function, member, rfl, found⟩
    obtain ⟨item, member, isFunction⟩ := List.mem_filterMap.mp member
    cases item with
    | function definition =>
      cases isFunction
      exact ⟨_, member, rfl, found⟩
    | _ => cases isFunction

end Told

/-!
## Recursion through calls

The census searches for the functions that the calls in a function lead to. The search ends with a
set of names that no call leaves, so a function is found recursive exactly if a path of calls leads
from it back to it.
-/

namespace Census

variable (census : Census)

def Calls (caller callee : String) : Prop := callee ∈ census.callees caller

def allCallees : List String :=
  census.entries.filterMap fun
    | .used (some _) (.called callee) => some callee
    | _ => none

theorem length_allCallees_le : census.allCallees.length ≤ census.entries.length :=
  List.length_filterMap_le _ _

theorem callees_subset (caller : String) : census.callees caller ⊆ census.allCallees := by
  intro callee called
  obtain ⟨entry, member, found⟩ := List.mem_filterMap.mp called
  refine List.mem_filterMap.mpr ⟨entry, member, ?_⟩
  split at found
  · split at found
    · exact found
    · cases found
  · cases found

/-- Names that a search has found: no name twice, and callees only. -/
structure Found (names : List String) : Prop where
  unique : names.Nodup
  callees : names ⊆ census.allCallees

variable {census} {names : List String}

theorem Found.length_le (found : census.Found names) : names.length ≤ census.entries.length :=
  Nat.le_trans (List.subperm_of_subset found.unique found.callees).length_le census.length_allCallees_le

def newCallees (census : Census) (names : List String) : List String :=
  (names.flatMap census.callees).eraseDups.filter (!names.contains ·)

theorem mem_newCallees {callee : String} : callee ∈ census.newCallees names ↔
      (∃ caller ∈ names, census.Calls caller callee) ∧ callee ∉ names := by
  simp [newCallees, Calls]

theorem Found.append_newCallees (found : census.Found names) :
    census.Found (names ++ census.newCallees names) where
  unique := by
    refine List.nodup_append.mpr ⟨found.unique, (nodup_eraseDups _).filter _, ?_⟩
    rintro callee earlier _ new rfl
    exact (mem_newCallees.mp new).2 earlier
  callees := by
    refine List.append_subset.mpr ⟨found.callees, fun callee new => ?_⟩
    obtain ⟨⟨caller, -, called⟩, -⟩ := mem_newCallees.mp new
    exact census.callees_subset caller called

theorem reachedWithin_sound (budget : Nat) {name : String}
    (reached : name ∈ census.reachedWithin budget names) :
    ∃ start ∈ names, Relation.ReflTransGen census.Calls start name := by
  induction budget generalizing names with
  | zero => exact ⟨name, reached, .refl⟩
  | succ budget ih =>
    change name ∈ (if (census.newCallees names).isEmpty then names
      else census.reachedWithin budget (names ++ census.newCallees names)) at reached
    split at reached
    · exact ⟨name, reached, .refl⟩
    · obtain ⟨start, member, path⟩ := ih reached
      rcases List.mem_append.mp member with member | new
      · exact ⟨start, member, path⟩
      · obtain ⟨⟨caller, member, called⟩, -⟩ := mem_newCallees.mp new
        exact ⟨caller, member, .head called path⟩

/-- A set of names that contains the start and that no call leaves is found, if the budget is not
smaller than the number of callees that are still unknown. -/
theorem reachedWithin_closed (budget : Nat) (found : census.Found names)
    (enough : census.entries.length < budget + names.length) : names ⊆ census.reachedWithin budget names ∧
      ∀ caller ∈ census.reachedWithin budget names, ∀ callee, census.Calls caller callee →
        callee ∈ census.reachedWithin budget names := by
  induction budget generalizing names with
  | zero =>
    have bounded := found.length_le
    omega
  | succ budget ih =>
    rw [show census.reachedWithin (budget + 1) names =
      if (census.newCallees names).isEmpty then names
      else census.reachedWithin budget (names ++ census.newCallees names) from rfl]
    split
    · next noneNew =>
      refine ⟨List.Subset.refl _, fun caller member callee called => ?_⟩
      by_contra unknown
      have new := mem_newCallees.mpr ⟨⟨caller, member, called⟩, unknown⟩
      rw [List.isEmpty_iff.mp noneNew] at new
      cases new
    · next someNew =>
      have longer : 0 < (census.newCallees names).length := by
        rw [List.length_pos_iff]
        simpa using someNew
      have closed := ih found.append_newCallees (by rw [List.length_append]; omega)
      exact ⟨List.Subset.trans (List.subset_append_left _ _) closed.1, closed.2⟩

theorem mem_reached {name reached : String} :
    reached ∈ census.reached name ↔ Relation.TransGen census.Calls name reached := by
  constructor
  · intro member
    obtain ⟨start, called, path⟩ := reachedWithin_sound _ member
    exact .head' (List.mem_eraseDups.mp called) path
  · intro path
    have found : census.Found (census.callees name).eraseDups :=
      ⟨nodup_eraseDups _, fun callee called =>
        census.callees_subset name (List.mem_eraseDups.mp called)⟩
    have closed := reachedWithin_closed (census.entries.length + 1) found (by omega)
    induction path with
    | single called => exact closed.1 (List.mem_eraseDups.mpr called)
    | tail _ called ih => exact closed.2 _ ih _ called

theorem isRecursive_iff {name : String} :
    census.isRecursive name ↔ Relation.TransGen census.Calls name name := by
  rw [isRecursive, List.contains_iff_mem, mem_reached]

end Census

end InlineMacro
