import InlineMacro.Labels
import InlineMacro.Proofs.Run.Success
import Mathlib.Data.Set.Function

/-!
# Labels with short names

The labels of each function are renamed by one map, which keeps different labels different, and all
else in the unit stays. The map is known only when the function has been traversed: on the way there
is a table, which every step extends, and a step that has renamed a label has done so as every later
table does.
-/

set_option autoImplicit false

namespace InlineMacro

/-! ## Renaming labels -/

namespace Statement

mutual

def relabel (rename : String → String) : Statement → Statement
  | .gotoStatement span label => .gotoStatement span (rename label)
  | .labelled span label statement => .labelled span (rename label) (statement.relabel rename)
  | .block span statements => .block span (relabelList rename statements)
  | .ifElse span condition thenBranch elseBranch =>
    .ifElse span condition (thenBranch.relabel rename) (relabelOption rename elseBranch)
  | .whileLoop span condition body => .whileLoop span condition (body.relabel rename)
  | .forLoop span init condition update body =>
    .forLoop span (relabelOption rename init) condition update (body.relabel rename)
  | .doWhile span body condition => .doWhile span (body.relabel rename) condition
  | .switch span subject body => .switch span subject (body.relabel rename)
  | .caseLabel span value statement => .caseLabel span value (statement.relabel rename)
  | .defaultLabel span statement => .defaultLabel span (statement.relabel rename)
  | .expression span value => .expression span value
  | .declaration span declarations => .declaration span declarations
  | .typeDefinition span type => .typeDefinition span type
  | .breakStatement span => .breakStatement span
  | .continueStatement span => .continueStatement span
  | .returnStatement span value => .returnStatement span value
  | .empty span => .empty span

def relabelList (rename : String → String) : List Statement → List Statement
  | [] => []
  | statement :: statements => statement.relabel rename :: relabelList rename statements

def relabelOption (rename : String → String) : Option Statement → Option Statement
  | none => none
  | some statement => some (statement.relabel rename)

end

def jumpName? : Statement → Option String
  | .gotoStatement _ label => some label
  | .labelled _ label _ => some label
  | _ => none

def jumpNames (statement : Statement) : List String := statement.parts.filterMap jumpName?

end Statement

def Item.relabel (rename : String → String) : Item → Item
  | .function definition => .function { definition with body := definition.body.relabel rename }
  | item => item

def Item.jumpNames : Item → List String
  | .function definition => definition.body.jumpNames
  | _ => []

def CompilationUnit.relabel (unit : CompilationUnit) (rename : Nat → String → String) :
    CompilationUnit :=
  { unit with items := unit.items.mapIdx fun number item => item.relabel (rename number) }

/-! ## Tables -/

namespace LabelState

def rename (state : LabelState) (label : String) : String := (state.given.find? label).getD label

/-- The short names of a function differ, and came into use since it was begun. -/
structure IsFresh (start : Registry) (state : LabelState) : Prop where
  unused : ∀ label name, state.given.find? label = some name → name ∉ start.used
  used : ∀ label name, state.given.find? label = some name → name ∈ state.registry.used
  apart : ∀ label other name, state.given.find? label = some name →
    state.given.find? other = some name → label = other
  grows : ∀ name ∈ start.used, name ∈ state.registry.used

theorem IsFresh.insert {start registry : Registry} {state : LabelState} (fresh : IsFresh start state)
    {label name : String} (missing : state.given.find? label = none)
    (issues : state.registry.Issues registry [name]) :
    IsFresh start ⟨registry, state.given.insert label name⟩ := by
  have isNew : name ∉ state.registry.used := issues.fresh name (List.mem_singleton.mpr rfl)
  have ofInsert {other found : String} (given : (state.given.insert label name).find? other = some found) :
      (other = label ∧ found = name) ∨ state.given.find? other = some found := by
    rw [Association.find?_insert] at given
    split at given
    · next same => exact .inl ⟨same, (Option.some.inj given).symm⟩
    · exact .inr given
  refine ⟨?_, ?_, ?_, fun name old => issues.mem_used (fresh.grows name old)⟩
  · intro other found given old
    rcases ofInsert given with ⟨rfl, rfl⟩ | given
    · exact isNew (fresh.grows found old)
    · exact fresh.unused other found given old
  · intro other found given
    rcases ofInsert given with ⟨rfl, rfl⟩ | given
    · exact (issues.used found).mpr (.inl (List.mem_singleton.mpr rfl))
    · exact issues.mem_used (fresh.used other found given)
  · intro first second found firstGiven secondGiven
    rcases ofInsert firstGiven with ⟨sameFirst, isName⟩ | firstKept <;>
      rcases ofInsert secondGiven with ⟨sameSecond, isSecondName⟩ | secondKept
    · rw [sameFirst, sameSecond]
    · exact absurd (fresh.used second found secondKept) (isName ▸ isNew)
    · exact absurd (fresh.used first found firstKept) (isSecondName ▸ isNew)
    · exact fresh.apart first second found firstKept secondKept

/-- A state of a function comes behind another. -/
structure Extends (before after : LabelState) : Prop where
  keeps : ∀ label name, before.given.find? label = some name → after.given.find? label = some name
  fresh : ∀ start, IsFresh start before → IsFresh start after

namespace Extends

variable {first second third : LabelState}

theorem refl (state : LabelState) : Extends state state := ⟨fun _ _ => id, fun _ => id⟩

theorem trans (former : Extends first second) (latter : Extends second third) : Extends first third :=
  ⟨fun label name found => latter.keeps label name (former.keeps label name found),
    fun start fresh => latter.fresh start (former.fresh start fresh)⟩

end Extends

end LabelState

/-! ## One step after another -/

namespace Labelling

variable {α β : Type}

/-- A computation gives short names to some labels, and renames them in what it computes as every
later table does. -/
structure Renamed (labels : List String) (relabelled : (String → String) → α) (before : LabelState)
    (value : α) (after : LabelState) : Prop where
  isExtended : before.Extends after
  named : ∀ label ∈ labels, (after.given.find? label).isSome
  same : ∀ later, after.Extends later → value = relabelled later.rename

def Shortens (computation : Labelling α) (labels : List String)
    (relabelled : (String → String) → α) : Prop :=
  ∀ state, Ensures computation state (Renamed labels relabelled state)

namespace Shortens

variable {computation : Labelling α} {labels others : List String}
  {relabelled : (String → String) → α}

theorem pure (value : α) : Shortens (Pure.pure value) [] fun _ => value :=
  fun state => ⟨.refl state, fun _ member => absurd member List.not_mem_nil, fun _ _ => rfl⟩

theorem bind {next : α → Labelling β} {whole : α → (String → String) → β}
    (first : Shortens computation labels relabelled)
    (rest : ∀ value, Shortens (next value) others (whole value)) :
    Shortens (computation >>= next) (labels ++ others) fun rename => whole (relabelled rename) rename := by
  refine fun state => (first state).bind fun value between former => ?_
  refine (rest value between).mono fun result after latter => ?_
  refine ⟨former.isExtended.trans latter.isExtended, ?_, fun later isLater => ?_⟩
  · intro label member
    rcases List.mem_append.mp member with member | member
    · obtain ⟨name, found⟩ := Option.isSome_iff_exists.mp (former.named label member)
      rw [latter.isExtended.keeps label name found]
      rfl
    · exact latter.named label member
  · rw [latter.same later isLater, ← former.same later (latter.isExtended.trans isLater)]

theorem build (shortens : Shortens computation labels relabelled) (built : α → β) :
    Shortens (do return built (← computation)) labels fun rename => built (relabelled rename) := by
  have whole := shortens.bind fun value => pure (built value)
  rwa [List.append_nil] at whole

end Shortens

theorem shortName_shortens (label : String) :
    Shortens (shortName label) [label] fun rename => rename label := by
  intro state
  refine .bindGet ?_
  split
  · next name found =>
    refine .pure ⟨.refl state, by simp [found], fun later isLater => ?_⟩
    rw [LabelState.rename, isLater.keeps label name found]
    rfl
  · next missing =>
    have issues := state.registry.freshLabel_issues
    refine .bindSet (.pure ⟨⟨?_, ?_⟩, ?_, ?_⟩)
    · intro other name found
      rw [Association.find?_insert, if_neg]
      · exact found
      · rintro rfl
        rw [missing] at found
        cases found
    · exact fun start fresh => fresh.insert missing issues
    · simp [Association.find?_insert]
    · intro later isLater
      rw [LabelState.rename, isLater.keeps label _ (by rw [Association.find?_insert, if_pos rfl])]
      rfl

/-! ## Statements -/

theorem shortening_keepsWords : shortening.KeepsWords :=
  ⟨fun _ => rfl, fun _ => rfl, fun _ => rfl, fun _ => rfl⟩

theorem Shortens.relabels {α : Type} {computation : Labelling α} {labels others : List String}
    {relabelled other : (String → String) → α} (shortens : Shortens computation labels relabelled)
    (sameLabels : labels = others) (same : ∀ rename, relabelled rename = other rename) :
    Shortens computation others other := by
  rwa [← sameLabels, ← funext same]

theorem traverseList_shortens {statements : List Statement}
    (each : ∀ statement ∈ statements, Shortens (statement.traverse shortening) statement.jumpNames
      (statement.relabel ·)) : Shortens (Statement.traverseList shortening statements)
      (statements.flatMap Statement.jumpNames) (Statement.relabelList · statements) := by
  induction statements with
  | nil => exact .pure []
  | cons statement statements ih =>
    obtain ⟨first, others⟩ := List.forall_mem_cons.mp each
    refine (first.bind fun value => (ih others).bind fun values =>
      .pure (value :: values)).relabels ?_ fun _ => rfl
    rw [List.append_nil, List.flatMap_cons]

theorem jumpNames_listParts (statements : List Statement) :
    (Statement.listParts statements).filterMap Statement.jumpName? =
      statements.flatMap Statement.jumpNames := by
  rw [Statement.listParts, List.filterMap_flatMap]
  rfl

theorem jumpNames_of_parts {statement : Statement} {inside : List Statement}
    (parts : statement.parts = statement :: inside) (unmarked : statement.jumpName? = none) :
    statement.jumpNames = inside.filterMap Statement.jumpName? := by
  rw [Statement.jumpNames, parts, List.filterMap_cons_none unmarked]

theorem traverse_shortens (statement : Statement) :
    Shortens (statement.traverse shortening) statement.jumpNames (statement.relabel ·) := by
  have value (part : Expr) := part.traverse_eq shortening_keepsWords
  have option (part : Option Expr) := traverseOption_eq value part
  have enter (node : Node) : shortening.enter node = pure () := rfl
  induction statement with
  | expression | breakStatement | continueStatement | returnStatement | empty | declaration
  | typeDefinition =>
    simp [Statement.traverse, enter, value, option, Statement.jumpNames, Statement.jumpName?,
      Declaration.traverseList_eq shortening_keepsWords, CType.traverse_eq shortening_keepsWords,
      Statement.relabel]
    exact .pure _
  | block span statements ih =>
    refine ((traverseList_shortens ih).build (Statement.block span)).relabels ?_ fun _ => rfl
    rw [jumpNames_of_parts (Statement.parts_block span statements) rfl, jumpNames_listParts]
  | ifThen span condition thenBranch ih =>
    simp only [Statement.traverse, enter, value, pure_bind]
    exact (ih.build (Statement.ifElse span condition · none)).relabels
      (jumpNames_of_parts (Statement.parts_ifThen ..) rfl).symm fun _ => rfl
  | ifElse span condition thenBranch elseBranch thenIh elseIh =>
    simp only [Statement.traverse, enter, value, pure_bind]
    refine (thenIh.bind fun first => (elseIh.build some).build
      (Statement.ifElse span condition first)).relabels ?_ fun _ => rfl
    rw [jumpNames_of_parts (Statement.parts_ifElse ..) rfl, List.filterMap_append]
    rfl
  | whileLoop span condition body ih =>
    simp only [Statement.traverse, enter, value, pure_bind]
    exact (ih.build (Statement.whileLoop span condition)).relabels
      (jumpNames_of_parts (Statement.parts_whileLoop ..) rfl).symm fun _ => rfl
  | bareLoop span condition update body ih =>
    simp only [Statement.traverse, Statement.traverseOptional, enter, option, pure_bind]
    exact (ih.build (Statement.forLoop span none condition update)).relabels
      (jumpNames_of_parts (Statement.parts_bareLoop ..) rfl).symm fun _ => rfl
  | forLoop span init condition update body initIh bodyIh =>
    simp only [Statement.traverse, enter, option, pure_bind]
    refine ((initIh.build some).bind fun init => bodyIh.build
      (Statement.forLoop span init condition update)).relabels ?_ fun _ => rfl
    rw [jumpNames_of_parts (Statement.parts_forLoop ..) rfl, List.filterMap_append]
    rfl
  | doWhile span body condition ih =>
    simp only [Statement.traverse, enter, value, pure_bind]
    exact (ih.build (Statement.doWhile span · condition)).relabels
      (jumpNames_of_parts (Statement.parts_doWhile ..) rfl).symm fun _ => rfl
  | switch span subject body ih =>
    simp only [Statement.traverse, enter, value, pure_bind]
    exact (ih.build (Statement.switch span subject)).relabels
      (jumpNames_of_parts (Statement.parts_switch ..) rfl).symm fun _ => rfl
  | caseLabel span label statement ih =>
    simp only [Statement.traverse, enter, value, pure_bind]
    exact (ih.build (Statement.caseLabel span label)).relabels
      (jumpNames_of_parts (Statement.parts_caseLabel ..) rfl).symm fun _ => rfl
  | defaultLabel span statement ih =>
    simp only [Statement.traverse, enter, pure_bind]
    exact (ih.build (Statement.defaultLabel span)).relabels
      (jumpNames_of_parts (Statement.parts_defaultLabel ..) rfl).symm fun _ => rfl
  | gotoStatement span label => exact (shortName_shortens label).build (Statement.gotoStatement span)
  | labelled span label statement ih =>
    exact (shortName_shortens label).bind fun name => ih.build (Statement.labelled span name)

/-! ## Functions and items -/

def IsJumpName (items : List Item) (number : Nat) (label : String) : Prop :=
  ∃ item, items[number]? = some item ∧ label ∈ item.jumpNames

/-- What becomes of the labels of items: in each function they are renamed by one map, to names that
come into use with them, each to a name of its own. -/
structure Relabels (rename : Nat → String → String) (items : List Item) (before after : Registry) :
    Prop where
  unused : ∀ number label, IsJumpName items number label → rename number label ∉ before.used
  used : ∀ number label, IsJumpName items number label → rename number label ∈ after.used
  injective : ∀ number, Set.InjOn (rename number) { label | IsJumpName items number label }
  apart : ∀ number other label otherLabel, number ≠ other → IsJumpName items number label →
    IsJumpName items other otherLabel → rename number label ≠ rename other otherLabel
  grows : ∀ name ∈ before.used, name ∈ after.used

theorem Relabels.plain {items : List Item} (plain : ∀ item ∈ items, item.jumpNames = [])
    (rename : Nat → String → String) (registry : Registry) : Relabels rename items registry registry := by
  have none (number : Nat) (label : String) : ¬ IsJumpName items number label := by
    rintro ⟨item, isItem, member⟩
    rw [plain item (List.mem_of_getElem? isItem)] at member
    exact List.not_mem_nil member
  exact ⟨fun number label member => absurd member (none number label),
    fun number label member => absurd member (none number label),
    fun number label member => absurd member (none number label),
    fun number _ label _ _ member => absurd member (none number label), fun _ => id⟩

theorem isJumpName_zero {item : Item} {items : List Item} {label : String} :
    IsJumpName (item :: items) 0 label ↔ label ∈ item.jumpNames := by
  simp [IsJumpName]

theorem isJumpName_succ {item : Item} {items : List Item} {number : Nat} {label : String} :
    IsJumpName (item :: items) (number + 1) label ↔ IsJumpName items number label := by
  simp [IsJumpName]

theorem Relabels.cons {rename : String → String} {others : Nat → String → String} {item : Item}
    {items : List Item} {before between after : Registry}
    (first : Relabels (fun _ => rename) [item] before between) (rest : Relabels others items between after) :
    Relabels (fun | 0 => rename | number + 1 => others number) (item :: items) before after := by
  have ofFirst {label : String} (member : IsJumpName (item :: items) 0 label) :
      IsJumpName [item] 0 label := isJumpName_zero.mpr (isJumpName_zero.mp member)
  have differ {number : Nat} {label other : String} (member : IsJumpName (item :: items) 0 label)
      (otherMember : IsJumpName (item :: items) (number + 1) other) :
      rename label ≠ others number other := by
    intro same
    have early := first.used 0 label (ofFirst member)
    exact rest.unused number other (isJumpName_succ.mp otherMember) (same ▸ early)
  refine ⟨?_, ?_, ?_, ?_, fun name old => rest.grows name (first.grows name old)⟩
  · rintro (_ | number) label member
    · exact first.unused 0 label (ofFirst member)
    · exact fun old =>
        rest.unused number label (isJumpName_succ.mp member) (first.grows _ old)
  · rintro (_ | number) label member
    · exact rest.grows _ (first.used 0 label (ofFirst member))
    · exact rest.used number label (isJumpName_succ.mp member)
  · rintro (_ | number) label member other otherMember same
    · exact first.injective 0 (ofFirst member) (ofFirst otherMember) same
    · exact rest.injective number (isJumpName_succ.mp member) (isJumpName_succ.mp otherMember) same
  · rintro (_ | number) (_ | other) label otherLabel different member otherMember
    · exact absurd rfl different
    · exact differ member otherMember
    · exact (differ otherMember member).symm
    · exact rest.apart number other label otherLabel (fun same => different (congrArg _ same))
        (isJumpName_succ.mp member) (isJumpName_succ.mp otherMember)

theorem function_relabels (definition : Function) (state : LabelState) :
    Ensures (function definition) state fun result after => ∃ rename : String → String,
      .function result = (Item.function definition).relabel rename ∧
      Relabels (fun _ => rename) [.function definition] state.registry after.registry := by
  have start : LabelState.IsFresh state.registry ⟨state.registry, []⟩ := by
    refine ⟨?_, ?_, ?_, fun _ => id⟩ <;> intros <;> contradiction
  refine .bindModify (.bind (traverse_shortens definition.body _) fun body after renamed => .pure ?_)
  have fresh := renamed.isExtended.fresh _ start
  have found {number : Nat} {label : String} (member : IsJumpName [.function definition] number label) :
      after.given.find? label = some (after.rename label) := by
    obtain ⟨item, isItem, member⟩ := member
    rw [List.mem_singleton.mp (List.mem_of_getElem? isItem)] at member
    obtain ⟨name, found⟩ := Option.isSome_iff_exists.mp (renamed.named label member)
    rw [LabelState.rename, found]
    rfl
  refine ⟨after.rename, ?_, ?_, ?_, ?_, ?_, fresh.grows⟩
  · rw [renamed.same after (.refl after)]
    rfl
  · exact fun number label member => fresh.unused label _ (found member)
  · exact fun number label member => fresh.used label _ (found member)
  · intro number label member other otherMember same
    exact fresh.apart label other _ (found member) (same ▸ found otherMember)
  · rintro number other label otherLabel different ⟨_, isItem, _⟩ ⟨_, isOther, _⟩
    have first := (List.getElem?_eq_some_iff.mp isItem).1
    have second := (List.getElem?_eq_some_iff.mp isOther).1
    rw [List.length_singleton] at first second
    omega

theorem items_relabels (given : List Item) (state : LabelState) :
    Ensures (items given) state fun result after => ∃ rename : Nat → String → String,
      result = given.mapIdx (fun number item => item.relabel (rename number)) ∧
      Relabels rename given state.registry after.registry := by
  induction given generalizing state with
  | nil => exact ⟨fun _ => id, rfl, .plain (List.forall_mem_nil _) _ state.registry⟩
  | cons item rest ih =>
    have behind {definition : Item} {between : LabelState} (rename : String → String)
        (same : definition = item.relabel rename)
        (first : Relabels (fun _ => rename) [item] state.registry between.registry) :
        Ensures (do return definition :: (← items rest)) between fun result after =>
          ∃ rename : Nat → String → String,
            result = (item :: rest).mapIdx (fun number item => item.relabel (rename number)) ∧
            Relabels rename (item :: rest) state.registry after.registry := by
      refine (ih between).bind fun others after ⟨renames, sameRest, relabels⟩ => .pure ?_
      refine ⟨_, ?_, first.cons relabels⟩
      rw [List.mapIdx_cons, same, sameRest]
    cases item with
    | function definition =>
      exact (function_relabels definition state).bind fun result between ⟨rename, same, first⟩ =>
        behind rename same first
    | declaration declared => exact behind id rfl (.plain (by simp [Item.jumpNames]) _ _)
    | typeDefinition type span => exact behind id rfl (.plain (by simp [Item.jumpNames]) _ _)
    | verbatim text span => exact behind id rfl (.plain (by simp [Item.jumpNames]) _ _)

end Labelling

/-! ## Units -/

namespace CompilationUnit

open Labelling

/-- A unit comes back with the labels of each of its functions renamed and nothing else changed. A
jump goes to a label of its function exactly if it did before, no new name stood in the unit or was
in use before, and different functions have different names. -/
theorem ofExpanded_relabels {text : String} {typedefs : List String} {unit : CompilationUnit}
    (parses : CompilationUnit.parse text "<input>" typedefs = .ok unit) (registry : Registry) :
    ∃ rename after, CompilationUnit.ofExpanded text typedefs registry =
        .ok (unit.relabel rename, after) ∧
      (∀ number jump label, IsJumpName unit.items number jump → IsJumpName unit.items number label →
        (rename number jump = rename number label ↔ jump = label)) ∧
      (∀ number label, IsJumpName unit.items number label →
        rename number label ∉ unit.identifiers ∧ !registry.isUsed (rename number label)) ∧
      ∀ number other label otherLabel, number ≠ other → IsJumpName unit.items number label →
        IsJumpName unit.items other otherLabel → rename number label ≠ rename other otherLabel := by
  obtain ⟨rename, same, relabels⟩ :=
    items_relabels unit.items ⟨registry.reserveAll unit.identifiers, []⟩
  refine ⟨rename, (unit.shortenLabels registry).2, ?_, ?_, ?_, relabels.apart⟩
  · rw [ofExpanded, parses]
    refine congrArg Except.ok (Prod.ext ?_ rfl)
    exact congrArg (fun items => ({ unit with items := items } : CompilationUnit)) same
  · exact fun number jump label jumps stands => (relabels.injective number).eq_iff jumps stands
  · intro number label stands
    have unused := relabels.unused number label stands
    rw [Registry.mem_used_reserveAll, not_or] at unused
    refine ⟨unused.1, ?_⟩
    simpa [Registry.isUsed] using unused.2

theorem ofExpanded_relabels_forward_jump :
    ∃ unit, CompilationUnit.parse
        "void f(void) { if (1) { goto a; } a: ; b: goto a; }
          int main(void) { goto a; a: return 0; }" = .ok unit ∧
      ∃ rename after, CompilationUnit.ofExpanded
          "void f(void) { if (1) { goto a; } a: ; b: goto a; }
          int main(void) { goto a; a: return 0; }" [] (.ofNames ["L0000"]) =
            .ok (unit.relabel rename, after) ∧
        rename 0 "a" ≠ rename 0 "b" ∧ rename 0 "a" ≠ rename 1 "a" := by
  refine exists_parsed _ (fun unit => unit.items.map Item.jumpNames == [["a", "a", "b", "a"], ["a", "a"]])
    (by decide +kernel) fun unit parses checked => ?_
  obtain ⟨rename, after, runs, jumps, -, apart⟩ := ofExpanded_relabels parses (.ofNames ["L0000"])
  have names := beq_iff_eq.mp checked
  have stands (number : Nat) (labels : List String) (label : String)
      (found : (unit.items.map Item.jumpNames)[number]? = some labels) (member : label ∈ labels) :
      IsJumpName unit.items number label := by
    rw [List.getElem?_map, Option.map_eq_some_iff] at found
    obtain ⟨item, isItem, rfl⟩ := found
    exact ⟨item, isItem, member⟩
  rw [names] at stands
  refine ⟨rename, after, runs, ?_, ?_⟩
  · rw [ne_eq, jumps 0 "a" "b" (stands 0 _ _ rfl (by decide)) (stands 0 _ _ rfl (by decide))]
    decide
  · exact apart 0 1 "a" "a" (by decide) (stands 0 _ _ rfl (by decide))
      (stands 1 _ _ rfl (by decide))

end CompilationUnit

end InlineMacro
