import InlineMacro.Proofs.Pass.RenameTables

/-!
# References behind renaming

Renaming follows the declarations of objects through the scopes of a function, so every name in the
body resolves behind renaming to what it resolved to before, an object under its alias. A parameter
becomes the copy of its argument, or the argument itself. This holds where nothing that renaming does
not look at has the name of an object.
-/

set_option autoImplicit false

namespace InlineMacro

open Node (Spelled)
open ScopeItem (listAfter listReferences listKeptNames listObjectNames)

namespace Renaming

/-! ## Statements -/

variable {start : Registry} {objects : List String}
  {parameters : List (Parameter × RenamedParameter)} {state : RenameState} {table renamed : NameTable}
  {items others : List ScopeItem}

abbrev Followed (start : Registry) (parameters : List (Parameter × RenamedParameter))
    (table renamed : NameTable) (items others : List ScopeItem) : Prop :=
  List.Forall₂ (Follows start parameters) (listReferences table items) (listReferences renamed others)

namespace Followed

variable {more otherMore : List ScopeItem}

theorem append (former : Followed start parameters table renamed items others)
    (latter : Followed start parameters (listAfter table items) (listAfter renamed others) more
      otherMore) : Followed start parameters table renamed (items ++ more) (others ++ otherMore) := by
  unfold Followed
  rw [ScopeItem.listReferences_append, ScopeItem.listReferences_append]
  exact List.rel_append former latter

theorem scope (inside : Followed start parameters table renamed items others)
    (rest : Followed start parameters table renamed more otherMore) :
    Followed start parameters table renamed (.scope items :: more) (.scope others :: otherMore) := by
  unfold Followed
  rw [listReferences, listReferences]
  simp only [ScopeItem.references]
  exact List.rel_append inside rest

end Followed

/-- What becomes of a part of a function behind renaming, with the state and the tables behind it. -/
structure Carried (start : Registry) (objects : List String)
    (parameters : List (Parameter × RenamedParameter)) (state : RenameState)
    (table renamed : NameTable) (items others : List ScopeItem) (after : RenameState) : Prop where
  outer : after.table.outer = state.table.outer
  older : state.registry.used ⊆ after.registry.used
  follows : Followed start parameters table renamed items others
  mirrors : Mirrors start objects parameters after (listAfter table items) (listAfter renamed others)

namespace Carried

variable {middle after : RenameState} {more otherMore : List ScopeItem}

theorem nothing (mirrors : Mirrors start objects parameters state table renamed) :
    Carried start objects parameters state table renamed [] [] state :=
  ⟨rfl, fun _ member => member, List.Forall₂.nil, mirrors⟩

theorem append (former : Carried start objects parameters state table renamed items others middle)
    (latter : Carried start objects parameters middle (listAfter table items)
      (listAfter renamed others) more otherMore after) :
    Carried start objects parameters state table renamed (items ++ more) (others ++ otherMore) after where
  outer := latter.outer.trans former.outer
  older := List.Subset.trans former.older latter.older
  follows := former.follows.append latter.follows
  mirrors := by
    rw [ScopeItem.listAfter_append, ScopeItem.listAfter_append]
    exact latter.mirrors

theorem scope (mirrors : Mirrors start objects parameters state table renamed)
    (same : after.table = state.table) (older : state.registry.used ⊆ after.registry.used)
    (follows : Followed start parameters table renamed items others) :
    Carried start objects parameters state table renamed [.scope items] [.scope others] after where
  outer := by rw [same]
  older := older
  follows := follows.scope List.Forall₂.nil
  mirrors := mirrors.back same older

end Carried

theorem Mirrors.keepsBuiltin (mirrors : Mirrors start objects parameters state table renamed)
    (notObject : "__builtin_offsetof" ∉ objects) :
    (aliasing state.table).KeepsBuiltin (· ∈ start.used) := by
  intro name used
  constructor
  · exact mirrors.builtin name used
  · rintro rfl
    exact (mirrors.kept used notObject).1

section Statements

variable (notObject : "__builtin_offsetof" ∉ objects)

include notObject

theorem expr_carried (mirrors : Mirrors start objects parameters state table renamed) (value : Expr)
    (within : Spelled (· ∈ start.used) value.nodes)
    (kept : ∀ name ∈ listKeptNames (value.items false), name ∉ objects) :
    Ensures (expr value) state fun result after => state = after ∧
      Carried start objects parameters state table renamed (value.items false) (result.items false)
        state := by
  have behind := value.renamed_items (mirrors.keepsBuiltin notObject) false within
  obtain ⟨follows, after⟩ := mirrors.follows behind kept
  exact ⟨rfl, rfl, fun _ member => member, follows, after⟩

theorem type_carried (mirrors : Mirrors start objects parameters state table renamed) (place : Span)
    (given : CType) (within : Spelled (· ∈ start.used) given.nodes)
    (kept : ∀ name ∈ listKeptNames (given.items place), name ∉ objects) :
    Ensures (type given) state fun result after => state = after ∧
      result = Id.run (given.traverse (aliasing state.table)) ∧
      Carried start objects parameters state table renamed (given.items place) (result.items place)
        state := by
  have behind := given.renamed_items (mirrors.keepsBuiltin notObject) place within
  obtain ⟨follows, after⟩ := mirrors.follows behind kept
  exact ⟨rfl, rfl, rfl, fun _ member => member, follows, after⟩

theorem option_carried (mirrors : Mirrors start objects parameters state table renamed)
    (value : Option Expr) (within : Spelled (· ∈ start.used) (optionalNodes Expr.nodes value))
    (kept : ∀ name ∈ listKeptNames (optionalItems (Expr.items false) value), name ∉ objects) :
    Ensures (option expr value) state fun result after => state = after ∧
      Carried start objects parameters state table renamed (optionalItems (Expr.items false) value)
        (optionalItems (Expr.items false) result) state := by
  cases value with
  | none => exact ⟨rfl, .nothing mirrors⟩
  | some value =>
    have behind := value.renamed_items (mirrors.keepsBuiltin notObject) false within
    obtain ⟨follows, after⟩ := mirrors.follows behind kept
    exact ⟨rfl, rfl, fun _ member => member, follows, after⟩

theorem initializer_carried (mirrors : Mirrors start objects parameters state table renamed)
    (value : Option Initializer)
    (within : Spelled (· ∈ start.used) (optionalNodes Initializer.nodes value))
    (kept : ∀ name ∈ listKeptNames (optionalItems Initializer.items value), name ∉ objects) :
    Ensures (option initializer value) state fun result after => state = after ∧
      Carried start objects parameters state table renamed (optionalItems Initializer.items value)
        (optionalItems Initializer.items result) state := by
  cases value with
  | none => exact ⟨rfl, .nothing mirrors⟩
  | some value =>
    have behind := value.renamed_items (mirrors.keepsBuiltin notObject) within
    obtain ⟨follows, after⟩ := mirrors.follows behind kept
    exact ⟨rfl, rfl, fun _ member => member, follows, after⟩

omit notObject in
theorem isObject_entity (given : Declaration) :
    given.entity.isObject = !keepsName given.type given.storage := by
  unfold Declaration.entity Entity.isObject Declaration.bindingKind keepsName
  cases given.type.isFunction <;> cases given.storage with
  | none => rfl
  | some storage => cases storage <;> rfl

theorem declaration_carried (mirrors : Mirrors start objects parameters state table renamed)
    (given : Declaration) (within : Spelled (· ∈ start.used) given.nodes)
    (kept : ∀ name ∈ listKeptNames given.items, name ∉ objects)
    (declared : ∀ name ∈ listObjectNames given.items, name ∈ objects) :
    Ensures (declaration given) state fun result after =>
      Carried start objects parameters state table renamed given.items result.items after := by
  obtain ⟨used, parts⟩ := Node.within_declaration.mp within
  obtain ⟨typeWithin, valueWithin⟩ := Node.within_append.mp parts
  unfold Declaration.items Declaration.headItems at kept declared ⊢
  simp only [ScopeItem.listKeptNames_append, ScopeItem.listObjectNames_append,
    List.forall_mem_append] at kept declared
  obtain ⟨⟨typeKept, -⟩, valueKept⟩ := kept
  refine (type_carried notObject mirrors given.span given.type typeWithin typeKept).bind
    fun renamedType same holds => ?_
  obtain ⟨rfl, rfl, typeCarried⟩ := holds
  rw [keepsName_traverse]
  have finish (known : String) (middle : RenameState)
      (step : Carried start objects parameters state (listAfter table (given.type.items given.span))
        (listAfter renamed ((Id.run (given.type.traverse (aliasing state.table))).items given.span))
        [.declare ⟨.ordinary, given.name⟩ given.entity]
        [.declare ⟨.ordinary, known⟩ given.entity] middle) :
      Ensures (do
        let initializer ← option initializer given.initializer
        return { given with
          name := known
          type := Id.run (given.type.traverse (aliasing state.table))
          initializer := initializer }) middle fun result after =>
        Carried start objects parameters state table renamed
          (given.type.items given.span ++ [.declare ⟨.ordinary, given.name⟩ given.entity] ++
            optionalItems Initializer.items given.initializer)
          (result.type.items result.span ++ [.declare ⟨.ordinary, result.name⟩ result.entity] ++
            optionalItems Initializer.items result.initializer) after := by
    have front := typeCarried.append step
    refine (initializer_carried notObject front.mirrors given.initializer valueWithin
      valueKept).bind fun value after holds => ?_
    obtain ⟨rfl, valueCarried⟩ := holds
    have sameEntity : Declaration.entity { given with
        name := known
        type := Id.run (given.type.traverse (aliasing state.table))
        initializer := value } = given.entity := by
      simp only [Declaration.entity, Declaration.bindingKind, CType.isFunction_traverse]
    refine .pure ?_
    rw [sameEntity]
    exact front.append valueCarried
  cases keeps : keepsName given.type given.storage with
  | true =>
    have noObject : given.entity.isObject = false := by rw [isObject_entity, keeps]; rfl
    have named : Ensures (pure given.name : Renaming String)
        { state with table := state.table.bind given.name given.name } fun known after =>
          known = given.name ∧
            { state with table := state.table.bind given.name given.name } = after := ⟨rfl, rfl⟩
    refine .bindModify (named.bind fun known middle same => ?_)
    obtain ⟨rfl, rfl⟩ := same
    exact finish _ _ ⟨rfl, fun _ member => member, List.Forall₂.nil,
      typeCarried.mirrors.bindOwn used noObject⟩
  | false =>
    have isObject : given.entity.isObject := by rw [isObject_entity, keeps]; rfl
    have among : given.name ∈ objects :=
      declared.1.2 given.name (by simp [listObjectNames, ScopeItem.objectNames, isObject])
    refine (typeCarried.mirrors.declareObject used isObject among).bind fun known middle holds => ?_
    obtain ⟨outer, older, isNew, -, -, behind⟩ := holds
    exact finish known middle ⟨outer, older, List.Forall₂.nil,
      behind _ _ (fun _ member => member) (.object isNew rfl)⟩

theorem declarations_carried (mirrors : Mirrors start objects parameters state table renamed)
    (given : List Declaration) (within : ∀ declared ∈ given, Spelled (· ∈ start.used) declared.nodes)
    (kept : ∀ name ∈ listKeptNames (given.flatMap Declaration.items), name ∉ objects)
    (declared : ∀ name ∈ listObjectNames (given.flatMap Declaration.items), name ∈ objects) :
    Ensures (declarations given) state fun result after =>
      Carried start objects parameters state table renamed (given.flatMap Declaration.items)
        (result.flatMap Declaration.items) after := by
  induction given generalizing state table renamed with
  | nil => exact .nothing mirrors
  | cons first rest ih =>
    rw [List.forall_mem_cons] at within
    simp only [List.flatMap_cons, ScopeItem.listKeptNames_append, ScopeItem.listObjectNames_append,
      List.forall_mem_append] at kept declared
    refine (declaration_carried notObject mirrors first within.1 kept.1 declared.1).bind
      fun renamed middle former => ?_
    refine (ih former.mirrors within.2 kept.2 declared.2).bind fun others after latter => ?_
    exact .pure (former.append latter)

/-- Renaming a statement carries its references over, wherever the statement stands. A block leaves
the scopes as they were. -/
def CarriesStatement (start : Registry) (objects : List String)
    (parameters : List (Parameter × RenamedParameter)) (entry : Statement) : Prop :=
  ∀ (state : RenameState) (table renamed : NameTable),
    Mirrors start objects parameters state table renamed →
    Spelled (· ∈ start.used) entry.nodes →
    (∀ name ∈ listKeptNames entry.items, name ∉ objects) →
    (∀ name ∈ listObjectNames entry.items, name ∈ objects) →
    Ensures (statement entry) state fun result after =>
      Carried start objects parameters state table renamed entry.items result.items after ∧
        (entry.isBlock → after.table = state.table ∧ result.isBlock)

omit notObject in
theorem statements_carried {entries : List Statement}
    (each : ∀ entry ∈ entries, CarriesStatement start objects parameters entry)
    (mirrors : Mirrors start objects parameters state table renamed)
    (within : ∀ entry ∈ entries, Spelled (· ∈ start.used) entry.nodes)
    (kept : ∀ name ∈ listKeptNames (Statement.listItems entries), name ∉ objects)
    (declared : ∀ name ∈ listObjectNames (Statement.listItems entries), name ∈ objects) :
    Ensures (statements entries) state fun results after =>
      Carried start objects parameters state table renamed (Statement.listItems entries)
        (Statement.listItems results) after := by
  induction entries generalizing state table renamed with
  | nil =>
    rw [statements]
    exact .nothing mirrors
  | cons entry entries ih =>
    rw [List.forall_mem_cons] at each within
    simp only [Statement.listItems, ScopeItem.listKeptNames_append, ScopeItem.listObjectNames_append,
      List.forall_mem_append] at kept declared
    rw [statements]
    refine (each.1 state table renamed mirrors within.1 kept.1 declared.1).bind
      fun first middle former => ?_
    refine (ih each.2 former.1.mirrors within.2 kept.2 declared.2).bind fun rest after latter => ?_
    exact .pure (former.1.append latter)

theorem head_carried {entry : Statement} (head : entry.IsLoopHead)
    (mirrors : Mirrors start objects parameters state table renamed)
    (within : Spelled (· ∈ start.used) entry.nodes)
    (kept : ∀ name ∈ listKeptNames entry.items, name ∉ objects)
    (declared : ∀ name ∈ listObjectNames entry.items, name ∈ objects) :
    Ensures (statement entry) state fun result after =>
      Carried start objects parameters state table renamed entry.items result.items after := by
  cases head with
  | expression span value =>
    rw [statement]
    refine (expr_carried notObject mirrors value (Node.within_cons.mp within).2 kept).bind
      fun result after holds => ?_
    obtain ⟨rfl, carried⟩ := holds
    exact .pure carried
  | declaration span given =>
    rw [statement]
    exact (declarations_carried notObject mirrors given
      (Node.within_flatMap.mp (Node.within_cons.mp within).2) kept declared).bind
        fun result after holds => .pure holds
  | typeDefinition span type =>
    rw [statement]
    have behind := type.renamed_definitionItems (mirrors.keepsBuiltin notObject) span
      (Node.within_cons.mp within).2
    obtain ⟨follows, after⟩ := mirrors.follows behind kept
    exact ⟨rfl, fun _ member => member, follows, after⟩

theorem statement_carried {entry : Statement} (braced : entry.Braced) :
    CarriesStatement start objects parameters entry := by
  have headCase {entry : Statement} (head : entry.IsLoopHead) :
      CarriesStatement start objects parameters entry := by
    intro state table renamed mirrors within kept declared
    refine (head_carried notObject head mirrors within kept declared).mono fun result after holds =>
      ⟨holds, fun isBlock => ?_⟩
    cases head <;> cases isBlock
  induction braced with
  | expression span value => exact headCase (.expression span value)
  | declaration span given => exact headCase (.declaration span given)
  | typeDefinition span type => exact headCase (.typeDefinition span type)
  | block span entries each ih =>
    intro state table renamed mirrors within kept declared
    simp only [Statement.items, listKeptNames, ScopeItem.keptNames, listObjectNames,
      ScopeItem.objectNames, List.append_nil] at kept declared
    rw [statement]
    refine .bindModify ((statements_carried ih mirrors.enter (Statement.within_block.mp within) kept
      declared).bind fun results after holds => ?_)
    have closed := closed_table holds.outer
    exact .bindModify (.pure ⟨.scope mirrors closed holds.older holds.follows,
      fun _ => ⟨closed, rfl⟩⟩)
  | ifElse span condition thenBranch elseBranch thenBlock elseBlock thenBraced elseBraced thenIh
      elseIh =>
    intro state table renamed mirrors within kept declared
    simp only [Statement.nodes, Statement.optionNodes, Node.within_cons, Node.within_append] at within
    simp only [Statement.items, listKeptNames, ScopeItem.keptNames, listObjectNames,
      ScopeItem.objectNames, List.append_nil, ScopeItem.listKeptNames_append,
      ScopeItem.listObjectNames_append, List.forall_mem_append] at kept declared
    rw [statement]
    refine (expr_carried notObject mirrors condition within.2.1.1 kept.1).bind
      fun value same holds => ?_
    obtain ⟨rfl, carried⟩ := holds
    refine (thenIh _ _ _ carried.mirrors within.2.1.2 kept.2.1 declared.2.1).bind
      fun first middle thenHolds => ?_
    have thenSame := (thenHolds.2 thenBlock).1
    refine (elseIh _ _ _ (carried.mirrors.back thenSame thenHolds.1.older) within.2.2 kept.2.2
      declared.2.2).bind fun second after elseHolds => .pure ⟨?_, fun isBlock => by cases isBlock⟩
    exact .scope mirrors ((elseHolds.2 elseBlock).1.trans thenSame)
      (List.Subset.trans thenHolds.1.older elseHolds.1.older)
      (carried.follows.append (thenHolds.1.follows.scope (elseHolds.1.follows.scope List.Forall₂.nil)))
  | whileLoop span value body isBlock bodyBraced ih | switch span value body isBlock bodyBraced ih =>
    intro state table renamed mirrors within kept declared
    simp only [Statement.nodes, Node.within_cons, Node.within_append] at within
    simp only [Statement.items, listKeptNames, ScopeItem.keptNames, listObjectNames,
      ScopeItem.objectNames, List.append_nil, ScopeItem.listKeptNames_append,
      ScopeItem.listObjectNames_append, List.forall_mem_append] at kept declared
    rw [statement]
    refine (expr_carried notObject mirrors value within.2.1 kept.1).bind fun result same holds => ?_
    obtain ⟨rfl, carried⟩ := holds
    refine (ih _ _ _ carried.mirrors within.2.2 kept.2 declared.2).bind
      fun inner after holds => .pure ⟨?_, fun isBlock => by cases isBlock⟩
    exact .scope mirrors (holds.2 isBlock).1 holds.1.older
      (carried.follows.append (holds.1.follows.scope List.Forall₂.nil))
  | bareLoop span condition update body isBlock bodyBraced ih =>
    intro state table renamed mirrors within kept declared
    simp only [Statement.nodes, Statement.optionNodes, Node.within_cons, Node.within_append] at within
    simp only [Statement.items, listKeptNames, ScopeItem.keptNames, listObjectNames,
      ScopeItem.objectNames, List.append_nil, ScopeItem.listKeptNames_append,
      ScopeItem.listObjectNames_append, List.forall_mem_append] at kept declared
    rw [statement]
    refine (option_carried notObject mirrors condition within.2.1.1.2 kept.1.1).bind
      fun first same holds => ?_
    obtain ⟨rfl, conditionCarried⟩ := holds
    refine (option_carried notObject conditionCarried.mirrors update within.2.1.2 kept.1.2).bind
      fun second same holds => ?_
    obtain ⟨rfl, updateCarried⟩ := holds
    have front := conditionCarried.append updateCarried
    refine (ih _ _ _ front.mirrors within.2.2 kept.2 declared.2).bind
      fun inner after holds => .pure ⟨?_, fun isBlock => by cases isBlock⟩
    exact .scope mirrors (holds.2 isBlock).1 holds.1.older
      (front.follows.append (holds.1.follows.scope List.Forall₂.nil))
  | forLoop span init condition update body head isBlock bodyBraced ih =>
    intro state table renamed mirrors within kept declared
    simp only [Statement.nodes, Statement.optionNodes, Node.within_cons, Node.within_append] at within
    simp only [Statement.items, listKeptNames, ScopeItem.keptNames, listObjectNames,
      ScopeItem.objectNames, List.append_nil, ScopeItem.listKeptNames_append,
      ScopeItem.listObjectNames_append, List.forall_mem_append] at kept declared
    rw [statement]
    refine .bindModify ((head_carried notObject head mirrors.enter within.2.1.1.1 kept.1
      declared.1).bind fun first middle headCarried => ?_)
    refine (option_carried notObject headCarried.mirrors condition within.2.1.1.2 kept.2.1.1).bind
      fun second same holds => ?_
    obtain ⟨rfl, conditionCarried⟩ := holds
    refine (option_carried notObject conditionCarried.mirrors update within.2.1.2 kept.2.1.2).bind
      fun third same holds => ?_
    obtain ⟨rfl, updateCarried⟩ := holds
    have front := conditionCarried.append updateCarried
    refine (ih _ _ _ front.mirrors within.2.2 kept.2.2 declared.2.2).bind fun inner after holds => ?_
    have outer : after.table.outer = state.table.enter.outer := by
      rw [(holds.2 isBlock).1]
      exact headCarried.outer
    refine .bindModify (.pure ⟨?_, fun isBlock => by cases isBlock⟩)
    exact .scope mirrors (closed_table outer) (List.Subset.trans headCarried.older holds.1.older)
      (headCarried.follows.append (front.follows.append (holds.1.follows.scope List.Forall₂.nil)))
  | doWhile span body condition isBlock bodyBraced ih =>
    intro state table renamed mirrors within kept declared
    simp only [Statement.nodes, Node.within_cons, Node.within_append] at within
    simp only [Statement.items, listKeptNames, ScopeItem.keptNames, listObjectNames,
      ScopeItem.objectNames, List.append_nil, List.forall_mem_append] at kept declared
    rw [statement]
    refine (ih _ _ _ mirrors within.2.1 kept.1 declared.1).bind fun inner middle holds => ?_
    have same := (holds.2 isBlock).1
    refine (expr_carried notObject (mirrors.back same holds.1.older) condition within.2.2 kept.2).bind
      fun value last lastHolds => ?_
    obtain ⟨rfl, carried⟩ := lastHolds
    exact .pure ⟨.scope mirrors same holds.1.older (holds.1.follows.scope carried.follows),
      fun isBlock => by cases isBlock⟩
  | caseLabel span value marked isMarked markedBraced ih =>
    intro state table renamed mirrors within kept declared
    simp only [Statement.nodes, Node.within_cons, Node.within_append] at within
    simp only [Statement.items, ScopeItem.listKeptNames_append, ScopeItem.listObjectNames_append,
      List.forall_mem_append] at kept declared
    rw [statement]
    refine (expr_carried notObject mirrors value within.2.1 kept.1).bind fun result same holds => ?_
    obtain ⟨rfl, carried⟩ := holds
    exact (ih _ _ _ carried.mirrors within.2.2 kept.2 declared.2).bind
      fun inner after holds => .pure ⟨carried.append holds.1, fun isBlock => by cases isBlock⟩
  | defaultLabel span marked isMarked markedBraced ih
  | labelled span marker marked isMarked markedBraced ih =>
    intro state table renamed mirrors within kept declared
    rw [statement]
    exact (ih _ _ _ mirrors (Node.within_cons.mp within).2 kept declared).bind
      fun inner after holds => .pure ⟨holds.1, fun isBlock => by cases isBlock⟩
  | returnStatement span value =>
    intro state table renamed mirrors within kept declared
    rw [statement]
    refine (option_carried notObject mirrors value (Node.within_cons.mp within).2 kept).bind
      fun result after holds => ?_
    obtain ⟨rfl, carried⟩ := holds
    exact .pure ⟨carried, fun isBlock => by cases isBlock⟩
  | _ =>
    intro state table renamed mirrors within kept declared
    rw [statement]
    exact .pure ⟨.nothing mirrors, fun isBlock => by cases isBlock⟩

end Statements

end Renaming

end InlineMacro
