import InlineMacro.Proofs.Run.Success
import InlineMacro.Proofs.Scope.Resolution

/-!
# Normalization and what names resolve to

A declaration that moves up in its block moves over statements, and bodies of branches and what a
label marks become blocks. Each use of a name resolves to the same declaration as before, unless what
moves and what it moves over declare names for each other in a way that the pass does not look for,
or something is declared right behind a label. New are the uses of the names that first values are
assigned to, and these resolve to the declaration that has moved.
-/

set_option autoImplicit false

namespace InlineMacro

open ScopeItem (listAfter listReferences listUses introduced)

/-! ## Items in the place of others -/

def Reference.IsTarget (reference : Reference) : Prop :=
  reference.use.kind = .identifier ∧
    ∃ kind, reference.entity = some ⟨kind, reference.use.place⟩

/-- Items that can stand for others: what is declared is the same, and each use resolves to what it
resolved to. All further uses are those of names at the places of their declarations. -/
def Rearranges (items others : List ScopeItem) : Prop :=
  ∀ table, listAfter table others = listAfter table items ∧
    ∃ targets, (listReferences table others).Perm (listReferences table items ++ targets) ∧
      ∀ reference ∈ targets, reference.IsTarget

namespace Rearranges

variable {first second third items others : List ScopeItem}

theorem refl (items : List ScopeItem) : Rearranges items items :=
  fun _ => ⟨rfl, [], by simp, by simp⟩

theorem of_eq (after : ∀ table, listAfter table others = listAfter table items)
    (references : ∀ table, listReferences table others = listReferences table items) :
    Rearranges items others :=
  fun table => ⟨after table, [], by simp [references table], by simp⟩

theorem trans (former : Rearranges first second) (latter : Rearranges second third) :
    Rearranges first third := by
  intro table
  obtain ⟨after, targets, perm, are⟩ := former table
  obtain ⟨afterMore, more, permMore, areMore⟩ := latter table
  refine ⟨afterMore.trans after, targets ++ more, ?_, List.forall_mem_append.mpr ⟨are, areMore⟩⟩
  rw [← List.append_assoc]
  exact permMore.trans (perm.append_right more)

theorem append (former : Rearranges first second) (latter : Rearranges items others) :
    Rearranges (first ++ items) (second ++ others) := by
  intro table
  obtain ⟨after, targets, perm, are⟩ := former table
  obtain ⟨afterMore, more, permMore, areMore⟩ := latter (listAfter table first)
  refine ⟨?_, targets ++ more, ?_, List.forall_mem_append.mpr ⟨are, areMore⟩⟩
  · rw [ScopeItem.listAfter_append, ScopeItem.listAfter_append, after, afterMore]
  · rw [ScopeItem.listReferences_append, ScopeItem.listReferences_append, after]
    have swap : (targets ++ listReferences (listAfter table first) items).Perm
        (listReferences (listAfter table first) items ++ targets) := List.perm_append_comm
    simpa [List.append_assoc] using (perm.append permMore).trans
      (by simpa [List.append_assoc] using
        ((swap.append_right more).append_left (listReferences table first)))

theorem scope (inside : Rearranges items others) : Rearranges [.scope items] [.scope others] := by
  intro table
  obtain ⟨-, targets, perm, are⟩ := inside table
  refine ⟨rfl, targets, ?_, are⟩
  simpa [ScopeItem.listReferences, ScopeItem.references] using perm

theorem inScope (items : List ScopeItem) (closed : introduced items = []) :
    Rearranges items [.scope items] := by
  refine .of_eq (fun table => ?_) fun table => ?_
  · funext name
    exact (ScopeItem.listAfter_of_not_introduced (by simp [closed]) table).symm
  · simp [ScopeItem.listReferences, ScopeItem.references]

theorem swap (apart : ∀ name ∈ introduced first, name ∉ introduced second)
    (former : ∀ use ∈ listUses first, use.scoped ∉ introduced second)
    (latter : ∀ use ∈ listUses second, use.scoped ∉ introduced first) :
    Rearranges (first ++ second) (second ++ first) := by
  refine fun table => ⟨(ScopeItem.listAfter_comm apart table).symm, [], ?_, by simp⟩
  have sameFirst : listReferences (listAfter table second) first = listReferences table first :=
    ScopeItem.listReferences_congr first fun use member =>
      ScopeItem.listAfter_of_not_introduced (former use member) table
  have sameSecond : listReferences (listAfter table first) second = listReferences table second :=
    ScopeItem.listReferences_congr second fun use member =>
      ScopeItem.listAfter_of_not_introduced (latter use member) table
  rw [ScopeItem.listReferences_append, ScopeItem.listReferences_append, sameFirst, sameSecond,
    List.append_nil]
  exact List.perm_append_comm

end Rearranges

/-! ## Bodies that become blocks -/

def Statement.labelsNothing : Statement → Bool
  | .caseLabel _ _ statement | .defaultLabel _ statement | .labelled _ _ statement =>
    statement.isLabelled || (introduced statement.items).isEmpty
  | _ => true

namespace Statement

theorem listItems_eq (statements : List Statement) : listItems statements = statements.flatMap items := by
  induction statements with
  | nil => rfl
  | cons statement statements ih => rw [listItems, ih, List.flatMap_cons]

theorem rearranges_list {statements others : List Statement}
    (each : List.Forall₂ (fun statement other => Rearranges statement.items other.items)
      statements others) : Rearranges (listItems statements) (listItems others) := by
  induction each with
  | nil => exact .refl _
  | cons first _ ih => exact first.append ih

variable {statement : Statement}

theorem rearranges_blockOf {becomes : Statement} (inside : Rearranges statement.items becomes.items) :
    Rearranges [.scope statement.items] [.scope (statement.blockOf becomes).items] := by
  unfold blockOf
  split
  · exact inside.scope
  · refine inside.scope.trans (.of_eq (fun _ => rfl) fun table => ?_)
    simp [items, listItems, ScopeItem.listReferences, ScopeItem.references]

theorem rearranges_labelledBlockOf {becomes : Statement} (inside : Rearranges statement.items becomes.items)
    (nothing : statement.isLabelled || (introduced statement.items).isEmpty) :
    Rearranges statement.items (statement.labelledBlockOf becomes).items := by
  unfold labelledBlockOf
  split
  · exact inside
  · next other =>
    rw [Bool.or_eq_true, not_or] at other
    rw [Bool.eq_false_iff.mpr other.1, Bool.false_or, List.isEmpty_iff] at nothing
    unfold blockOf
    split
    · exact inside
    · refine (Rearranges.inScope _ nothing).trans (inside.scope.trans ?_)
      rw [items, listItems, listItems, List.append_nil]
      exact .refl _

theorem rearranges_brace (nothing : ∀ part ∈ statement.parts, part.labelsNothing) :
    Rearranges statement.items statement.brace.items := by
  induction statement with
  | block span statements each =>
    simp only [parts_block, List.forall_mem_cons, listParts, List.mem_flatMap] at nothing
    rw [brace, braceList_eq_map]
    refine (rearranges_list ?_).scope
    rw [List.forall₂_map_right_iff, List.forall₂_same]
    exact fun entry member => each entry member fun part inside =>
      nothing.2 part ⟨entry, member, inside⟩
  | ifThen span condition thenBranch ih =>
    simp only [parts_ifThen, List.forall_mem_cons] at nothing
    refine Rearranges.scope (.append (.refl _) ?_)
    have noElse : Rearranges ([.scope thenBranch.items] ++ [])
        ([.scope (thenBranch.blockOf thenBranch.brace).items] ++ [.scope (ofList []).items]) :=
      (rearranges_blockOf (ih nothing.2)).append
        (.of_eq (fun _ => rfl) fun _ => by simp [ofList, items, listItems,
          ScopeItem.listReferences, ScopeItem.references])
    exact noElse
  | ifElse span condition thenBranch elseBranch thenIh elseIh =>
    simp only [parts_ifElse, List.forall_mem_cons, List.forall_mem_append] at nothing
    refine Rearranges.scope (.append (.refl _) ?_)
    exact (rearranges_blockOf (thenIh nothing.2.1)).append (rearranges_blockOf (elseIh nothing.2.2))
  | whileLoop span condition body ih =>
    simp only [parts_whileLoop, List.forall_mem_cons] at nothing
    exact Rearranges.scope (.append (.refl _) (rearranges_blockOf (ih nothing.2)))
  | bareLoop span condition update body ih =>
    simp only [parts_bareLoop, List.forall_mem_cons] at nothing
    exact Rearranges.scope (.append (.refl _) (rearranges_blockOf (ih nothing.2)))
  | forLoop span init condition update body initIh bodyIh =>
    simp only [parts_forLoop, List.forall_mem_cons, List.forall_mem_append] at nothing
    refine Rearranges.scope (.append (initIh nothing.2.1) (.append (.refl _) ?_))
    exact rearranges_blockOf (bodyIh nothing.2.2)
  | doWhile span body condition ih =>
    simp only [parts_doWhile, List.forall_mem_cons] at nothing
    exact Rearranges.scope (.append (rearranges_blockOf (ih nothing.2)) (.refl _))
  | switch span subject body ih =>
    simp only [parts_switch, List.forall_mem_cons] at nothing
    exact Rearranges.scope (.append (.refl _) (rearranges_blockOf (ih nothing.2)))
  | caseLabel span value statement ih =>
    simp only [parts_caseLabel, List.forall_mem_cons] at nothing
    exact .append (.refl _) (rearranges_labelledBlockOf (ih nothing.2) nothing.1)
  | defaultLabel span statement ih =>
    simp only [parts_defaultLabel, List.forall_mem_cons] at nothing
    change Rearranges statement.items (statement.labelledBlockOf statement.brace).items
    exact rearranges_labelledBlockOf (ih nothing.2) nothing.1
  | labelled span label statement ih =>
    simp only [parts_labelled, List.forall_mem_cons] at nothing
    change Rearranges statement.items (statement.labelledBlockOf statement.brace).items
    exact rearranges_labelledBlockOf (ih nothing.2) nothing.1
  | _ => exact .refl _

end Statement

/-! ## Declarations that move up -/

/-- Whether nothing keeps a declaration from moving over a statement but an identifier with the name
of what it declares, which the pass looks for. -/
def Declaration.passesFreely (declaration : Declaration) (statement : Statement) : Bool :=
  (introduced declaration.headItems).all (fun name =>
    !(introduced statement.items).contains name &&
      (listUses statement.items).all fun use => use.scoped != name ||
        (use.kind == .identifier && name == ⟨.ordinary, declaration.name⟩)) &&
  (listUses declaration.headItems).all fun use => !(introduced statement.items).contains use.scoped

namespace BlockParts

def moves (parts : BlockParts) (declaration : Declaration) : Bool :=
  parts.canMove declaration &&
    match declaration.initializer with
    | none | some (.expression ..) => true
    | some _ => false

def addsFreely (parts : BlockParts) (declaration : Declaration) : Bool :=
  !parts.moves declaration || parts.rest.all fun entry => declaration.passesFreely entry.1

def listAddsFreely (parts : BlockParts) : List Declaration → Bool
  | [] => true
  | declaration :: declarations =>
    parts.addsFreely declaration && (parts.addDeclaration declaration).listAddsFreely declarations

def takesFreely (parts : BlockParts) : Statement → Bool
  | .declaration _ declarations =>
    (parts.inLeading && !declarations.any Declaration.needsSplit) ||
      ({ parts with inLeading := false } : BlockParts).listAddsFreely declarations
  | _ => true

def reordersFreely (parts : BlockParts) : List (Statement × Statement) → Bool
  | [] => true
  | entry :: entries =>
    parts.takesFreely entry.1 && (parts.add entry.1 entry.2).reordersFreely entries

end BlockParts

def Statement.reordersFreely : Statement → Bool
  | .block _ statements =>
    ({} : BlockParts).reordersFreely (statements.zip (splitDeclarationsList statements))
  | _ => true

/-- Whether labels mark no declarations, and declarations move freely in each block of the body, once
there are all the blocks that it gets. -/
def Function.reordersFreely (function : Function) : Bool :=
  function.body.parts.all Statement.labelsNothing &&
    function.body.brace.parts.all Statement.reordersFreely

namespace Rearranges

theorem target {items : List ScopeItem} {use : NameUse} (isIdentifier : use.kind = .identifier)
    (resolves : ∀ table, ∃ kind, listAfter table items use.scoped = some ⟨kind, use.place⟩) :
    Rearranges items (items ++ [.use use]) := by
  intro table
  obtain ⟨kind, found⟩ := resolves table
  refine ⟨by rw [ScopeItem.listAfter_append]; rfl,
    [⟨use, listAfter table items use.scoped⟩], ?_, ?_⟩
  · rw [ScopeItem.listReferences_append]
    exact .refl _
  · exact List.forall_mem_singleton.mpr ⟨isIdentifier, kind, found⟩

end Rearranges

theorem Declaration.introduced_headItems (declaration : Declaration) :
    ⟨.ordinary, declaration.name⟩ ∈ introduced declaration.headItems :=
  (ScopeItem.introduced_append _ _).symm ▸ List.mem_append_right _ (List.mem_singleton_self _)

theorem Declaration.listAfter_headItems (declaration : Declaration) (table : NameTable) :
    listAfter table declaration.headItems ⟨.ordinary, declaration.name⟩ = some declaration.entity := by
  rw [Declaration.headItems, ScopeItem.listAfter_append]
  exact NameTable.declare_self _ _ _

theorem Statement.mem_introduced_listItems {statements : List Statement} {name : ScopedName}
    (member : name ∈ introduced (listItems statements)) :
    ∃ statement ∈ statements, name ∈ introduced statement.items := by
  rw [listItems_eq, introduced, List.filterMap_flatMap] at member
  exact List.mem_flatMap.mp member

theorem Statement.mem_listUses_listItems {statements : List Statement} {use : NameUse}
    (member : use ∈ listUses (listItems statements)) :
    ∃ statement ∈ statements, use ∈ listUses statement.items := by
  induction statements with
  | nil => cases member
  | cons first rest ih =>
    rw [listItems, ScopeItem.listUses_append] at member
    rcases List.mem_append.mp member with member | member
    · exact ⟨first, List.mem_cons_self, member⟩
    · obtain ⟨statement, among, inside⟩ := ih member
      exact ⟨statement, List.mem_cons_of_mem _ among, inside⟩

/-- A declaration can change places with statements that do not mention its name, if it moves over
them freely otherwise. -/
theorem Declaration.rearranges_over (declaration : Declaration) {statements : List Statement}
    (unmentioned : Statement.mention statements declaration.name = false)
    (freely : ∀ statement ∈ statements, declaration.passesFreely statement) :
    (∀ name ∈ introduced declaration.headItems, name ∉ introduced (Statement.listItems statements)) ∧
      Rearranges (Statement.listItems statements ++ declaration.headItems)
        (declaration.headItems ++ Statement.listItems statements) := by
  have passes : ∀ statement ∈ statements,
      (∀ name ∈ introduced declaration.headItems, name ∉ introduced statement.items ∧
        ∀ use ∈ listUses statement.items, use.scoped = name →
          use.kind = .identifier ∧ name = ⟨.ordinary, declaration.name⟩) ∧
      ∀ use ∈ listUses declaration.headItems, use.scoped ∉ introduced statement.items := by
    intro statement member
    have passes := freely statement member
    simp only [passesFreely, Bool.and_eq_true, List.all_eq_true, Bool.or_eq_true, bne_iff_ne,
      beq_iff_eq, Bool.not_eq_true', List.contains_eq_mem, decide_eq_false_iff_not] at passes
    refine ⟨fun name own => ⟨(passes.1 name own).1, fun use inside same => ?_⟩, passes.2⟩
    exact ((passes.1 name own).2 use inside).resolve_left (not_not_intro same)
  have apart : ∀ name ∈ introduced declaration.headItems,
      name ∉ introduced (Statement.listItems statements) := by
    intro name own found
    obtain ⟨statement, member, inside⟩ := Statement.mem_introduced_listItems found
    exact ((passes statement member).1 name own).1 inside
  refine ⟨apart, .swap (fun name found own => apart name own found) ?_ ?_⟩
  · intro use found own
    obtain ⟨statement, member, inside⟩ := Statement.mem_listUses_listItems found
    obtain ⟨isIdentifier, same⟩ := ((passes statement member).1 _ own).2 use inside rfl
    have named : use.name = declaration.name := congrArg ScopedName.name same
    have node := Statement.listItems_among (fun statement _ => statement.items_among) use found isIdentifier
    have mentioned : Statement.mention statements declaration.name :=
      List.any_eq_true.mpr ⟨_, node, by simp [Expr.identifier?, named]⟩
    rw [mentioned] at unmentioned
    cases unmentioned
  · intro use own found
    obtain ⟨statement, member, inside⟩ := Statement.mem_introduced_listItems found
    exact (passes statement member).2 use own inside

/-! ## The parts of a block -/

namespace BlockParts

variable {parts : BlockParts} {items : List ScopeItem}

/-- The parts stand for items: so do the statements as they were, and what becomes of each of the rest
stands for it. -/
structure StandsFor (parts : BlockParts) (items : List ScopeItem) : Prop where
  original : Rearranges items (Statement.listItems
    (parts.leading ++ parts.hoisted ++ parts.rest.map Prod.fst))
  becomes : ∀ entry ∈ parts.rest, Rearranges entry.1.items entry.2.items
  first : parts.inLeading → parts.hoisted = [] ∧ parts.rest = []

theorem StandsFor.statements (stands : parts.StandsFor items) :
    Rearranges items (Statement.listItems parts.statements) := by
  refine stands.original.trans ?_
  rw [BlockParts.statements, Statement.listItems_append, Statement.listItems_append _
    (parts.rest.map Prod.snd)]
  refine .append (.refl _) (Statement.rearranges_list ?_)
  rw [List.forall₂_map_left_iff, List.forall₂_map_right_iff, List.forall₂_same]
  exact stands.becomes

theorem StandsFor.keep (stands : parts.StandsFor items) (behind : parts.inLeading = false)
    (statement : Statement) : (parts.keep statement).StandsFor (items ++ statement.items) where
  original := by
    have kept : (parts.keep statement).leading ++ (parts.keep statement).hoisted ++
        (parts.keep statement).rest.map Prod.fst =
          (parts.leading ++ parts.hoisted ++ parts.rest.map Prod.fst) ++ [statement] := by
      simp [BlockParts.keep]
    rw [kept, Statement.listItems_append, Statement.listItems_singleton]
    exact stands.original.append (.refl _)
  becomes := by
    refine List.forall_mem_append.mpr ⟨stands.becomes, ?_⟩
    exact List.forall_mem_singleton.mpr (.refl _)
  first leads := absurd (behind.symm.trans leads) Bool.false_ne_true

variable {declaration : Declaration}

theorem StandsFor.hoist (stands : parts.StandsFor items) (behind : parts.inLeading = false)
    (bare : declaration.initializer = none)
    (unmentioned : Statement.mention (parts.rest.map Prod.fst) declaration.name = false)
    (freely : ∀ entry ∈ parts.rest, declaration.passesFreely entry.1) :
    (parts.hoist declaration).StandsFor (items ++ declaration.headItems) where
  original := by
    obtain ⟨-, swapped⟩ := declaration.rearranges_over unmentioned
      (List.forall_mem_map.mpr freely)
    have moved : (parts.hoist declaration).leading ++ (parts.hoist declaration).hoisted ++
        (parts.hoist declaration).rest.map Prod.fst = (parts.leading ++ parts.hoisted) ++
          ([.ofDeclaration declaration] ++ parts.rest.map Prod.fst) := by
      simp [BlockParts.hoist]
    have alone : declaration.items = declaration.headItems := by
      rw [Declaration.items, bare]
      exact List.append_nil _
    rw [moved, Statement.listItems_append, Statement.listItems_append [_],
      Statement.listItems_singleton, Statement.items_ofDeclaration, alone]
    have original := stands.original
    rw [Statement.listItems_append] at original
    refine (original.append (.refl _)).trans ?_
    rw [List.append_assoc]
    exact .append (.refl _) swapped
  becomes := stands.becomes
  first leads := absurd (behind.symm.trans leads) Bool.false_ne_true

/-- Where the rest declares no such name, a declaration that has moved up is the one that is in scope
behind the rest. -/
theorem listAfter_hoist (parts : BlockParts)
    (bare : declaration.initializer = none) (apart : ⟨.ordinary, declaration.name⟩ ∉
      introduced (Statement.listItems (parts.rest.map Prod.fst))) (table : NameTable) :
    listAfter table (Statement.listItems ((parts.hoist declaration).leading ++
        (parts.hoist declaration).hoisted ++ (parts.hoist declaration).rest.map Prod.fst))
      ⟨.ordinary, declaration.name⟩ = some declaration.entity := by
  have alone : declaration.items = declaration.headItems := by
    rw [Declaration.items, bare]
    exact List.append_nil _
  rw [Statement.listItems_append, ScopeItem.listAfter_append]
  refine (ScopeItem.listAfter_of_not_introduced apart _).trans ?_
  have last : (parts.hoist declaration).leading ++ (parts.hoist declaration).hoisted =
      (parts.leading ++ parts.hoisted) ++ [.ofDeclaration declaration] := by
    simp [BlockParts.hoist]
  rw [last, Statement.listItems_append, ScopeItem.listAfter_append, Statement.listItems_singleton,
    Statement.items_ofDeclaration, alone]
  exact declaration.listAfter_headItems _

theorem StandsFor.keepAssigned (stands : parts.StandsFor items) (behind : parts.inLeading = false)
    (use : NameUse) (isIdentifier : use.kind = .identifier)
    (resolves : ∀ table, ∃ kind, listAfter table (Statement.listItems
      (parts.leading ++ parts.hoisted ++ parts.rest.map Prod.fst)) use.scoped =
        some ⟨kind, use.place⟩) {value : List ScopeItem} {assigned : Statement}
    (same : assigned.items = .use use :: value) :
    (parts.keep assigned).StandsFor (items ++ value) where
  original := by
    have targeted := (stands.original.trans (.target isIdentifier resolves)).append (.refl value)
    rw [List.append_assoc, List.singleton_append, ← same] at targeted
    have last : (parts.keep assigned).leading ++ (parts.keep assigned).hoisted ++
        (parts.keep assigned).rest.map Prod.fst =
          (parts.leading ++ parts.hoisted ++ parts.rest.map Prod.fst) ++ [assigned] := by
      simp [BlockParts.keep]
    rw [last, Statement.listItems_append, Statement.listItems_singleton]
    exact targeted
  becomes := (stands.keep behind assigned).becomes
  first := (stands.keep behind assigned).first

theorem StandsFor.addDeclaration (stands : parts.StandsFor items) (behind : parts.inLeading = false)
    (freely : parts.addsFreely declaration) :
    (parts.addDeclaration declaration).StandsFor (items ++ declaration.items) ∧
      (parts.addDeclaration declaration).inLeading = false := by
  have stays : (parts.keep (.ofDeclaration declaration)).StandsFor (items ++ declaration.items) :=
    Statement.items_ofDeclaration declaration ▸ stands.keep behind (.ofDeclaration declaration)
  unfold BlockParts.addDeclaration
  split
  · next canMove =>
    have unmentioned : Statement.mention (parts.rest.map Prod.fst) declaration.name = false := by
      simp only [BlockParts.canMove, Bool.and_eq_true, Bool.not_eq_true'] at canMove
      exact canMove.2
    split
    · next bare =>
      have moves : parts.moves declaration := by simp [BlockParts.moves, canMove, bare]
      simp only [addsFreely, moves, Bool.not_true, Bool.false_or, List.all_eq_true] at freely
      refine ⟨?_, behind⟩
      have alone : declaration.items = declaration.headItems := by
        rw [Declaration.items, bare]
        exact List.append_nil _
      exact alone ▸ stands.hoist behind bare unmentioned freely
    · next span value given =>
      have moves : parts.moves declaration := by simp [BlockParts.moves, canMove, given]
      simp only [addsFreely, moves, Bool.not_true, Bool.false_or, List.all_eq_true] at freely
      let bare : Declaration := { declaration with initializer := none }
      refine ⟨?_, behind⟩
      have apart := (bare.rearranges_over unmentioned (List.forall_mem_map.mpr freely)).1 _
        bare.introduced_headItems
      have whole : declaration.items = bare.headItems ++ value.items false := by
        rw [Declaration.items, given]
        rfl
      rw [whole, ← List.append_assoc]
      refine (stands.hoist behind (rfl : bare.initializer = none) unmentioned freely).keepAssigned
        behind (⟨.identifier, declaration.name, declaration.span⟩ : NameUse) rfl
        (fun table => ⟨_, parts.listAfter_hoist (rfl : bare.initializer = none) apart table⟩) rfl
    · exact ⟨stays, behind⟩
  · exact ⟨⟨stays.original, stays.becomes, stays.first⟩, behind⟩

theorem StandsFor.addDeclarations (stands : parts.StandsFor items)
    (behind : parts.inLeading = false) {declarations : List Declaration}
    (freely : parts.listAddsFreely declarations) :
    (declarations.foldl BlockParts.addDeclaration parts).StandsFor
      (items ++ declarations.flatMap Declaration.items) := by
  induction declarations generalizing parts items with
  | nil => exact (List.append_nil items).symm ▸ stands
  | cons first rest ih =>
    rw [listAddsFreely, Bool.and_eq_true] at freely
    obtain ⟨added, still⟩ := stands.addDeclaration behind freely.1
    rw [List.flatMap_cons, ← List.append_assoc]
    exact ih added still freely.2

theorem StandsFor.lead (stands : parts.StandsFor items) (leads : parts.inLeading)
    (statement : Statement) :
    ({ parts with leading := parts.leading ++ [statement] } : BlockParts).StandsFor
      (items ++ statement.items) where
  original := by
    have original := stands.original
    obtain ⟨noHoisted, noRest⟩ := stands.first leads
    simp only [noHoisted, noRest, List.map_nil, List.append_nil] at original ⊢
    rw [Statement.listItems_append, Statement.listItems_singleton]
    exact original.append (.refl _)
  becomes := stands.becomes
  first := stands.first

theorem StandsFor.behind (stands : parts.StandsFor items) :
    ({ parts with inLeading := false } : BlockParts).StandsFor items :=
  ⟨stands.original, stands.becomes, nofun⟩

theorem StandsFor.add (stands : parts.StandsFor items) {statement becomes : Statement}
    (inside : Rearranges statement.items becomes.items) (freely : parts.takesFreely statement) :
    (parts.add statement becomes).StandsFor (items ++ statement.items) := by
  have stays (canHoist : Bool) : ({ parts with
      inLeading := false
      canHoist := canHoist
      rest := parts.rest ++ [(statement, becomes)] } : BlockParts).StandsFor
        (items ++ statement.items) := by
    have kept := stands.behind.keep rfl statement
    refine ⟨?_, List.forall_mem_append.mpr ⟨stands.becomes,
      List.forall_mem_singleton.mpr inside⟩, nofun⟩
    have original := kept.original
    simp only [BlockParts.keep, List.map_append, List.map_cons, List.map_nil] at original ⊢
    exact original
  unfold BlockParts.add
  split
  · next declarations =>
    split
    · next leads =>
      rw [Bool.and_eq_true] at leads
      exact stands.lead leads.1 _
    · next notLeads =>
      rw [takesFreely, Bool.or_eq_true] at freely
      exact stands.behind.addDeclarations rfl (freely.resolve_left notLeads)
  · split
    · next leads =>
      rw [Bool.and_eq_true] at leads
      exact stands.lead leads.1 _
    · exact stays _

theorem StandsFor.addAll (stands : parts.StandsFor items) {entries : List (Statement × Statement)}
    (each : ∀ entry ∈ entries, Rearranges entry.1.items entry.2.items)
    (freely : parts.reordersFreely entries) :
    (entries.foldl (fun parts entry => parts.add entry.1 entry.2) parts).StandsFor
      (items ++ Statement.listItems (entries.map Prod.fst)) := by
  induction entries generalizing parts items with
  | nil => exact (List.append_nil items).symm ▸ stands
  | cons entry rest ih =>
    rw [List.forall_mem_cons] at each
    rw [reordersFreely, Bool.and_eq_true] at freely
    rw [List.map_cons, Statement.listItems, ← List.append_assoc]
    exact ih (stands.add each.1 freely.1) each.2 freely.2

end BlockParts

namespace Statement

theorem rearranges_splitDeclarations {statement : Statement}
    (freely : ∀ part ∈ statement.parts, part.reordersFreely) :
    Rearranges statement.items statement.splitDeclarations.items := by
  induction statement with
  | block span statements each =>
    simp only [parts_block, List.forall_mem_cons, listParts, List.mem_flatMap] at freely
    refine Rearranges.scope ?_
    have pairs : statements.zip (splitDeclarationsList statements) =
        statements.map fun entry => (entry, entry.splitDeclarations) := by
      rw [splitDeclarationsList_eq_map]
      have zipped : (statements.map id).zip (statements.map splitDeclarations) =
          statements.map fun entry => (id entry, entry.splitDeclarations) := List.zip_map'
      rwa [List.map_id] at zipped
    have here : ({} : BlockParts).reordersFreely
        (statements.map fun entry => (entry, entry.splitDeclarations)) := pairs ▸ freely.1
    have start : ({} : BlockParts).StandsFor [] := ⟨.refl _, by simp, fun _ => ⟨rfl, rfl⟩⟩
    have stands := start.addAll (List.forall_mem_map.mpr fun entry member =>
      each entry member fun part inside => freely.2 part ⟨entry, member, inside⟩) here
    rw [List.map_map, List.nil_append] at stands
    have inside := stands.statements
    rw [splitBlock, pairs]
    simpa [Function.comp_def] using inside
  | ifThen span condition thenBranch ih =>
    simp only [parts_ifThen, List.forall_mem_cons] at freely
    exact Rearranges.scope (.append (.refl _) (ih freely.2).scope)
  | ifElse span condition thenBranch elseBranch thenIh elseIh =>
    simp only [parts_ifElse, List.forall_mem_cons, List.forall_mem_append] at freely
    refine Rearranges.scope (.append (.refl _) ?_)
    exact (thenIh freely.2.1).scope.append (elseIh freely.2.2).scope
  | whileLoop span condition body ih =>
    simp only [parts_whileLoop, List.forall_mem_cons] at freely
    exact Rearranges.scope (.append (.refl _) (ih freely.2).scope)
  | bareLoop span condition update body ih =>
    simp only [parts_bareLoop, List.forall_mem_cons] at freely
    exact Rearranges.scope (.append (.refl _) (ih freely.2).scope)
  | forLoop span init condition update body initIh bodyIh =>
    simp only [parts_forLoop, List.forall_mem_cons, List.forall_mem_append] at freely
    exact Rearranges.scope (.append (initIh freely.2.1) (.append (.refl _) (bodyIh freely.2.2).scope))
  | doWhile span body condition ih =>
    simp only [parts_doWhile, List.forall_mem_cons] at freely
    exact Rearranges.scope (.append (ih freely.2).scope (.refl _))
  | switch span subject body ih =>
    simp only [parts_switch, List.forall_mem_cons] at freely
    exact Rearranges.scope (.append (.refl _) (ih freely.2).scope)
  | caseLabel span value statement ih =>
    simp only [parts_caseLabel, List.forall_mem_cons] at freely
    exact .append (.refl _) (ih freely.2)
  | defaultLabel span statement ih =>
    simp only [parts_defaultLabel, List.forall_mem_cons] at freely
    exact ih freely.2
  | labelled span label statement ih =>
    simp only [parts_labelled, List.forall_mem_cons] at freely
    exact ih freely.2
  | _ => exact .refl _

end Statement

/-- Behind normalization each use of a name in the body resolves to the declaration to which it resolved
before. All further uses are those of names that first values are assigned to, at the places of their
declarations, to which they resolve. -/
theorem Function.normalize_references {function : Function} (freely : function.reordersFreely) :
    ∃ targets, function.normalize.references.Perm (function.references ++ targets) ∧
      ∀ reference ∈ targets, reference.IsTarget := by
  rw [reordersFreely, Bool.and_eq_true, List.all_eq_true, List.all_eq_true] at freely
  have whole := (Statement.rearranges_brace freely.1).trans
    (Statement.rearranges_splitDeclarations freely.2)
  exact (whole function.headTable).2

/-- Declarations move over uses of other variables with their names, in blocks and without them. -/
theorem Function.normalize_references_in_blocks :
    ∃ unit, CompilationUnit.parse
        "int g(int);
          void f(int n) \x7b g(n); int x = g(n); if (x) \x7b int n = g(x); n = x; \x7d \x7d" =
            .ok unit ∧
      ∃ function ∈ unit.functions,
        (function.reordersFreely ∧
          function.normalize.references.length = function.references.length + 2) ∧
        ∃ targets, function.normalize.references.Perm (function.references ++ targets) ∧
          ∀ reference ∈ targets, reference.IsTarget := by
  refine CompilationUnit.exists_parsed _
    (fun unit => decide (∃ function ∈ unit.functions, function.reordersFreely ∧
      function.normalize.references.length = function.references.length + 2))
    (by decide +kernel) ?_
  intro unit parses checked
  obtain ⟨function, member, freely, more⟩ := of_decide_eq_true checked
  exact ⟨function, member, ⟨freely, more⟩, normalize_references freely⟩

/-- A declaration moves over that of a constant that its type uses, and the use then resolves to
nothing in the function. -/
theorem Function.normalize_loses_declaration :
    ∃ unit, CompilationUnit.parse
        "void g(void); int (*h(void))[5];
          void f(void) \x7b g(); const int n = 5; int (*p)[n] = h(); \x7d" = .ok unit ∧
      ∃ function ∈ unit.functions, ∃ reference ∈ function.references,
        reference.entity.isSome ∧ ⟨reference.use, none⟩ ∈ function.normalize.references := by
  refine CompilationUnit.exists_parsed _
    (fun unit => decide (∃ function ∈ unit.functions, ∃ reference ∈ function.references,
      reference.entity.isSome ∧ ⟨reference.use, none⟩ ∈ function.normalize.references))
    (by decide +kernel) ?_
  exact fun unit _ checked => of_decide_eq_true checked

end InlineMacro
