import InlineMacro.Proofs.Analysis.Census
import InlineMacro.Proofs.Pass.InvocationSites
import InlineMacro.Proofs.Pass.NormalForm

/-!
# What flattening and making invocations leave alone

A statement in which every call of a target is that of a local object comes out of both passes as it
went in, and nothing is taken from the registry. The passes may know more local names than there are
in scope, because they take in a whole declaration statement at once.
-/

set_option autoImplicit false

namespace InlineMacro

/-! ## Shadowed calls -/

namespace LocalNames

def Shadows (isTarget : String → Bool) (locals : LocalNames) (uses : List Use) : Prop :=
  ∀ name, .called name ∈ uses → isTarget name → locals.contains name

def WithinBlocks (narrow wide : LocalNames) : Prop :=
  List.Forall₂ (· ⊆ ·) narrow.frames wide.frames

namespace WithinBlocks

variable {narrow wide : LocalNames}

theorem refl (locals : LocalNames) : locals.WithinBlocks locals :=
  List.forall₂_same.mpr fun _ _ => List.Subset.refl _

theorem contains (within : narrow.WithinBlocks wide) {name : String}
    (inside : narrow.contains name) : wide.contains name := by
  obtain ⟨frame, among, found⟩ := List.any_eq_true.mp inside
  rw [WithinBlocks, List.forall₂_iff_get] at within
  obtain ⟨index, bound, rfl⟩ := List.mem_iff_getElem.mp among
  have wider := within.2 index bound (within.1 ▸ bound)
  refine List.any_eq_true.mpr ⟨_, List.getElem_mem (within.1 ▸ bound), ?_⟩
  exact List.contains_iff_mem.mpr (wider (List.contains_iff_mem.mp found))

theorem trans {wider : LocalNames} (within : narrow.WithinBlocks wide)
    (others : wide.WithinBlocks wider) : narrow.WithinBlocks wider := by
  obtain ⟨frames⟩ := narrow
  obtain ⟨wideFrames⟩ := wide
  obtain ⟨widerFrames⟩ := wider
  change List.Forall₂ _ frames wideFrames at within
  change List.Forall₂ _ wideFrames widerFrames at others
  change List.Forall₂ _ frames widerFrames
  induction within generalizing widerFrames with
  | nil => exact others
  | cons head tail ih =>
    cases others with
    | cons otherHead otherTail => exact .cons (List.Subset.trans head otherHead) (ih _ otherTail)

theorem enter (within : narrow.WithinBlocks wide) : narrow.enter.WithinBlocks wide.enter :=
  .cons (List.Subset.refl _) within

theorem tail (within : narrow.WithinBlocks wide) :
    List.Forall₂ (· ⊆ ·) narrow.frames.tail wide.frames.tail := by
  obtain ⟨frames⟩ := narrow
  obtain ⟨others⟩ := wide
  unfold WithinBlocks at within
  cases within with
  | nil => exact .nil
  | cons head tail => exact tail

theorem add (within : narrow.WithinBlocks wide) (name : String) :
    (narrow.add name).WithinBlocks (wide.add name) := by
  obtain ⟨frames⟩ := narrow
  obtain ⟨others⟩ := wide
  unfold WithinBlocks at within
  cases within with
  | nil => exact .nil
  | cons head tail => exact .cons (List.cons_subset_cons _ head) tail

theorem widen_add (within : narrow.WithinBlocks wide) (name : String) :
    narrow.WithinBlocks (wide.add name) := by
  obtain ⟨frames⟩ := narrow
  obtain ⟨others⟩ := wide
  unfold WithinBlocks at within
  cases within with
  | nil => exact .nil
  | cons head tail => exact .cons (List.subset_cons_of_subset _ head) tail

theorem declare (within : narrow.WithinBlocks wide) (declaration : Declaration) :
    (narrow.declare declaration).WithinBlocks (wide.declare declaration) := by
  unfold LocalNames.declare
  split
  · exact within.add _
  · exact within

theorem widen (within : narrow.WithinBlocks wide) (declaration : Declaration) :
    narrow.WithinBlocks (wide.declare declaration) := by
  unfold LocalNames.declare
  split
  · exact within.widen_add _
  · exact within

theorem declareAll (within : narrow.WithinBlocks wide) (declarations : List Declaration) :
    (declarations.foldl LocalNames.declare narrow).WithinBlocks
      (declarations.foldl LocalNames.declare wide) := by
  induction declarations generalizing narrow wide with
  | nil => exact within
  | cons first rest ih => exact ih (within.declare first)

theorem widenAll (within : narrow.WithinBlocks wide) (declarations : List Declaration) :
    narrow.WithinBlocks (declarations.foldl LocalNames.declare wide) := by
  induction declarations generalizing wide with
  | nil => exact within
  | cons first rest ih => exact ih (within.widen first)

theorem declareStatement (within : narrow.WithinBlocks wide) (statement : Statement) :
    (narrow.declareStatement statement).WithinBlocks (wide.declareStatement statement) := by
  rw [declareStatement_eq, declareStatement_eq]
  exact within.declareAll _

theorem widenStatement (within : narrow.WithinBlocks wide) (statement : Statement) :
    narrow.WithinBlocks (wide.declareStatement statement) := by
  rw [declareStatement_eq]
  exact within.widenAll _

theorem leave {inner : LocalNames} (within : inner.WithinBlocks wide)
    (opened : inner.frames.tail = narrow.enter.frames.tail) : narrow.WithinBlocks wide.leave := by
  have tails := within.tail
  rw [opened] at tails
  exact tails

end WithinBlocks

end LocalNames

namespace Occurrence

variable {isTarget : String → Bool}

def CallsNone (isTarget : String → Bool) (occurrences : List (Occurrence LocalNames)) : Prop :=
  ∀ occurrence ∈ occurrences, ∀ name, occurrence.use = .called name → isTarget name →
    occurrence.scope.contains name

namespace CallsNone

variable {first second : List (Occurrence LocalNames)} {scope : LocalNames}

theorem left (none : CallsNone isTarget (first ++ second)) : CallsNone isTarget first :=
  fun occurrence member => none occurrence (List.mem_append_left _ member)

theorem right (none : CallsNone isTarget (first ++ second)) : CallsNone isTarget second :=
  fun occurrence member => none occurrence (List.mem_append_right _ member)

theorem elsewhere {uses : List Use} (none : CallsNone isTarget (elsewhereAt scope uses)) :
    scope.Shadows isTarget uses := fun name called target =>
  none _ (List.mem_map_of_mem called) name rfl target

theorem placed {inBlock : Bool} {uses : List (Use × UsePlace)}
    (none : CallsNone isTarget (placedAt scope inBlock uses)) :
    scope.Shadows isTarget (uses.map Prod.fst) := by
  intro name called target
  obtain ⟨use, among, same⟩ := List.mem_map.mp called
  exact none _ (List.mem_map_of_mem among) name same target

end CallsNone

end Occurrence

namespace LocalNames.Shadows

variable {isTarget : String → Bool} {locals wide : LocalNames} {uses others : List Use}

theorem mono (shadows : locals.Shadows isTarget uses) (within : locals.WithinBlocks wide) :
    wide.Shadows isTarget uses :=
  fun name called target => within.contains (shadows name called target)

theorem subset (shadows : locals.Shadows isTarget uses) (among : others ⊆ uses) :
    locals.Shadows isTarget others :=
  fun name called target => shadows name (among called) target

theorem append (first : locals.Shadows isTarget uses) (second : locals.Shadows isTarget others) :
    locals.Shadows isTarget (uses ++ others) := fun name called target =>
  (List.mem_append.mp called).elim (first name · target) (second name · target)

end LocalNames.Shadows

/-! ## Scopes of blocks -/

namespace Statement

mutual

/-- Nothing but its declarations changes the scope behind a statement of a block, wherever there
are blocks. -/
def HasClearScopes : Statement → Prop
  | .block _ statements => ListHaveClearScopes statements
  | .ifElse _ _ thenBranch none => thenBranch.HasClearScopes
  | .ifElse _ _ thenBranch (some elseBranch) =>
    thenBranch.HasClearScopes ∧ elseBranch.HasClearScopes
  | .whileLoop _ _ body => body.HasClearScopes
  | .forLoop _ none _ _ body => body.HasClearScopes
  | .forLoop _ (some init) _ _ body => init.HasClearScopes ∧ body.HasClearScopes
  | .doWhile _ body _ => body.HasClearScopes
  | .switch _ _ body => body.HasClearScopes
  | .caseLabel _ _ statement => statement.HasClearScopes
  | .defaultLabel _ statement => statement.HasClearScopes
  | .labelled _ _ statement => statement.HasClearScopes
  | _ => True

def ListHaveClearScopes : List Statement → Prop
  | [] => True
  | statement :: statements =>
    (∀ locals, statement.scopeAfter Scoping.locals locals = locals.declareStatement statement) ∧
      statement.HasClearScopes ∧ ListHaveClearScopes statements

end

/-- A statement of a block that changes the scope by its declarations only. -/
structure IsClear (statement : Statement) : Prop where
  after : ∀ locals, statement.scopeAfter Scoping.locals locals = locals.declareStatement statement
  inside : statement.HasClearScopes

theorem listHaveClearScopes_iff (statements : List Statement) :
    ListHaveClearScopes statements ↔ ∀ statement ∈ statements, statement.IsClear := by
  induction statements with
  | nil => simp [ListHaveClearScopes]
  | cons first rest ih =>
    rw [ListHaveClearScopes, ih, List.forall_mem_cons, ← and_assoc]
    exact and_congr_left fun _ => ⟨fun both => ⟨both.1, both.2⟩, fun clear => ⟨clear.1, clear.2⟩⟩

theorem IsClear.block (span : Span) {statements : List Statement}
    (each : ∀ statement ∈ statements, statement.IsClear) : (block span statements).IsClear :=
  ⟨fun _ => rfl, (listHaveClearScopes_iff statements).mpr each⟩

variable {statement : Statement}

theorem IsClear.blockOf (clear : statement.brace.IsClear) : (statement.blockOf statement.brace).IsClear := by
  unfold Statement.blockOf
  split
  · exact clear
  · exact .block _ (by simpa using clear)

theorem IsClear.labelledBlockOf (clear : statement.brace.IsClear) :
    (statement.labelledBlockOf statement.brace).IsClear := by
  unfold Statement.labelledBlockOf
  split
  · exact clear
  · exact clear.blockOf

theorem declareStatement_of_isMarked (marked : statement.isMarked)
    (locals : LocalNames) : locals.declareStatement statement = locals := by
  rw [LocalNames.declareStatement_eq, declared_of_isMarked marked]
  rfl

theorem IsClear.scopeAfter_labelledBlockOf (clear : statement.brace.IsClear) (locals : LocalNames) :
    (statement.labelledBlockOf statement.brace).scopeAfter Scoping.locals locals = locals := by
  rw [clear.labelledBlockOf.after, declareStatement_of_isMarked (isMarked_labelledBlockOf _)]

theorem isClear_brace (statement : Statement) : statement.brace.IsClear := by
  induction statement with
  | block span statements each =>
    rw [brace, braceList_eq_map]
    refine .block span fun entry member => ?_
    obtain ⟨original, found, rfl⟩ := List.mem_map.mp member
    exact each original found
  | declaration span declarations => exact ⟨fun _ => rfl, trivial⟩
  | ifThen span condition thenBranch ih =>
    refine ⟨fun locals => ?_, ih.blockOf.inside, trivial⟩
    have same := scopeAfter_of_isBlock Scoping.locals locals (isBlock_blockOf thenBranch)
    exact same
  | ifElse span condition thenBranch elseBranch thenIh elseIh =>
    refine ⟨fun locals => ?_, thenIh.blockOf.inside, elseIh.blockOf.inside⟩
    exact (scopeAfter_of_isBlock _ _ (isBlock_blockOf elseBranch)).trans
      (scopeAfter_of_isBlock _ locals (isBlock_blockOf thenBranch))
  | whileLoop span condition body ih | bareLoop span condition update body ih
  | doWhile span body condition ih | switch span subject body ih =>
    refine ⟨fun locals => ?_, ih.blockOf.inside⟩
    have same := scopeAfter_of_isBlock Scoping.locals locals (isBlock_blockOf body)
    exact same
  | forLoop span init condition update body initIh bodyIh =>
    exact ⟨fun _ => rfl, initIh.inside, bodyIh.blockOf.inside⟩
  | caseLabel span value statement ih | defaultLabel span statement ih
  | labelled span label statement ih =>
    exact ⟨ih.scopeAfter_labelledBlockOf, ih.labelledBlockOf.inside⟩
  | _ => exact ⟨fun _ => rfl, trivial⟩

theorem scopeAfter_splitDeclarations {σ : Type} (scoping : Scoping σ) (statement : Statement) (scope : σ) :
    statement.splitDeclarations.scopeAfter scoping scope = statement.scopeAfter scoping scope := by
  induction statement generalizing scope with
  | ifElse span condition thenBranch elseBranch thenIh elseIh =>
    simp only [splitDeclarations, scopeAfter, thenIh, elseIh]
  | ifThen span condition thenBranch ih => exact ih scope
  | whileLoop span condition body ih | bareLoop span condition update body ih
  | doWhile span body condition ih | switch span subject body ih => exact ih scope
  | caseLabel span value statement ih | defaultLabel span statement ih
  | labelled span label statement ih => exact ih scope
  | _ => rfl

theorem StemsFrom.isClear {entry : Statement} (stems : entry.StemsFrom statement)
    (clear : entry.IsClear) (inside : entry.splitDeclarations.IsClear) : statement.IsClear := by
  cases stems with
  | declaration declares => exact clear
  | yields declared member statement yields => cases yields <;> exact ⟨fun _ => rfl, trivial⟩
  | inside => exact inside

theorem IsClear.after_splitDeclarations (clear : statement.IsClear)
    (locals : LocalNames) : statement.splitDeclarations.scopeAfter Scoping.locals locals =
      locals.declareStatement statement.splitDeclarations := by
  rw [scopeAfter_splitDeclarations, clear.after, LocalNames.declareStatement_eq,
    LocalNames.declareStatement_eq, declared_splitDeclarations]

theorem HasClearScopes.splitDeclarations
    (clear : statement.HasClearScopes) : statement.splitDeclarations.HasClearScopes := by
  induction statement with
  | block span statements each =>
    refine (listHaveClearScopes_iff _).mpr fun statement member => ?_
    obtain ⟨entry, found, stems⟩ := stemsFrom_of_mem_splitBlock statement member
    have entryClear := (listHaveClearScopes_iff statements).mp clear entry found
    exact stems.isClear entryClear ⟨entryClear.after_splitDeclarations, each entry found entryClear.inside⟩
  | ifElse span condition thenBranch elseBranch thenIh elseIh =>
    exact ⟨thenIh clear.1, elseIh clear.2⟩
  | forLoop span init condition update body initIh bodyIh =>
    exact ⟨initIh clear.1, bodyIh clear.2⟩
  | ifThen _ _ _ ih | whileLoop _ _ _ ih | bareLoop _ _ _ _ ih | doWhile _ _ _ ih
  | switch _ _ _ ih | caseLabel _ _ _ ih | defaultLabel _ _ ih | labelled _ _ _ ih =>
    exact ih clear
  | _ => trivial

end Statement

theorem Function.isClear_normalize (function : Function) : function.normalize.body.IsClear :=
  ⟨function.body.isClear_brace.after_splitDeclarations, function.body.isClear_brace.inside.splitDeclarations⟩

theorem Statement.IsClear.within_scopeAfter {statement : Statement} (clear : statement.IsClear)
    (scope : LocalNames) : scope.WithinBlocks (statement.scopeAfter .locals scope) := by
  rw [clear.after]
  exact (LocalNames.WithinBlocks.refl scope).widenStatement statement

/-! ## Calls in statement position -/

theorem Expr.called_mem_uses {call : Expr} {name : String} (called : call.callee? = some name) :
    .called name ∈ call.uses := by
  rw [← Use.mem_callees, ← call.callees_nodes]
  cases call with
  | call span function arguments => exact List.mem_filterMap.mpr ⟨_, List.mem_cons_self, called⟩
  | _ => cases called

theorem Statement.shadows_callSite {isTarget : String → Bool} {statement : Statement}
    {inBlock : Bool} {scope locals : LocalNames}
    (none : Occurrence.CallsNone isTarget (statement.occurrences .locals inBlock scope))
    (within : scope.WithinBlocks locals) {position : CallPosition} {call : Expr}
    (site : statement.callSite? = some (position, call)) : locals.Shadows isTarget call.uses := by
  obtain ⟨isCall, uses, context, isSite, rfl⟩ := Statement.isSite_of_callSite? site
  rw [Statement.occurrences_of_plain _ (isSite.isPlain call), isSite.ownUses isCall] at none
  have own := none.placed
  rw [List.map_append, Expr.map_fst_placedUses] at own
  exact (own.subset (List.subset_append_right _ _)).mono within

/-! ## Flattening -/

namespace Flatten

variable {targets : Association CType} {state : FlattenState}

theorem targetOf?_of_shadows {call : Expr}
    (shadows : state.locals.Shadows targets.contains call.uses) : targetOf? targets state call = none := by
  unfold targetOf?
  cases called : call.callee? with
  | none => rfl
  | some name =>
    cases isTarget : targets.contains name with
    | false => simp [Option.filter, isTarget]
    | true =>
      have inside := shadows name (Expr.called_mem_uses called) isTarget
      simp [Option.filter, isTarget, inside]

theorem uses_arguments_subset (span : Span) (function : Expr) (arguments : List Expr) :
    Expr.listUses arguments ⊆ (Expr.call span function arguments).uses := by
  rw [Expr.uses_call]
  exact List.subset_append_right _ _

mutual

theorem hoistFrom_leaves (state : FlattenState) :
    ∀ argument : Expr, state.locals.Shadows targets.contains argument.uses →
      Ensures (hoistFrom targets argument) state fun result after =>
        result = ([], argument) ∧ state = after
  | .call span function arguments, shadows => by
    rw [hoistFrom]
    refine .bindGet ?_
    rw [targetOf?_of_shadows shadows]
    refine (hoistFromList_leaves state arguments
      (shadows.subset (uses_arguments_subset span function arguments))).bind ?_
    rintro _ _ ⟨rfl, rfl⟩
    exact .pure ⟨rfl, rfl⟩
  | .intLiteral .., _ | .floatLiteral .., _ | .charLiteral .., _ | .stringLiteral .., _
  | .identifier .., _ | .binary .., _ | .unary .., _ | .member .., _ | .conditional .., _
  | .cast .., _ | .sizeofExpr .., _ | .sizeofType .., _ | .compoundLiteral .., _ | .comma .., _
  | .typeArgument .., _ => by
    rw [hoistFrom]
    · exact .pure ⟨rfl, rfl⟩
    · intro span function arguments impossible
      cases impossible

theorem hoistFromList_leaves (state : FlattenState) :
    ∀ arguments : List Expr, state.locals.Shadows targets.contains (Expr.listUses arguments) →
      Ensures (hoistFromList targets arguments) state fun result after =>
        result = ([], arguments) ∧ state = after
  | [], _ => .pure ⟨rfl, rfl⟩
  | argument :: arguments, shadows => by
    rw [Expr.listUses] at shadows
    rw [hoistFromList]
    refine (hoistFrom_leaves state argument (shadows.subset (List.subset_append_left _ _))).bind ?_
    rintro _ _ ⟨rfl, rfl⟩
    refine (hoistFromList_leaves state arguments (shadows.subset (List.subset_append_right _ _))).bind ?_
    rintro _ _ ⟨rfl, rfl⟩
    exact .pure ⟨rfl, rfl⟩

end

theorem replacement_leaves (round : FlattenRound) {statement : Statement} (state : FlattenState)
    (shadows : ∀ position call, statement.callSite? = some (position, call) →
      state.locals.Shadows targets.contains call.uses) :
    Ensures (replacement targets round statement) state fun result after =>
      result = none ∧ state = after := by
  cases round with
  | assignResults =>
    refine .bindGet ?_
    split
    · exact .pure ⟨rfl, rfl⟩
    · next position call site =>
      rw [targetOf?_of_shadows (shadows position call site)]
      exact .pure ⟨rfl, rfl⟩
  | hoistArguments =>
    rw [replacement, hoistArguments]
    split
    · next span function arguments top =>
      obtain ⟨⟨position, call⟩, site, rfl⟩ := Option.map_eq_some_iff.mp top
      refine (hoistFromList_leaves state arguments
        ((shadows position _ site).subset (uses_arguments_subset span function arguments))).bind ?_
      rintro _ _ ⟨rfl, rfl⟩
      exact .pure ⟨rfl, rfl⟩
    · exact .pure ⟨rfl, rfl⟩
  | passAddresses =>
    refine .bindGet ?_
    split
    · next place span left callSpan function arguments =>
      rw [targetOf?_of_shadows (shadows .assigned (.call callSpan function arguments) rfl)]
      exact .pure ⟨rfl, rfl⟩
    · exact .pure ⟨rfl, rfl⟩

/-- Only the names in scope have changed, and those in a scope are among them. -/
structure Leaves (scope : LocalNames) (state after : FlattenState) : Prop where
  registry : after.registry = state.registry
  temporaries : after.temporaries = state.temporaries
  within : scope.WithinBlocks after.locals

theorem Leaves.refl {scope : LocalNames}
    (within : scope.WithinBlocks state.locals) : Leaves scope state state := ⟨rfl, rfl, within⟩

theorem Leaves.trans {scope between : LocalNames} {first second third : FlattenState}
    (former : Leaves between first second) (latter : Leaves scope second third) : Leaves scope first third :=
  ⟨latter.registry.trans former.registry, latter.temporaries.trans former.temporaries, latter.within⟩

theorem Leaves.leave {scope : LocalNames} {statements : List Statement} {opened after : FlattenState}
    (leaves : Leaves (Statement.listScopeAfter .locals scope.enter statements) opened after)
    (registry : opened.registry = state.registry) (temporaries : opened.temporaries = state.temporaries) :
    Leaves scope state { after with locals := after.locals.leave } :=
  ⟨leaves.registry.trans registry, leaves.temporaries.trans temporaries,
    leaves.within.leave (Statement.tail_listScopeAfter _ _)⟩

theorem replacements_leaves (round : FlattenRound) {statements : List Statement} (scope : LocalNames)
    (clear : ∀ statement ∈ statements, statement.IsClear) (none : Occurrence.CallsNone targets.contains
      (Statement.listOccurrences .locals scope statements)) (within : scope.WithinBlocks state.locals) :
    Ensures (replacements targets round statements) state fun result after =>
      (∀ part ∈ result, part = Option.none) ∧
        Leaves (Statement.listScopeAfter .locals scope statements) state after := by
  induction statements generalizing scope state with
  | nil => exact ⟨fun _ member => absurd member List.not_mem_nil, .refl within⟩
  | cons first rest ih =>
    rw [List.forall_mem_cons] at clear
    rw [replacements]
    refine .bindModify ?_
    let declared : FlattenState :=
      { state with locals := state.locals.declareStatement first }
    have site (position : CallPosition) (call : Expr)
        (found : first.callSite? = some (position, call)) :
        declared.locals.Shadows targets.contains call.uses :=
      Statement.shadows_callSite none.left (within.widenStatement first) found
    refine (replacement_leaves round declared site).bind ?_
    rintro _ _ ⟨rfl, rfl⟩
    have inner : (first.scopeAfter .locals scope).WithinBlocks declared.locals := by
      rw [clear.1.after]
      exact within.declareStatement first
    refine (ih _ clear.2 none.right inner).bind fun result after holds => ?_
    have opened : Leaves (first.scopeAfter .locals scope) state declared := ⟨rfl, rfl, inner⟩
    exact .pure ⟨List.forall_mem_cons.mpr ⟨rfl, holds.1⟩, opened.trans holds.2⟩

def KeepsStatement (targets : Association CType) (round : FlattenRound) (entry : Statement) :
    Prop :=
  ∀ (inBlock : Bool) (scope : LocalNames) (state : FlattenState), entry.HasClearScopes →
    Occurrence.CallsNone targets.contains (entry.occurrences .locals inBlock scope) →
    scope.WithinBlocks state.locals →
    Ensures (statement targets round entry) state fun result after =>
      result = entry ∧ Leaves (entry.scopeAfter .locals scope) state after

theorem statements_leaves {round : FlattenRound} {entries : List Statement}
    (each : ∀ entry ∈ entries, KeepsStatement targets round entry)
    {replaced : List (Option (List Statement))} (nothing : ∀ part ∈ replaced, part = none)
    (scope : LocalNames) (clear : ∀ entry ∈ entries, entry.IsClear)
    (none : Occurrence.CallsNone targets.contains (Statement.listOccurrences .locals scope entries))
    (within : scope.WithinBlocks state.locals) :
    Ensures (statements targets round replaced entries) state fun result after =>
      result = entries ∧ Leaves (Statement.listScopeAfter .locals scope entries) state after := by
  induction entries generalizing replaced scope state with
  | nil => 
    rw [statements]
    exact .pure ⟨rfl, .refl within⟩
  | cons first rest ih =>
    rw [List.forall_mem_cons] at each clear
    have others : ∀ part ∈ replaced.tail, part = Option.none :=
      fun part member => nothing part (List.mem_of_mem_tail member)
    have step : statements targets round replaced (first :: rest) = do
        let result ← statement targets round first
        return result :: (← statements targets round replaced.tail rest) := by
      cases replaced with
      | nil => rw [statements]; simp
      | cons part parts =>
        rw [List.forall_mem_cons] at nothing
        rw [nothing.1, statements]
        simp
    rw [step]
    refine (each.1 true scope state clear.1.inside none.left within).bind ?_
    rintro _ middle ⟨rfl, firstLeaves⟩
    refine (ih each.2 others _ clear.2 none.right firstLeaves.within).bind ?_
    rintro _ after ⟨rfl, restLeaves⟩
    exact .pure ⟨rfl, firstLeaves.trans restLeaves⟩

theorem block_leaves {round : FlattenRound} (span : Span) {entries : List Statement}
    (each : ∀ entry ∈ entries, KeepsStatement targets round entry) :
    KeepsStatement targets round (.block span entries) := by
  intro inBlock scope state clear none within
  have clearly := (Statement.listHaveClearScopes_iff entries).mp clear
  rw [statement]
  refine .bindModify ?_
  refine (replacements_leaves round scope.enter clearly none within.enter).bind ?_
  intro replaced opened holds
  have looked : Leaves scope state { opened with locals := opened.locals.leave } :=
    holds.2.leave rfl rfl
  refine .bindModify (.bindModify ?_)
  refine (statements_leaves each holds.1 scope.enter clearly none looked.within.enter).bind ?_
  rintro _ after ⟨rfl, leaves⟩
  exact .bindModify (.pure ⟨rfl, leaves.leave looked.registry looked.temporaries⟩)

theorem statement_leaves (round : FlattenRound) (entry : Statement) : KeepsStatement targets round entry := by
  induction entry with
  | block span statements each => exact block_leaves span each
  | declaration span declarations =>
    intro inBlock scope state clear none within
    exact ⟨rfl, rfl, rfl, LocalNames.WithinBlocks.declareAll within declarations⟩
  | ifThen span condition thenBranch ih =>
    intro inBlock scope state clear none within
    refine (ih false scope state clear none.right within).bind ?_
    rintro _ after ⟨rfl, leaves⟩
    exact .pure ⟨rfl, leaves⟩
  | ifElse span condition thenBranch elseBranch thenIh elseIh =>
    intro inBlock scope state clear none within
    refine (thenIh false scope state clear.1 none.right.left within).bind ?_
    rintro _ middle ⟨rfl, thenLeaves⟩
    refine (elseIh false _ middle clear.2 none.right.right thenLeaves.within).bind ?_
    rintro _ after ⟨rfl, elseLeaves⟩
    exact .pure ⟨rfl, thenLeaves.trans elseLeaves⟩
  | forLoop span init condition update body initIh bodyIh =>
    intro inBlock scope state clear none within
    refine .bindModify ?_
    refine (initIh false scope.enter _ clear.1 none.left within.enter).bind ?_
    rintro _ middle ⟨rfl, initLeaves⟩
    refine (bodyIh false _ middle clear.2 none.right.right initLeaves.within).bind ?_
    rintro _ after ⟨rfl, bodyLeaves⟩
    refine .bindModify (.pure ⟨rfl, ?_⟩)
    have leaves := initLeaves.trans bodyLeaves
    exact ⟨leaves.registry, leaves.temporaries, leaves.within.leave
      ((Statement.tail_scopeAfter _ _).trans (Statement.tail_scopeAfter _ _))⟩
  | doWhile span body condition ih =>
    intro inBlock scope state clear none within
    refine (ih false scope state clear none.left within).bind ?_
    rintro _ after ⟨rfl, leaves⟩
    exact .pure ⟨rfl, leaves⟩
  | whileLoop _ _ body ih | bareLoop _ _ _ body ih | switch _ _ body ih | caseLabel _ _ body ih =>
    intro inBlock scope state clear none within
    refine (ih false scope state clear none.right within).bind ?_
    rintro _ after ⟨rfl, leaves⟩
    exact .pure ⟨rfl, leaves⟩
  | defaultLabel _ body ih | labelled _ _ body ih =>
    intro inBlock scope state clear none within
    refine (ih false scope state clear none within).bind ?_
    rintro _ after ⟨rfl, leaves⟩
    exact .pure ⟨rfl, leaves⟩
  | expression | typeDefinition | breakStatement | continueStatement | returnStatement
  | gotoStatement | empty =>
    intro inBlock scope state clear none within
    exact ⟨rfl, .refl within⟩

theorem body_leaves {whole : Statement} {scope : LocalNames} (clear : whole.IsClear)
    (none : Occurrence.CallsNone targets.contains (whole.occurrences .locals false scope))
    (state : FlattenState) (within : scope.WithinBlocks state.locals) :
    Ensures (body targets whole) state fun result after =>
      result = whole ∧ after.registry = state.registry ∧ after.temporaries = state.temporaries := by
  have again {state after : FlattenState} (leaves : Leaves (whole.scopeAfter .locals scope) state after) :
      scope.WithinBlocks after.locals :=
    (clear.within_scopeAfter scope).trans leaves.within
  refine (statement_leaves .assignResults whole false scope state clear.inside none within).bind ?_
  rintro _ first ⟨rfl, firstLeaves⟩
  refine (statement_leaves .hoistArguments _ false scope first clear.inside none (again firstLeaves)).bind ?_
  rintro _ second ⟨rfl, secondLeaves⟩
  refine (statement_leaves .passAddresses _ false scope second clear.inside none (again secondLeaves)).mono ?_
  rintro _ third ⟨rfl, thirdLeaves⟩
  have leaves := (firstLeaves.trans secondLeaves).trans thirdLeaves
  exact ⟨rfl, leaves.registry, leaves.temporaries⟩

end Flatten

theorem Function.flattenCalls_of_callsNone {targets : Association CType} {function : Function}
    (clear : function.body.IsClear) (none : Occurrence.CallsNone targets.contains
      (function.body.occurrences .locals false (.ofFunction function))) (registry : Registry) :
    function.flattenCalls targets registry = (function, registry) := by
  unfold Function.flattenCalls
  split
  · rfl
  · have leaves := Flatten.body_leaves clear none ⟨.ofFunction function, registry, []⟩ (.refl _)
    unfold Ensures at leaves
    generalize (Flatten.body targets function.body).run ⟨.ofFunction function, registry, []⟩ =
      result at leaves ⊢
    obtain ⟨body, state⟩ := result
    obtain ⟨sameBody, sameRegistry, noTemporaries⟩ := leaves
    dsimp only at sameBody sameRegistry noTemporaries ⊢
    rw [sameBody, sameRegistry, noTemporaries, List.map_nil, Statement.precededBy_nil]

/-! ## Making invocations -/

namespace Invoking

variable {expansion : Expansion}

theorem isMacroCall_of_shadows {locals : LocalNames} {call : Expr}
    (shadows : locals.Shadows expansion.macros.contains call.uses) :
    isMacroCall expansion locals call = false := by
  unfold isMacroCall
  cases called : call.callee? with
  | none => rfl
  | some name =>
    cases isMacro : expansion.macros.contains name with
    | false => simp [isMacro]
    | true =>
      have inside := shadows name (Expr.called_mem_uses called) isMacro
      simp [inside]

theorem scan_leaves {nodes : List Node} {uses : List Use} (state : InvocationState)
    (same : Node.callees nodes = Use.callees uses)
    (shadows : state.locals.Shadows expansion.macros.contains uses) :
    Ensures (scan expansion nodes) state fun _ after => state = after := by
  have nothingFound : nodes.findSome? (strayText? expansion state.locals) = none := by
    rw [List.findSome?_eq_none_iff]
    intro node member
    unfold strayText?
    split
    · next value =>
      have notMacro : isMacroCall expansion state.locals value = false := by
        unfold isMacroCall
        cases called : value.callee? with
        | none => rfl
        | some name =>
          have among : name ∈ Node.callees nodes := List.mem_filterMap.mpr ⟨_, member, called⟩
          rw [same, Use.mem_callees] at among
          cases isMacro : expansion.macros.contains name with
          | false => simp [isMacro]
          | true => simp [shadows name among isMacro]
      rw [notMacro]
      rfl
    · rfl
  change state = { state with
    stray := state.stray.or (nodes.findSome? (strayText? expansion state.locals)) }
  rw [nothingFound, Option.or_none]

/-- Only the names in scope have changed, and those in a scope are among them. -/
structure Leaves (scope : LocalNames) (state after : InvocationState) : Prop where
  registry : after.registry = state.registry
  stray : after.stray = state.stray
  within : scope.WithinBlocks after.locals

variable {state : InvocationState}

theorem Leaves.refl {scope : LocalNames}
    (within : scope.WithinBlocks state.locals) : Leaves scope state state := ⟨rfl, rfl, within⟩

theorem Leaves.trans {scope between : LocalNames} {first second third : InvocationState}
    (former : Leaves between first second) (latter : Leaves scope second third) : Leaves scope first third :=
  ⟨latter.registry.trans former.registry, latter.stray.trans former.stray, latter.within⟩

theorem Leaves.leave {scope inner : LocalNames} {opened after : InvocationState}
    (leaves : Leaves inner opened after) (opens : inner.frames.tail = scope.enter.frames.tail)
    (registry : opened.registry = state.registry) (stray : opened.stray = state.stray) :
    Leaves scope state { after with locals := after.locals.leave } :=
  ⟨leaves.registry.trans registry, leaves.stray.trans stray, leaves.within.leave opens⟩

theorem declaration_leaves (given : Declaration) {scope : LocalNames}
    (none : Occurrence.CallsNone expansion.macros.contains (given.occurrences .locals scope))
    (within : scope.WithinBlocks state.locals) : Ensures (declaration expansion given) state fun _ after =>
      Leaves (scope.declare given) state after := by
  rw [declaration]
  refine .bindModify ?_
  let declared : InvocationState := { state with locals := state.locals.declare given }
  have types : declared.locals.Shadows expansion.macros.contains given.type.uses :=
    none.left.elsewhere.mono (within.widen given)
  have values : declared.locals.Shadows expansion.macros.contains
      (optionalUses Initializer.uses given.initializer) :=
    none.right.elsewhere.mono (within.declare given)
  have same : Node.callees
      (given.type.nodes ++ optionalNodes Initializer.nodes given.initializer) =
        Use.callees (given.type.uses ++ optionalUses Initializer.uses given.initializer) := by
    rw [Node.callees_append, Use.callees_append, given.type.callees_nodes,
      optionalInitializer_callees]
  refine (scan_leaves declared same (types.append values)).mono ?_
  rintro _ _ rfl
  exact ⟨rfl, rfl, within.declare given⟩

theorem declarations_leaves (given : List Declaration) {scope : LocalNames}
    (none : Occurrence.CallsNone expansion.macros.contains (Declaration.listOccurrences .locals scope given))
    (within : scope.WithinBlocks state.locals) : Ensures (declarations expansion given) state fun _ after =>
      Leaves (given.foldl LocalNames.declare scope) state after := by
  induction given generalizing scope state with
  | nil => exact .refl within
  | cons first rest ih =>
    rw [declarations]
    refine (declaration_leaves first none.left within).bind fun _ middle firstLeaves => ?_
    exact (ih none.right firstLeaves.within).mono fun _ _ restLeaves => firstLeaves.trans restLeaves

/-! ### Statements of a block -/

variable {entry : Statement}

theorem placed?_of_shadows {locals : LocalNames}
    (shadows : ∀ position call, entry.callSite? = some (position, call) →
      locals.Shadows expansion.macros.contains call.uses) : placed? expansion locals entry = none := by
  unfold placed?
  split
  · next call site => rw [isMacroCall_of_shadows (shadows _ call site)]; rfl
  · next call site => rw [isMacroCall_of_shadows (shadows _ call site)]; rfl
  · rfl

theorem invocation?_of_shadows {locals : LocalNames}
    (shadows : ∀ position call, entry.callSite? = some (position, call) →
      locals.Shadows expansion.macros.contains call.uses) : invocation? expansion locals entry = none := by
  unfold invocation?
  split
  · next call site => rw [isMacroCall_of_shadows (shadows _ call site)]; rfl
  · rfl

variable {entries : List Statement}

theorem placements_of_callsNone (scope : LocalNames) {locals : LocalNames}
    (clear : ∀ entry ∈ entries, entry.IsClear) (none : Occurrence.CallsNone expansion.macros.contains
      (Statement.listOccurrences .locals scope entries)) (within : scope.WithinBlocks locals) :
    ∀ part ∈ placements expansion locals entries, part = Option.none := by
  induction entries generalizing scope locals with
  | nil => exact fun _ member => absurd member List.not_mem_nil
  | cons first rest ih =>
    rw [List.forall_mem_cons] at clear
    rw [placements, List.forall_mem_cons]
    refine ⟨placed?_of_shadows fun position call site =>
      Statement.shadows_callSite none.left (within.widenStatement first) site, ?_⟩
    refine ih (first.scopeAfter .locals scope) clear.2 none.right ?_
    rw [clear.1.after]
    exact within.declareStatement first

theorem callees_loopHead (condition update : Option Expr) :
    Node.callees (optionalNodes Expr.nodes condition ++ optionalNodes Expr.nodes update) =
      Use.callees (optionalUses Expr.uses condition ++ optionalUses Expr.uses update) := by
  rw [Node.callees_append, Use.callees_append, optionalExpr_callees, optionalExpr_callees]

def KeepsStatement (expansion : Expansion) (entry : Statement) : Prop :=
  ∀ (inBlock : Bool) (scope : LocalNames) (state : InvocationState), entry.HasClearScopes →
    Occurrence.CallsNone expansion.macros.contains (entry.occurrences .locals inBlock scope) →
    scope.WithinBlocks state.locals →
    Ensures (statement expansion entry) state fun result after =>
      result = entry ∧ Leaves (entry.scopeAfter .locals scope) state after

theorem statements_leaves (each : ∀ entry ∈ entries, KeepsStatement expansion entry)
    {placed : List (Option (List Statement))} (nothing : ∀ part ∈ placed, part = none)
    (scope : LocalNames) (clear : ∀ entry ∈ entries, entry.IsClear)
    (none : Occurrence.CallsNone expansion.macros.contains (Statement.listOccurrences .locals scope entries))
    (within : scope.WithinBlocks state.locals) :
    Ensures (statements expansion placed entries) state fun result after =>
      result = entries ∧ Leaves (Statement.listScopeAfter .locals scope entries) state after := by
  induction entries generalizing placed scope state with
  | nil =>
    rw [statements]
    exact .pure ⟨rfl, .refl within⟩
  | cons first rest ih =>
    rw [List.forall_mem_cons] at each clear
    have others : ∀ part ∈ placed.tail, part = Option.none :=
      fun part member => nothing part (List.mem_of_mem_tail member)
    let declared : InvocationState :=
      { state with locals := state.locals.declareStatement first }
    have known : scope.WithinBlocks declared.locals := within.widenStatement first
    have notInvoked : invocation? expansion declared.locals first = Option.none :=
      invocation?_of_shadows fun position call site =>
        Statement.shadows_callSite none.left known site
    have follows : Ensures (do
        let result ← statement expansion first
        return result :: (← statements expansion placed.tail rest)) declared
        fun result after => result = first :: rest ∧
          Leaves (Statement.listScopeAfter .locals scope (first :: rest)) state after := by
      refine (each.1 true scope declared clear.1.inside none.left known).bind ?_
      rintro _ middle ⟨rfl, firstLeaves⟩
      refine (ih each.2 others _ clear.2 none.right firstLeaves.within).bind ?_
      rintro _ after ⟨rfl, restLeaves⟩
      have leaves := firstLeaves.trans restLeaves
      exact .pure ⟨rfl, leaves.registry, leaves.stray, leaves.within⟩
    cases placed with
    | nil =>
      rw [statements]
      · refine .bindModify (.bindGet ?_)
        rw [notInvoked]
        exact follows
      · simp
    | cons part parts =>
      rw [List.forall_mem_cons] at nothing
      rw [nothing.1, statements]
      · refine .bindModify (.bindGet ?_)
        rw [notInvoked]
        exact follows
      · simp

theorem block_leaves (span : Span) (each : ∀ entry ∈ entries, KeepsStatement expansion entry) :
    KeepsStatement expansion (.block span entries) := by
  intro inBlock scope state clear none within
  have clearly := (Statement.listHaveClearScopes_iff entries).mp clear
  rw [statement]
  refine .bindModify (.bindGet ?_)
  have unplaced := placements_of_callsNone scope.enter clearly none within.enter
  refine (statements_leaves each unplaced scope.enter clearly none within.enter).bind ?_
  rintro _ after ⟨rfl, leaves⟩
  exact .bindModify (.pure ⟨rfl, leaves.leave (Statement.tail_listScopeAfter _ _) rfl rfl⟩)

theorem scope_of_scanned (scanned : isScanned entry) {inBlock : Bool}
    {scope : LocalNames} {occurrence : Occurrence LocalNames}
    (member : occurrence ∈ entry.occurrences .locals inBlock scope) : occurrence.scope = scope := by
  cases entry with
  | expression | typeDefinition | returnStatement =>
    obtain ⟨use, -, rfl⟩ := List.mem_map.mp member
    rfl
  | breakStatement | continueStatement | gotoStatement | empty => cases member
  | _ => cases scanned

theorem scanned_leaves (scanned : isScanned entry) : KeepsStatement expansion entry := by
  intro inBlock scope state clear none within
  have same := entry.callees_nodes Scoping.locals inBlock scope
  have shadows : state.locals.Shadows expansion.macros.contains
      ((entry.occurrences .locals inBlock scope).map Occurrence.use) := by
    intro name called isMacro
    obtain ⟨occurrence, among, use⟩ := List.mem_map.mp called
    have inside := none occurrence among name use isMacro
    rw [scope_of_scanned scanned among] at inside
    exact within.contains inside
  rw [statement_of_scanned scanned]
  refine (scan_leaves state same shadows).bind ?_
  rintro _ _ rfl
  refine .pure ⟨rfl, rfl, rfl, ?_⟩
  cases entry with
  | expression | typeDefinition | returnStatement | breakStatement | continueStatement
  | gotoStatement | empty => exact within
  | _ => cases scanned

theorem statement_leaves (entry : Statement) : KeepsStatement expansion entry := by
  induction entry with
  | block span statements each => exact block_leaves span each
  | declaration span given =>
    intro inBlock scope state clear none within
    refine (declarations_leaves given none within).bind fun _ after leaves => ?_
    exact .pure ⟨rfl, leaves⟩
  | ifThen span condition thenBranch ih =>
    intro inBlock scope state clear none within
    refine (scan_leaves _ condition.callees_nodes (none.left.elsewhere.mono within)).bind ?_
    rintro _ _ rfl
    refine (ih false scope state clear none.right within).bind ?_
    rintro _ after ⟨rfl, leaves⟩
    exact .pure ⟨rfl, leaves⟩
  | ifElse span condition thenBranch elseBranch thenIh elseIh =>
    intro inBlock scope state clear none within
    refine (scan_leaves _ condition.callees_nodes (none.left.elsewhere.mono within)).bind ?_
    rintro _ _ rfl
    refine (thenIh false scope state clear.1 none.right.left within).bind ?_
    rintro _ middle ⟨rfl, thenLeaves⟩
    refine (elseIh false _ middle clear.2 none.right.right thenLeaves.within).bind ?_
    rintro _ after ⟨rfl, elseLeaves⟩
    exact .pure ⟨rfl, thenLeaves.trans elseLeaves⟩
  | whileLoop _ value body ih | switch _ value body ih | caseLabel _ value body ih =>
    intro inBlock scope state clear none within
    refine (scan_leaves _ value.callees_nodes (none.left.elsewhere.mono within)).bind ?_
    rintro _ _ rfl
    refine (ih false scope state clear none.right within).bind ?_
    rintro _ after ⟨rfl, leaves⟩
    exact .pure ⟨rfl, leaves⟩
  | bareLoop span condition update body ih =>
    intro inBlock scope state clear none within
    refine (scan_leaves _ (callees_loopHead condition update) (none.left.elsewhere.mono within)).bind ?_
    rintro _ _ rfl
    refine (ih false scope state clear none.right within).bind ?_
    rintro _ after ⟨rfl, leaves⟩
    exact .pure ⟨rfl, leaves⟩
  | forLoop span init condition update body initIh bodyIh =>
    intro inBlock scope state clear none within
    refine .bindModify ?_
    refine (initIh false scope.enter _ clear.1 none.left within.enter).bind ?_
    rintro _ middle ⟨rfl, initLeaves⟩
    refine (scan_leaves _ (callees_loopHead condition update)
      (none.right.left.elsewhere.mono initLeaves.within)).bind ?_
    rintro _ _ rfl
    refine (bodyIh false _ middle clear.2 none.right.right initLeaves.within).bind ?_
    rintro _ after ⟨rfl, bodyLeaves⟩
    refine .bindModify (.pure ⟨rfl, (initLeaves.trans bodyLeaves).leave ?_ rfl rfl⟩)
    exact (Statement.tail_scopeAfter _ _).trans (Statement.tail_scopeAfter _ _)
  | doWhile span body condition ih =>
    intro inBlock scope state clear none within
    refine (ih false scope state clear none.left within).bind ?_
    rintro _ after ⟨rfl, leaves⟩
    refine (scan_leaves _ condition.callees_nodes (none.right.elsewhere.mono leaves.within)).bind ?_
    rintro _ _ rfl
    exact .pure ⟨rfl, leaves⟩
  | defaultLabel _ body ih | labelled _ _ body ih =>
    intro inBlock scope state clear none within
    refine (ih false scope state clear none within).bind ?_
    rintro _ after ⟨rfl, leaves⟩
    exact .pure ⟨rfl, leaves⟩
  | expression | typeDefinition | breakStatement | continueStatement | returnStatement
  | gotoStatement | empty => exact scanned_leaves rfl

end Invoking

theorem Pass.invokeMacros_of_callsNone {expansion : Expansion} {function : Function}
    (clear : function.body.HasClearScopes) (none : Occurrence.CallsNone expansion.macros.contains
      (function.body.occurrences .locals false (.ofFunction function))) (registry : Registry) :
    (Pass.invokeMacros expansion).run ⟨function, registry⟩ = .ok () ⟨function, registry⟩ := by
  have leaves := Invoking.statement_leaves function.body false (.ofFunction function)
    ⟨.ofFunction function, registry, Option.none⟩ clear none (.refl _)
  rw [Pass.invokeMacros_run]
  unfold Ensures at leaves
  generalize (Invoking.statement expansion function.body).run
    ⟨.ofFunction function, registry, Option.none⟩ = result at leaves ⊢
  obtain ⟨body, locals, after, stray⟩ := result
  obtain ⟨sameBody, sameRegistry, noStray, -⟩ := leaves
  dsimp only at sameBody sameRegistry noStray
  subst sameBody sameRegistry noStray
  rfl

end InlineMacro
