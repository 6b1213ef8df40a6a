import InlineMacro.Pass.Normalize
import InlineMacro.Proofs.Scope.Occurrence
import InlineMacro.Proofs.Syntax.Induction

/-!
# Statements with bodies in blocks

In a braced statement every body of a branch or a loop is a block, every `if` has its `else`, and
what a label marks is a block too, unless it is empty or another label. Declarations and returns are
then statements of blocks only, so a scope ends where its block ends.
-/

set_option autoImplicit false

namespace InlineMacro

namespace Statement

/-- What the head of a loop can start with. -/
inductive IsLoopHead : Statement → Prop where
  | expression (span : Span) (value : Expr) : IsLoopHead (.expression span value)
  | declaration (span : Span) (declarations : List Declaration) :
      IsLoopHead (.declaration span declarations)
  | typeDefinition (span : Span) (type : CType) : IsLoopHead (.typeDefinition span type)

mutual

def HasLoopHeads : Statement → Prop
  | .block _ statements => ListHaveLoopHeads statements
  | .ifElse _ _ thenBranch none => thenBranch.HasLoopHeads
  | .ifElse _ _ thenBranch (some elseBranch) => thenBranch.HasLoopHeads ∧ elseBranch.HasLoopHeads
  | .whileLoop _ _ body => body.HasLoopHeads
  | .forLoop _ none _ _ body => body.HasLoopHeads
  | .forLoop _ (some init) _ _ body => init.IsLoopHead ∧ body.HasLoopHeads
  | .doWhile _ body _ => body.HasLoopHeads
  | .switch _ _ body => body.HasLoopHeads
  | .caseLabel _ _ statement => statement.HasLoopHeads
  | .defaultLabel _ statement => statement.HasLoopHeads
  | .labelled _ _ statement => statement.HasLoopHeads
  | _ => True

def ListHaveLoopHeads : List Statement → Prop
  | [] => True
  | statement :: statements => statement.HasLoopHeads ∧ ListHaveLoopHeads statements

end

def isMarked (statement : Statement) : Bool :=
  statement.isBlock || statement.isLabelled || statement.isEmpty

/-- Statements whose bodies are blocks. -/
inductive Braced : Statement → Prop where
  | expression (span : Span) (value : Expr) : Braced (.expression span value)
  | block (span : Span) (statements : List Statement)
      (each : ∀ statement ∈ statements, Braced statement) : Braced (.block span statements)
  | declaration (span : Span) (declarations : List Declaration) :
      Braced (.declaration span declarations)
  | typeDefinition (span : Span) (type : CType) : Braced (.typeDefinition span type)
  | ifElse (span : Span) (condition : Expr) (thenBranch elseBranch : Statement)
      (thenBlock : thenBranch.isBlock) (elseBlock : elseBranch.isBlock)
      (thenBraced : Braced thenBranch) (elseBraced : Braced elseBranch) :
      Braced (.ifElse span condition thenBranch (some elseBranch))
  | whileLoop (span : Span) (condition : Expr) (body : Statement) (bodyBlock : body.isBlock)
      (bodyBraced : Braced body) : Braced (.whileLoop span condition body)
  | bareLoop (span : Span) (condition update : Option Expr) (body : Statement)
      (bodyBlock : body.isBlock) (bodyBraced : Braced body) :
      Braced (.forLoop span none condition update body)
  | forLoop (span : Span) (init : Statement) (condition update : Option Expr) (body : Statement)
      (head : init.IsLoopHead) (bodyBlock : body.isBlock) (bodyBraced : Braced body) :
      Braced (.forLoop span (some init) condition update body)
  | doWhile (span : Span) (body : Statement) (condition : Expr) (bodyBlock : body.isBlock)
      (bodyBraced : Braced body) : Braced (.doWhile span body condition)
  | switch (span : Span) (subject : Expr) (body : Statement) (bodyBlock : body.isBlock)
      (bodyBraced : Braced body) : Braced (.switch span subject body)
  | caseLabel (span : Span) (value : Expr) (statement : Statement) (marked : statement.isMarked)
      (braced : Braced statement) : Braced (.caseLabel span value statement)
  | defaultLabel (span : Span) (statement : Statement) (marked : statement.isMarked)
      (braced : Braced statement) : Braced (.defaultLabel span statement)
  | labelled (span : Span) (label : String) (statement : Statement) (marked : statement.isMarked)
      (braced : Braced statement) : Braced (.labelled span label statement)
  | breakStatement (span : Span) : Braced (.breakStatement span)
  | continueStatement (span : Span) : Braced (.continueStatement span)
  | returnStatement (span : Span) (value : Option Expr) : Braced (.returnStatement span value)
  | gotoStatement (span : Span) (label : String) : Braced (.gotoStatement span label)
  | empty (span : Span) : Braced (.empty span)

variable {statement : Statement}

theorem IsLoopHead.braced (head : statement.IsLoopHead) : statement.Braced := by
  cases head with
  | expression span value => exact .expression span value
  | declaration span declarations => exact .declaration span declarations
  | typeDefinition span type => exact .typeDefinition span type

/-- Two statements are of one form as far as blocks and labels can tell. -/
structure SameForm (result entry : Statement) : Prop where
  isBlock : result.isBlock = entry.isBlock
  isMarked : result.isMarked = entry.isMarked
  loopHead : entry.IsLoopHead → result.IsLoopHead

theorem SameForm.refl (statement : Statement) : statement.SameForm statement :=
  ⟨rfl, rfl, id⟩

/-! ## Bracing -/

theorem braceList_eq_map (statements : List Statement) : braceList statements = statements.map brace := by
  induction statements with
  | nil => rfl
  | cons first rest ih => rw [braceList, ih, List.map_cons]

theorem listHaveLoopHeads_iff (statements : List Statement) :
    ListHaveLoopHeads statements ↔ ∀ statement ∈ statements, statement.HasLoopHeads := by
  induction statements with
  | nil => simp [ListHaveLoopHeads]
  | cons first rest ih => simp [ListHaveLoopHeads, ih]

theorem brace_of_head (head : statement.IsLoopHead) : statement.brace = statement := by
  cases head <;> rfl

theorem isBlock_brace (isBlock : statement.isBlock) : statement.brace.isBlock := by
  cases statement with
  | block span statements => rfl
  | _ => cases isBlock

theorem isBlock_blockOf (statement : Statement) : (statement.blockOf statement.brace).isBlock := by
  unfold blockOf
  split
  · next isBlock => exact isBlock_brace isBlock
  · rfl

theorem Braced.blockOf (braced : statement.brace.Braced) : (statement.blockOf statement.brace).Braced := by
  unfold Statement.blockOf
  split
  · exact braced
  · exact .block _ _ (by simpa using braced)

theorem isMarked_labelledBlockOf (statement : Statement) :
    (statement.labelledBlockOf statement.brace).isMarked := by
  unfold labelledBlockOf
  split
  · next marked =>
    cases statement <;> first | rfl | cases marked
  · simp [isMarked, isBlock_blockOf]

theorem Braced.labelledBlockOf (braced : statement.brace.Braced) :
    (statement.labelledBlockOf statement.brace).Braced := by
  unfold Statement.labelledBlockOf
  split
  · exact braced
  · exact braced.blockOf

theorem braced_brace (statement : Statement) (heads : statement.HasLoopHeads) : statement.brace.Braced := by
  induction statement with
  | expression span value => exact .expression span value
  | block span statements each =>
    rw [brace, braceList_eq_map]
    rw [HasLoopHeads, listHaveLoopHeads_iff] at heads
    refine .block span _ fun statement member => ?_
    obtain ⟨original, found, rfl⟩ := List.mem_map.mp member
    exact each original found (heads original found)
  | declaration span declarations => exact .declaration span declarations
  | typeDefinition span type => exact .typeDefinition span type
  | ifThen span condition thenBranch ih =>
    exact .ifElse span condition _ _ (isBlock_blockOf _) rfl (ih heads).blockOf
      (.block _ [] (by simp))
  | ifElse span condition thenBranch elseBranch thenIh elseIh =>
    exact .ifElse span condition _ _ (isBlock_blockOf _) (isBlock_blockOf _)
      (thenIh heads.1).blockOf (elseIh heads.2).blockOf
  | whileLoop span condition body ih =>
    exact .whileLoop span condition _ (isBlock_blockOf _) (ih heads).blockOf
  | bareLoop span condition update body ih =>
    exact .bareLoop span condition update _ (isBlock_blockOf _) (ih heads).blockOf
  | forLoop span init condition update body initIh bodyIh =>
    rw [brace, brace_of_head heads.1]
    exact .forLoop span init condition update _ heads.1 (isBlock_blockOf _) (bodyIh heads.2).blockOf
  | doWhile span body condition ih =>
    exact .doWhile span _ condition (isBlock_blockOf _) (ih heads).blockOf
  | switch span subject body ih =>
    exact .switch span subject _ (isBlock_blockOf _) (ih heads).blockOf
  | caseLabel span value statement ih =>
    exact .caseLabel span value _ (isMarked_labelledBlockOf _) (ih heads).labelledBlockOf
  | defaultLabel span statement ih =>
    exact .defaultLabel span _ (isMarked_labelledBlockOf _) (ih heads).labelledBlockOf
  | labelled span label statement ih =>
    exact .labelled span label _ (isMarked_labelledBlockOf _) (ih heads).labelledBlockOf
  | breakStatement span => exact .breakStatement span
  | continueStatement span => exact .continueStatement span
  | returnStatement span value => exact .returnStatement span value
  | gotoStatement span label => exact .gotoStatement span label
  | empty span => exact .empty span

/-! ## Scopes of braced statements -/

def declared : Statement → List Declaration
  | .declaration _ declarations => declarations
  | _ => []

theorem declared_of_isBlock (isBlock : statement.isBlock) : statement.declared = [] := by
  cases statement with
  | block => rfl
  | _ => cases isBlock

theorem declared_of_isMarked (marked : statement.isMarked) : statement.declared = [] := by
  cases statement with
  | declaration => cases marked
  | _ => rfl

section Scopes

variable {σ : Type} (scoping : Scoping σ) (scope : σ) {statement : Statement}

theorem scopeAfter_of_isBlock (isBlock : statement.isBlock) : statement.scopeAfter scoping scope = scope := by
  cases statement with
  | block span statements => rfl
  | _ => cases isBlock

theorem Braced.scopeAfter_of_isMarked (braced : statement.Braced)
    (marked : statement.isMarked) : statement.scopeAfter scoping scope = scope := by
  induction braced with
  | block => rfl
  | empty => rfl
  | caseLabel span value statement inner braced ih => exact ih inner
  | defaultLabel span statement inner braced ih => exact ih inner
  | labelled span label statement inner braced ih => exact ih inner
  | _ => cases marked

theorem Braced.scopeAfter_eq (braced : statement.Braced) :
    statement.scopeAfter scoping scope = statement.declared.foldl scoping.declare scope := by
  cases braced with
  | ifElse span condition thenBranch elseBranch thenBlock elseBlock =>
    simp only [scopeAfter, scopeAfter_of_isBlock scoping _ thenBlock,
      scopeAfter_of_isBlock scoping _ elseBlock, declared, List.foldl_nil]
  | whileLoop _ _ _ bodyBlock | bareLoop _ _ _ _ bodyBlock | doWhile _ _ _ bodyBlock
  | switch _ _ _ bodyBlock =>
    have same := scopeAfter_of_isBlock scoping scope bodyBlock
    exact same
  | caseLabel _ _ _ marked braced | defaultLabel _ _ marked braced
  | labelled _ _ _ marked braced =>
    have same := braced.scopeAfter_of_isMarked scoping scope marked
    exact same
  | _ => rfl

end Scopes

end Statement

theorem LocalNames.declareStatement_eq (locals : LocalNames) (statement : Statement) :
    locals.declareStatement statement = statement.declared.foldl declare locals := by
  cases statement <;> rfl

end InlineMacro
