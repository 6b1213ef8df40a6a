import InlineMacro.Proofs.Syntax.CallSite

/-!
# Plain statements in their blocks

The passes over a body work on the plain statements that stand in blocks, each in its scope. A rule
says what can become of one of them: statements that stand in the same place, and what is made for
them. Rules can be applied one behind the other.
-/

set_option autoImplicit false

namespace InlineMacro

/-! ## Where plain statements stand -/

section Standing

variable {σ : Type} (scoping : Scoping σ)

mutual

def Statement.standing (inBlock : Bool) (scope : σ) : Statement → List (σ × Statement)
  | .block _ statements => Statement.listStanding (scoping.enter scope) statements
  | .ifElse _ _ thenBranch none => thenBranch.standing false scope
  | .ifElse _ _ thenBranch (some elseBranch) =>
    thenBranch.standing false scope ++
      elseBranch.standing false (thenBranch.scopeAfter scoping scope)
  | .whileLoop _ _ body => body.standing false scope
  | .forLoop _ none _ _ body => body.standing false scope
  | .forLoop _ (some init) _ _ body =>
    init.standing false (scoping.enter scope) ++
      body.standing false (init.scopeAfter scoping (scoping.enter scope))
  | .doWhile _ body _ => body.standing false scope
  | .switch _ _ body => body.standing false scope
  | .caseLabel _ _ statement => statement.standing false scope
  | .defaultLabel _ statement => statement.standing false scope
  | .labelled _ _ statement => statement.standing false scope
  | statement => if inBlock && statement.isPlain then [(scope, statement)] else []

def Statement.listStanding (scope : σ) : List Statement → List (σ × Statement)
  | [] => []
  | statement :: statements =>
    statement.standing true scope ++
      Statement.listStanding (statement.scopeAfter scoping scope) statements

end

def Function.standing (function : Function) : List (σ × Statement) :=
  function.body.standing scoping false (scoping.ofFunction function)

variable {scoping} {statement : Statement}

theorem Statement.standing_of_plain (plain : statement.isPlain)
    (scope : σ) : statement.standing scoping true scope = [(scope, statement)] := by
  cases statement with
  | expression | returnStatement => rfl
  | _ => cases plain

theorem Statement.standing_of_outside (plain : statement.isPlain)
    (scope : σ) : statement.standing scoping false scope = [] := by
  cases statement with
  | expression | returnStatement => rfl
  | _ => cases plain

theorem Statement.standing_of_not_plain (notPlain : statement.isPlain = false) (inBlock : Bool) (scope : σ) :
    statement.standing scoping inBlock scope = statement.standing scoping false scope := by
  cases statement with
  | expression | returnStatement => cases notPlain
  | ifElse span condition thenBranch elseBranch => cases elseBranch <;> rfl
  | forLoop span init condition update body => cases init <;> rfl
  | declaration | typeDefinition | breakStatement | continueStatement | gotoStatement | empty =>
    cases inBlock <;> rfl
  | _ => rfl

theorem Statement.standing_of_head (head : statement.IsLoopHead)
    (scope : σ) : statement.standing scoping false scope = [] := by
  cases head <;> rfl

theorem Statement.listStanding_append (scope : σ) (first second : List Statement) :
    Statement.listStanding scoping scope (first ++ second) = Statement.listStanding scoping scope first ++
        Statement.listStanding scoping (Statement.listScopeAfter scoping scope first) second := by
  induction first generalizing scope with
  | nil => rfl
  | cons statement statements ih =>
    rw [List.cons_append, listStanding, ih, listStanding, List.append_assoc]
    rfl

variable (scoping) in
theorem Statement.listStanding_of_plain {statements : List Statement}
    (plain : ∀ statement ∈ statements, statement.isPlain) (scope : σ) :
    Statement.listScopeAfter scoping scope statements = scope ∧
      Statement.listStanding scoping scope statements = statements.map (Prod.mk scope) := by
  induction statements with
  | nil => exact ⟨rfl, rfl⟩
  | cons first rest ih =>
    rw [List.forall_mem_cons] at plain
    obtain ⟨sameScope, same⟩ := ih plain.2
    have own := Statement.scopeAfter_of_plain scoping scope plain.1
    constructor
    · rw [Statement.listScopeAfter, List.foldl_cons, own]
      exact sameScope
    · rw [listStanding, own, standing_of_plain plain.1, same]
      rfl

@[simp] theorem Occurrence.inBlock_elsewhereAt (scope : σ) (uses : List Use) :
    (elsewhereAt scope uses).filter (·.inBlock) = [] := by
  simp [elsewhereAt]

theorem Occurrence.inBlock_placedAt (scope : σ) (inBlock : Bool) (uses : List (Use × UsePlace)) :
    (placedAt scope inBlock uses).filter (·.inBlock) = if inBlock then placedAt scope true uses else [] := by
  have same : ∀ occurrence ∈ placedAt scope inBlock uses, occurrence.inBlock = inBlock := by
    intro occurrence member
    obtain ⟨placed, -, rfl⟩ := List.mem_map.mp member
    rfl
  cases inBlock with
  | false => exact List.filter_eq_nil_iff.mpr fun occurrence member => by simp [same _ member]
  | true => exact List.filter_eq_self.mpr same

@[simp] theorem Declaration.inBlock_listOccurrences (scope : σ) (declarations : List Declaration) :
    (Declaration.listOccurrences scoping scope declarations).filter (·.inBlock) = [] := by
  induction declarations generalizing scope with
  | nil => rfl
  | cons first rest ih => simp [Declaration.listOccurrences, Declaration.occurrences, ih]

theorem Statement.inBlock_of_plain (plain : statement.isPlain)
    (inBlock : Bool) (scope : σ) : (statement.occurrences scoping inBlock scope).filter (·.inBlock) =
      (statement.standing scoping inBlock scope).flatMap fun site =>
        Occurrence.placedAt site.1 true site.2.ownUses := by
  rw [occurrences_of_plain scoping plain, Occurrence.inBlock_placedAt]
  cases inBlock with
  | false =>
    rw [standing_of_outside plain]
    rfl
  | true =>
    rw [standing_of_plain plain]
    exact (List.append_nil _).symm

theorem Statement.inBlock_occurrences (statement : Statement) (inBlock : Bool) (scope : σ) :
    (statement.occurrences scoping inBlock scope).filter (·.inBlock) =
      (statement.standing scoping inBlock scope).flatMap fun site =>
        Occurrence.placedAt site.1 true site.2.ownUses := by
  induction statement generalizing inBlock scope with
  | expression span value => exact inBlock_of_plain rfl inBlock scope
  | returnStatement span value => exact inBlock_of_plain rfl inBlock scope
  | block span statements each =>
    rw [occurrences, standing]
    generalize scoping.enter scope = inner
    induction statements generalizing inner with
    | nil => rfl
    | cons first rest ih =>
      rw [List.forall_mem_cons] at each
      rw [listOccurrences, listStanding, List.filter_append, List.flatMap_append, each.1, ih each.2]
  | declaration span declarations =>
    rw [standing_of_not_plain rfl]
    exact Declaration.inBlock_listOccurrences scope declarations
  | typeDefinition span type =>
    rw [standing_of_not_plain rfl]
    exact Occurrence.inBlock_elsewhereAt scope type.uses
  | ifElse span condition thenBranch elseBranch thenIh elseIh =>
    simp [occurrences, standing, thenIh, elseIh]
  | forLoop span init condition update body initIh bodyIh =>
    simp [occurrences, standing, initIh, bodyIh]
  | ifThen _ _ _ ih | whileLoop _ _ _ ih | bareLoop _ _ _ _ ih | doWhile _ _ _ ih
  | switch _ _ _ ih | caseLabel _ _ _ ih | defaultLabel _ _ ih | labelled _ _ _ ih =>
    simp [occurrences, standing, ih]
  | _ => cases inBlock <;> rfl

theorem Statement.nodes_listStanding {statements : List Statement}
    (each : ∀ statement ∈ statements, ∀ scope, ∀ site ∈ statement.standing scoping true scope,
      site.2.nodes ⊆ statement.nodes) (scope : σ) : ∀ site ∈ Statement.listStanding scoping scope statements,
      site.2.nodes ⊆ Statement.listNodes statements := by
  induction statements generalizing scope with
  | nil => exact fun _ member => absurd member List.not_mem_nil
  | cons first rest ih =>
    rw [List.forall_mem_cons] at each
    refine List.forall_mem_append.mpr ⟨fun site member => ?_, fun site member => ?_⟩
    · exact List.subset_append_of_subset_left _ (each.1 scope site member)
    · exact List.subset_append_of_subset_right _ (ih each.2 _ site member)

theorem Statement.nodes_standing (statement : Statement) (inBlock : Bool) (scope : σ) :
    ∀ site ∈ statement.standing scoping inBlock scope, site.2.nodes ⊆ statement.nodes := by
  have own {entry : Statement} (plain : entry.isPlain) (inBlock : Bool) (scope : σ) :
      ∀ site ∈ entry.standing scoping inBlock scope, site.2.nodes ⊆ entry.nodes := by
    cases inBlock with
    | false => simp [standing_of_outside plain]
    | true => simp [standing_of_plain plain]
  induction statement generalizing inBlock scope with
  | expression span value => exact own rfl inBlock scope
  | returnStatement span value => exact own rfl inBlock scope
  | block span statements each =>
    intro site member
    have inside := nodes_listStanding (fun statement among => each statement among true) _ site member
    exact List.subset_cons_of_subset _ inside
  | ifThen span condition thenBranch ih =>
    intro site member
    refine List.subset_cons_of_subset _ (List.subset_append_of_subset_left _ ?_)
    exact List.subset_append_of_subset_right _ (ih false scope site member)
  | ifElse span condition thenBranch elseBranch thenIh elseIh =>
    refine List.forall_mem_append.mpr ⟨fun site member => ?_, fun site member => ?_⟩
    · refine List.subset_cons_of_subset _ (List.subset_append_of_subset_left _ ?_)
      exact List.subset_append_of_subset_right _ (thenIh false scope site member)
    · refine List.subset_cons_of_subset _ (List.subset_append_of_subset_right _ ?_)
      exact elseIh false _ site member
  | forLoop span init condition update body initIh bodyIh =>
    refine List.forall_mem_append.mpr ⟨fun site member => ?_, fun site member => ?_⟩
    · simp only [nodes, List.append_assoc]
      refine List.subset_cons_of_subset _ (List.subset_append_of_subset_left _ ?_)
      exact initIh false _ site member
    · refine List.subset_cons_of_subset _ (List.subset_append_of_subset_right _ ?_)
      exact bodyIh false _ site member
  | doWhile span body condition ih =>
    intro site member
    refine List.subset_cons_of_subset _ (List.subset_append_of_subset_left _ ?_)
    exact ih false scope site member
  | defaultLabel _ _ ih | labelled _ _ _ ih =>
    exact fun site member => List.subset_cons_of_subset _ (ih false scope site member)
  | whileLoop _ _ _ ih | bareLoop _ _ _ _ ih | switch _ _ _ ih | caseLabel _ _ _ ih =>
    intro site member
    refine List.subset_cons_of_subset _ (List.subset_append_of_subset_right _ ?_)
    exact ih false scope site member
  | _ => cases inBlock <;> exact fun _ member => absurd member List.not_mem_nil

end Standing

/-! ## Rules -/

abbrev StatementRule (σ α : Type) := σ → Statement → List α → List Statement → Prop

/-- What standing statements become under a rule, statement by statement. -/
inductive Becomes {σ α : Type} (rule : StatementRule σ α) :
    List (σ × Statement) → List α → List (σ × Statement) → Prop where
  | nil : Becomes rule [] [] []
  | cons {scope : σ} {entry : Statement} {made : List α} {results : List Statement}
      {others : List (σ × Statement)} {more : List α} {behind : List (σ × Statement)}
      (first : rule scope entry made results) (rest : Becomes rule others more behind) :
      Becomes rule ((scope, entry) :: others) (made ++ more) (results.map (Prod.mk scope) ++ behind)

namespace Becomes

variable {σ α : Type} {rule : StatementRule σ α} {first second firstResult secondResult :
  List (σ × Statement)} {made more : List α}

theorem append (former : Becomes rule first made firstResult)
    (latter : Becomes rule second more secondResult) :
    Becomes rule (first ++ second) (made ++ more) (firstResult ++ secondResult) := by
  induction former with
  | nil => exact latter
  | cons holds _ ih =>
    rw [List.cons_append, List.append_assoc, List.append_assoc]
    exact .cons holds ih

theorem split {result : List (σ × Statement)} (becomes : Becomes rule (first ++ second) made result) :
    ∃ firstMade secondMade firstResult secondResult, made = firstMade ++ secondMade ∧
      result = firstResult ++ secondResult ∧ Becomes rule first firstMade firstResult ∧
        Becomes rule second secondMade secondResult := by
  induction first generalizing made result with
  | nil => exact ⟨[], made, [], result, rfl, rfl, .nil, becomes⟩
  | cons entry rest ih =>
    cases becomes with
    | cons holds others =>
      obtain ⟨restMade, secondMade, restResult, secondResult, rfl, rfl, former, latter⟩ :=
        ih others
      exact ⟨_, secondMade, _, secondResult, (List.append_assoc ..).symm,
        (List.append_assoc ..).symm, .cons holds former, latter⟩

end Becomes

def StatementRule.andThen {σ α : Type} (rule next : StatementRule σ α) : StatementRule σ α :=
  fun scope entry made results => ∃ own middle more, rule scope entry own middle ∧
    Becomes next (middle.map (Prod.mk scope)) more (results.map (Prod.mk scope)) ∧
      made = own ++ more

end InlineMacro
