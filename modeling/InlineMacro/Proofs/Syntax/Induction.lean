import InlineMacro.Syntax.Tree

/-!
# Induction over statements

A statement has statements inside it in three ways: as a part, as a part that may be missing, and
as an element of a block. The principle below has a case for each form of a missing part, and for a
block it supposes the property of every element.
-/

set_option autoImplicit false

namespace InlineMacro

@[elab_as_elim, induction_eliminator]
theorem Statement.induct {motive : Statement → Prop}
    (expression : ∀ span value, motive (.expression span value))
    (block : ∀ span statements, (∀ statement ∈ statements, motive statement) →
      motive (.block span statements))
    (declaration : ∀ span declarations, motive (.declaration span declarations))
    (typeDefinition : ∀ span type, motive (.typeDefinition span type))
    (ifThen : ∀ span condition thenBranch, motive thenBranch →
      motive (.ifElse span condition thenBranch none))
    (ifElse : ∀ span condition thenBranch elseBranch, motive thenBranch → motive elseBranch →
      motive (.ifElse span condition thenBranch (some elseBranch)))
    (whileLoop : ∀ span condition body, motive body → motive (.whileLoop span condition body))
    (bareLoop : ∀ span condition update body, motive body → motive (.forLoop span none condition update body))
    (forLoop : ∀ span init condition update body, motive init → motive body →
      motive (.forLoop span (some init) condition update body))
    (doWhile : ∀ span body condition, motive body → motive (.doWhile span body condition))
    (switch : ∀ span subject body, motive body → motive (.switch span subject body))
    (caseLabel : ∀ span value statement, motive statement → motive (.caseLabel span value statement))
    (defaultLabel : ∀ span statement, motive statement → motive (.defaultLabel span statement))
    (breakStatement : ∀ span, motive (.breakStatement span))
    (continueStatement : ∀ span, motive (.continueStatement span))
    (returnStatement : ∀ span value, motive (.returnStatement span value))
    (gotoStatement : ∀ span label, motive (.gotoStatement span label))
    (labelled : ∀ span label statement, motive statement → motive (.labelled span label statement))
    (empty : ∀ span, motive (.empty span)) (statement : Statement) : motive statement := by
  refine Statement.rec (motive_1 := motive)
    (motive_2 := fun statements => ∀ statement ∈ statements, motive statement)
    (motive_3 := fun part => ∀ statement, part = some statement → motive statement)
    expression block declaration typeDefinition ?_ whileLoop ?_ doWhile switch caseLabel
    defaultLabel breakStatement continueStatement returnStatement gotoStatement labelled empty
    ?_ ?_ ?_ ?_ statement
  · intro span condition thenBranch elseBranch thenHolds elseHolds
    cases elseBranch with
    | none => exact ifThen span condition thenBranch thenHolds
    | some elseBranch =>
      exact ifElse span condition thenBranch elseBranch thenHolds (elseHolds elseBranch rfl)
  · intro span init condition update body initHolds bodyHolds
    cases init with
    | none => exact bareLoop span condition update body bodyHolds
    | some init => exact forLoop span init condition update body (initHolds init rfl) bodyHolds
  · simp
  · intro head tail headHolds tailHolds statement member
    rcases List.mem_cons.mp member with rfl | member
    · exact headHolds
    · exact tailHolds statement member
  · intro statement impossible
    cases impossible
  · intro part partHolds statement same
    cases same
    exact partHolds

end InlineMacro
