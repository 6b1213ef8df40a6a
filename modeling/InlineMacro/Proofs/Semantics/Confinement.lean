import InlineMacro.Proofs.Semantics.Execution
import InlineMacro.Proofs.Syntax.Parts

/-!
# Where a statement can end

A statement without `goto` never jumps. If moreover each `break` and `continue` stands in a loop or
a `switch`, it ends in the normal way or returns.
-/

set_option autoImplicit false

namespace InlineMacro

variable {σ ε ν : Type}

namespace Statement

mutual

/-- Whether a statement has no `goto` and no label, and leaves by `break` and `continue` only what
is around it: a loop, or at least something that `break` leaves. -/
def isConfined (inLoop breakable : Bool) : Statement → Bool
  | .block _ statements => listIsConfined inLoop breakable statements
  | .ifElse _ _ thenBranch none => thenBranch.isConfined inLoop breakable
  | .ifElse _ _ thenBranch (some elseBranch) =>
    thenBranch.isConfined inLoop breakable && elseBranch.isConfined inLoop breakable
  | .whileLoop _ _ body => body.isConfined true true
  | .forLoop _ none _ _ body => body.isConfined true true
  | .forLoop _ (some init) _ _ body =>
    init.isConfined inLoop breakable && body.isConfined true true
  | .doWhile _ body _ => body.isConfined true true
  | .switch _ _ body => body.isConfined inLoop true
  | .caseLabel _ _ statement => statement.isConfined inLoop breakable
  | .defaultLabel _ statement => statement.isConfined inLoop breakable
  | .breakStatement _ => breakable
  | .continueStatement _ => inLoop
  | .gotoStatement _ _ | .labelled _ _ _ => false
  | _ => true

def listIsConfined (inLoop breakable : Bool) : List Statement → Bool
  | [] => true
  | statement :: statements =>
    statement.isConfined inLoop breakable && listIsConfined inLoop breakable statements

end

theorem listIsConfined_iff {inLoop breakable : Bool} {statements : List Statement} :
    listIsConfined inLoop breakable statements ↔
      ∀ statement ∈ statements, statement.isConfined inLoop breakable := by
  induction statements with
  | nil => simp [listIsConfined]
  | cons first rest ih => simp [listIsConfined, ih]

theorem isConfined_of_parts {statement : Statement}
    (plain : ∀ part ∈ statement.parts, part.isJump = false) : statement.isConfined true true := by
  induction statement with
  | block span statements ih =>
    rw [isConfined, listIsConfined_iff]
    intro statement member
    refine ih statement member fun part inside => plain part ?_
    rw [parts_block]
    exact List.mem_cons_of_mem _ (List.mem_flatMap.mpr ⟨statement, member, inside⟩)
  | gotoStatement | labelled => exact absurd (plain _ (self_mem_parts _)) (by simp [isJump])
  | _ => simp_all [isConfined]

theorem holds_of_isConfined {inLoop breakable : Bool} {statement : Statement}
    (confined : statement.isConfined inLoop breakable) (meaning : Meaning σ ε ν) (label : String) :
    statement.holds meaning (.atLabel label) = false := by
  induction statement generalizing inLoop breakable with
  | block span statements ih =>
    rw [isConfined, listIsConfined_iff] at confined
    rw [holds]
    induction statements with
    | nil => rfl
    | cons first rest others =>
      rw [listHolds, ih first List.mem_cons_self (confined first List.mem_cons_self),
        others (fun other member => ih other (List.mem_cons_of_mem _ member))
          fun other member => confined other (List.mem_cons_of_mem _ member)]
      rfl
  | ifElse span condition thenBranch elseBranch thenIh elseIh =>
    obtain ⟨former, latter⟩ := Bool.and_eq_true_iff.mp confined
    rw [holds, thenIh former, elseIh latter]
    rfl
  | forLoop span init condition update body initIh bodyIh =>
    exact bodyIh (Bool.and_eq_true_iff.mp confined).2
  | ifThen _ _ _ ih | whileLoop _ _ _ ih | bareLoop _ _ _ _ ih | doWhile _ _ _ ih
  | switch _ _ _ ih | caseLabel _ _ _ ih | defaultLabel _ _ ih => exact ih confined
  | labelled => cases confined
  | _ => rfl

end Statement

/-! ## Executions -/

def Completion.Confined (inLoop breakable : Bool) : Completion ν → Prop
  | .normal | .returned _ => True
  | .broken => breakable
  | .continued => inLoop
  | .jumped _ => False

def Execution.Yields {α : Type} (run : Execution σ ε α) (holds : α → Prop) : Prop :=
  ∀ before value after, run before = some (value, after) → holds value

namespace Execution.Yields

variable {α β : Type} {holds : α → Prop} {ends : β → Prop}

theorem pure {value : α} (known : holds value) : Yields (Pure.pure value : Execution σ ε α) holds := by
  intro before other after same
  cases same
  exact known

theorem failure : Yields (failure : Execution σ ε α) holds := fun _ _ _ impossible => nomatch impossible

theorem bind {run : Execution σ ε α} {next : α → Execution σ ε β} (first : run.Yields holds)
    (second : ∀ value, holds value → (next value).Yields ends) : Yields (run >>= next) ends := by
  intro before value after runs
  obtain ⟨⟨between, progress⟩, former, latter⟩ := Option.bind_eq_some_iff.mp runs
  exact second between (first before between progress former) progress value after latter

theorem after {run : Execution σ ε α} {next : α → Execution σ ε β}
    (second : ∀ value, (next value).Yields ends) : Yields (run >>= next) ends :=
  bind (fun _ _ _ _ => trivial) fun value (_ : True) => second value

theorem map {run : Execution σ ε α} {change : α → β} (first : run.Yields holds)
    (second : ∀ value, holds value → ends (change value)) : Yields (change <$> run) ends :=
  first.bind fun value known => .pure (second value known)

theorem ite {run run' : Execution σ ε α} {condition : Prop} [Decidable condition]
    (first : condition → run.Yields holds) (second : ¬ condition → run'.Yields holds) :
    Yields (if condition then run else run') holds := by
  split
  · next known => exact first known
  · next unknown => exact second unknown

end Execution.Yields

namespace Meaning

open Execution

variable {meaning : Meaning σ ε ν} {run : Execution.Inner σ ε ν} {inLoop breakable : Bool}

theorem yields_iterate {again : Execution σ ε (Completion ν)}
    (later : again.Yields (Completion.Confined inLoop breakable)) {outcome : Completion ν}
    (confined : outcome.Confined true true) :
    Yields (outcome.iterate again) (Completion.Confined inLoop breakable) := by
  cases outcome with
  | normal | continued => exact later
  | broken | returned => exact .pure trivial
  | jumped => cases confined

theorem yields_inBlock {inside : Execution σ ε (Completion ν)} {holds : Completion ν → Prop}
    (known : inside.Yields holds) : Yields (meaning.inBlock inside) holds :=
  .after fun _ => known.bind fun _ same => .after fun _ => .pure same

theorem yields_sequence {statements : List Statement} (each : ∀ statement ∈ statements, ∀ entry,
      Yields (run entry statement) (Completion.Confined inLoop breakable)) (entry : Entry ν) :
    Yields (meaning.sequence run entry statements) (Completion.Confined inLoop breakable) := by
  induction statements generalizing entry with
  | nil => exact .pure trivial
  | cons statement statements ih =>
    have rest := ih fun other member => each other (List.mem_cons_of_mem _ member)
    refine .ite (fun _ => (each statement List.mem_cons_self entry).bind fun outcome confined => ?_)
      fun _ => rest entry
    cases outcome with
    | normal => exact rest .start
    | _ => exact .pure confined

theorem settle_of_confined {statements : List Statement} {outcome : Completion ν}
    (confined : outcome.Confined inLoop breakable) (bound : Nat) :
    meaning.settle run statements bound outcome = pure outcome := by
  refine settle_of_none ?_ bound
  cases outcome with
  | jumped => cases confined
  | _ => rfl

theorem yields_runLoop {body : Statement}
    (inside : ∀ entry, Yields (run entry body) (Completion.Confined true true))
    {again : Execution σ ε (Completion ν)} (later : again.Yields (Completion.Confined inLoop breakable))
    (entry : Entry ν) (condition : Option Expr) :
    Yields (meaning.runLoop run entry condition body again) (Completion.Confined inLoop breakable) := by
  have behind : ∀ entry, Yields (run entry body >>= Completion.iterate again)
      (Completion.Confined inLoop breakable) :=
    fun entry => (inside entry).bind fun _ confined => yields_iterate later confined
  refine .ite (fun _ => .after fun holds => .ite (fun _ => behind .start) fun _ => .pure trivial) ?_
  exact fun _ => behind entry

theorem execute_confined (bound : Nat) {statement : Statement}
    (confined : statement.isConfined inLoop breakable) (entry : Entry ν) :
    Yields (meaning.execute bound entry statement) (Completion.Confined inLoop breakable) := by
  induction bound generalizing statement entry inLoop breakable with
  | zero => exact .failure
  | succ bound ih =>
    change Yields (meaning.form (meaning.execute bound) bound entry statement) _
    cases statement with
    | expression | declaration | typeDefinition => exact .after fun _ => .pure trivial
    | block span statements =>
      rw [Statement.isConfined, Statement.listIsConfined_iff] at confined
      refine yields_inBlock ((yields_sequence (fun statement member =>
        ih (confined statement member)) entry).bind fun outcome known => ?_)
      rw [settle_of_confined known]
      exact .pure known
    | ifElse span condition thenBranch elseBranch =>
      cases elseBranch with
      | none =>
        have inside : thenBranch.isConfined inLoop breakable := confined
        exact .ite (fun _ => .after fun _ => .ite (fun _ => ih inside .start) fun _ =>
          .pure trivial) fun _ => .ite (fun _ => ih inside entry) fun _ => .pure trivial
      | some elseBranch =>
        obtain ⟨former, latter⟩ := Bool.and_eq_true_iff.mp confined
        exact .ite (fun _ => .after fun _ => .ite (fun _ => ih former .start) fun _ =>
          ih latter .start) fun _ => .ite (fun _ => ih former entry) fun _ => ih latter entry
    | whileLoop span condition body =>
      have inside : body.isConfined true true := confined
      exact yields_runLoop (fun entry => ih inside entry) (ih confined .start) entry _
    | forLoop span init condition update body =>
      cases init with
      | none =>
        have inside : body.isConfined true true := confined
        exact yields_runLoop (fun entry => ih inside entry) (.after fun _ => ih confined .start) entry
          condition
      | some init =>
        obtain ⟨former, latter⟩ := Bool.and_eq_true_iff.mp confined
        have loop : ∀ entry, Yields (meaning.execute bound entry
            (.forLoop span none condition update body)) (Completion.Confined inLoop breakable) :=
          ih latter
        refine yields_inBlock (.ite (fun _ => (ih former .start).bind fun outcome known => ?_)
          fun _ => loop entry)
        cases outcome with
        | normal => exact loop .start
        | _ => exact .pure known
    | doWhile span body condition =>
      have inside : body.isConfined true true := confined
      refine (ih inside entry).bind fun outcome known => yields_iterate ?_ known
      exact .after fun _ => .ite (fun _ => ih confined .start) fun _ => .pure trivial
    | switch span subject body =>
      have ends : ∀ entry, Yields (Completion.ofSwitch <$> meaning.execute bound entry body)
          (Completion.Confined inLoop breakable) := by
        intro entry
        have inside : body.isConfined inLoop true := confined
        refine (ih inside entry).map fun outcome known => ?_
        cases outcome with
        | broken => trivial
        | _ => exact known
      refine .ite (fun _ => .after fun value => ?_) fun _ => ends entry
      cases meaning.chosen? value body with
      | none => exact .pure trivial
      | some label => exact ends label
    | caseLabel span value statement | defaultLabel span statement =>
      have inside : statement.isConfined inLoop breakable := confined
      exact ih inside _
    | labelled | gotoStatement => cases confined
    | breakStatement | continueStatement => exact .pure confined
    | returnStatement span value =>
      cases value with
      | none => exact .pure trivial
      | some value => exact .after fun _ => .pure trivial
    | empty => exact .pure trivial

end Meaning

end InlineMacro
