import InlineMacro.Proofs.Pass.ReturnCalls
import InlineMacro.Proofs.Semantics.Execution

/-!
# The execution of bodies without returns

A body in which every return stores its value and jumps to the end does what the body with returns
does: it has the same effects up to the store, ends in the normal way where the other returns, and
leaves the returned value in the object that the pointer points to.
-/

set_option autoImplicit false

namespace InlineMacro

variable {σ ε ν : Type}

def Completion.leavesBody : Completion ν → Bool
  | returned _ | jumped _ => true
  | _ => false

section Leaving

variable {outcome : Completion ν} (leaves : outcome.leavesBody)

include leaves

theorem Completion.followedBy_of_leaves (rest : Execution σ ε (Completion ν)) :
    outcome.followedBy rest = pure outcome := by
  cases outcome <;> first | rfl | cases leaves

theorem Completion.iterate_of_leaves (again : Execution σ ε (Completion ν)) :
    outcome.iterate again = pure outcome := by
  cases outcome <;> first | rfl | cases leaves

theorem Completion.ofSwitch_of_leaves : outcome.ofSwitch = outcome := by
  cases outcome <;> first | rfl | cases leaves

end Leaving

/-- What is done instead of a return, and the outcome that the statement then has. -/
structure Departure (σ ε ν : Type) where
  write : Option ν → Progress σ ε → Progress σ ε
  outcome : Completion ν

namespace Departure

variable (departure : Departure σ ε ν) (meaning : Meaning σ ε ν)

def finish : Completion ν → Execution σ ε (Completion ν)
  | .returned value => do
    modify (departure.write value)
    pure departure.outcome
  | outcome => pure outcome

def Avoids (holds : Entry ν → Bool) : Prop :=
  ∀ label, departure.outcome = .jumped label → holds (.atLabel label) = false

/-- The departure does what is done by the statements in the place of a return, and the object that
it writes is not one of the blocks that are left. -/
structure IsSound (replacement : ReturnReplacement) : Prop where
  leaves : departure.outcome.leavesBody
  apart : ∀ value (progress : Progress σ ε),
    { departure.write value progress with
      memory := meaning.left (departure.write value progress).memory } =
      departure.write value { progress with memory := meaning.left progress.memory }
  hidden : ∀ span value plain, replacement span value = some plain → ∀ entry,
    Statement.listHolds meaning entry plain = false
  replaces : ∀ bound span value,
    meaning.sequence (meaning.execute bound) .start
        ((replacement span value).getD [.returnStatement span value]) =
      meaning.execute bound .start (.returnStatement span value) >>= departure.finish

open Meaning

variable {departure meaning} {replacement : ReturnReplacement}

/-! ## Behind a departure -/

theorem finish_followedBy (leaves : departure.outcome.leavesBody)
    {rest rest' : Execution σ ε (Completion ν)} (same : rest' = rest >>= departure.finish)
    (outcome : Completion ν) : departure.finish outcome >>= Completion.followedBy rest' =
      outcome.followedBy rest >>= departure.finish := by
  cases outcome with
  | normal =>
    simp only [finish, pure_bind, Completion.followedBy, same]
  | returned value =>
    simp only [finish, bind_assoc, pure_bind, Completion.followedBy_of_leaves leaves]
    rw [Completion.followedBy_of_leaves rfl, pure_bind]
    rfl
  | _ => simp [finish, Completion.followedBy]

theorem finish_iterate (leaves : departure.outcome.leavesBody)
    {again again' : Execution σ ε (Completion ν)} (same : again' = again >>= departure.finish)
    (outcome : Completion ν) : departure.finish outcome >>= Completion.iterate again' =
      outcome.iterate again >>= departure.finish := by
  cases outcome with
  | normal | continued =>
    simp only [finish, pure_bind, Completion.iterate, same]
  | returned value =>
    simp only [finish, bind_assoc, pure_bind, Completion.iterate_of_leaves leaves]
    rw [Completion.iterate_of_leaves rfl, pure_bind]
    rfl
  | _ => simp [finish, Completion.iterate]

theorem finish_ofSwitch (leaves : departure.outcome.leavesBody) (run : Execution σ ε (Completion ν)) :
    Completion.ofSwitch <$> (run >>= departure.finish) =
      (Completion.ofSwitch <$> run) >>= departure.finish := by
  rw [map_bind, bind_map_left]
  congr 1
  funext outcome
  cases outcome with
  | returned value =>
    rw [Completion.ofSwitch_of_leaves rfl]
    simp only [finish, map_bind, map_pure, Completion.ofSwitch_of_leaves leaves]
  | _ => simp [finish, Completion.ofSwitch]

theorem IsSound.inBlock (sound : departure.IsSound meaning replacement)
    (inside : Execution σ ε (Completion ν)) :
    meaning.inBlock (inside >>= departure.finish) = meaning.inBlock inside >>= departure.finish := by
  simp only [Meaning.inBlock, bind_assoc]
  congr 1
  funext _
  congr 1
  funext outcome
  cases outcome with
  | returned value =>
    funext progress
    exact congrArg (fun after => some (departure.outcome, after)) (sound.apart value progress)
  | _ => simp [finish]

/-! ## Labels behind a replacement -/

section Labels

variable (sound : departure.IsSound meaning replacement)

include sound

theorem IsSound.listHolds_replaced (entry : Entry ν) {statement : Statement}
    (same : (statement.replaceReturns replacement).holds meaning entry = statement.holds meaning entry) :
    Statement.listHolds meaning entry
        ((statement.replacedReturn? replacement).getD [statement.replaceReturns replacement]) =
      statement.holds meaning entry := by
  cases replaced : statement.replacedReturn? replacement with
  | none => simp [Statement.listHolds, same]
  | some plain =>
    cases statement with
    | returnStatement span value => exact sound.hidden span value plain replaced entry
    | _ => cases replaced

theorem IsSound.listHolds_replaceReturnsList (entry : Entry ν) {statements : List Statement}
    (each : ∀ statement ∈ statements, (statement.replaceReturns replacement).holds meaning entry =
      statement.holds meaning entry) :
    Statement.listHolds meaning entry (Statement.replaceReturnsList replacement statements) =
      Statement.listHolds meaning entry statements := by
  induction statements with
  | nil => rfl
  | cons statement statements ih =>
    rw [Statement.replaceReturnsList, listHolds_append, Statement.listHolds,
      sound.listHolds_replaced entry (each statement List.mem_cons_self),
      ih fun other member => each other (List.mem_cons_of_mem _ member)]

theorem IsSound.holds_replaceReturns (entry : Entry ν) (statement : Statement) :
    (statement.replaceReturns replacement).holds meaning entry = statement.holds meaning entry := by
  induction statement with
  | block span statements ih => exact sound.listHolds_replaceReturnsList entry ih
  | ifThen _ _ _ ih | whileLoop _ _ _ ih | bareLoop _ _ _ _ ih | doWhile _ _ _ ih => exact ih
  | ifElse _ _ _ _ thenIh elseIh =>
    simp only [Statement.replaceReturns, Statement.holds, thenIh, elseIh]
  | forLoop _ _ _ _ _ _ bodyIh => simp only [Statement.replaceReturns, Statement.holds, bodyIh]
  | switch _ _ _ ih | caseLabel _ _ _ ih | defaultLabel _ _ ih | labelled _ _ _ ih =>
    simp only [Statement.replaceReturns, Statement.holds, ih]
  | _ => rfl

theorem IsSound.chosen?_replaceReturns (value : ν) (body : Statement) :
    meaning.chosen? value (body.replaceReturns replacement) = meaning.chosen? value body := by
  simp only [Meaning.chosen?, sound.holds_replaceReturns]

theorem IsSound.reentry?_replaceReturnsList (statements : List Statement) (outcome : Completion ν) :
    outcome.reentry? meaning (Statement.replaceReturnsList replacement statements) =
      outcome.reentry? meaning statements := by
  cases outcome with
  | jumped label =>
    rw [Completion.reentry?, sound.listHolds_replaceReturnsList _ fun statement _ =>
      sound.holds_replaceReturns _ statement]
    rfl
  | _ => rfl

end Labels

/-! ## Statements of a block -/

/-- The execution of what is inside a statement behind a replacement. -/
structure Replaces (departure : Departure σ ε ν) (replacement : ReturnReplacement)
    (meaning : Meaning σ ε ν) (run run' : Execution.Inner σ ε ν) (statement : Statement) : Prop where
  stays : statement.isReturn = false → ∀ entry,
    run' entry (statement.replaceReturns replacement) = run entry statement >>= departure.finish
  returns : ∀ span value, statement = .returnStatement span value →
    meaning.sequence run' .start ((replacement span value).getD [statement]) =
      run .start statement >>= departure.finish

section Sequence

variable {run run' : Execution.Inner σ ε ν}

theorem Replaces.sequence {statement : Statement}
    (replaces : Replaces departure replacement meaning run run' statement) : meaning.sequence run' .start
        ((statement.replacedReturn? replacement).getD [statement.replaceReturns replacement]) =
      run .start statement >>= departure.finish := by
  cases isReturn : statement.isReturn with
  | true =>
    cases statement with
    | returnStatement span value => exact replaces.returns span value rfl
    | _ => cases isReturn
  | false =>
    have stays : statement.replacedReturn? replacement = none := by
      cases statement <;> first | rfl | cases isReturn
    rw [stays, ← replaces.stays isReturn]
    exact (congrArg _ Completion.followedBy_normal).trans (bind_pure _)

variable (sound : departure.IsSound meaning replacement)

include sound

theorem IsSound.sequence_replaceReturnsList {statements : List Statement}
    (each : ∀ statement ∈ statements, Replaces departure replacement meaning run run' statement)
    (entry : Entry ν) : meaning.sequence run' entry (Statement.replaceReturnsList replacement statements) =
      meaning.sequence run entry statements >>= departure.finish := by
  induction statements generalizing entry with
  | nil => exact (pure_bind _ _).symm
  | cons statement statements ih =>
    have first := each statement List.mem_cons_self
    have rest := ih fun other member => each other (List.mem_cons_of_mem _ member)
    have behind : ∀ inside : Execution σ ε (Completion ν),
        (inside >>= departure.finish) >>= Completion.followedBy
            (meaning.sequence run' .start (Statement.replaceReturnsList replacement statements)) =
          (inside >>= Completion.followedBy (meaning.sequence run .start statements)) >>=
            departure.finish := by
      intro inside
      rw [bind_assoc, bind_assoc]
      exact congrArg _ (funext (finish_followedBy sound.leaves (rest .start)))
    rw [Statement.replaceReturnsList, Meaning.sequence]
    cases starts : entry.isStart with
    | true =>
      cases entry with
      | start => rw [sequence_append, first.sequence]; exact behind _
      | _ => cases starts
    | false =>
      have labels := sound.listHolds_replaced entry (sound.holds_replaceReturns entry statement)
      cases found : statement.holds meaning entry with
      | false =>
        rw [sequence_of_hidden starts (labels.trans found), Statement.admits, starts, found]
        exact rest entry
      | true =>
        have notReturn : statement.isReturn = false := by
          cases statement <;> first | rfl | cases found
        have stays : statement.replacedReturn? replacement = none := by
          cases statement <;> first | rfl | cases found
        have admitted : (statement.replaceReturns replacement).admits meaning entry = true := by
          rw [Statement.admits, sound.holds_replaceReturns, found, Bool.or_true]
        have admits : statement.admits meaning entry = true := by
          rw [Statement.admits, found, Bool.or_true]
        rw [stays, if_pos admits]
        change meaning.sequence run' entry (statement.replaceReturns replacement :: _) = _
        rw [Meaning.sequence, if_pos admitted, first.stays notReturn]
        exact behind _

theorem IsSound.settle_replaceReturnsList {statements : List Statement}
    (each : ∀ statement ∈ statements, Replaces departure replacement meaning run run' statement)
    (avoids : departure.Avoids fun entry => Statement.listHolds meaning entry statements)
    (bound : Nat) (outcome : Completion ν) : departure.finish outcome >>=
        meaning.settle run' (Statement.replaceReturnsList replacement statements) bound =
      meaning.settle run statements bound outcome >>= departure.finish := by
  have final : departure.outcome.reentry? meaning
      (Statement.replaceReturnsList replacement statements) = none := by
    rw [sound.reentry?_replaceReturnsList]
    cases same : departure.outcome with
    | jumped label => rw [Completion.reentry?, if_neg (by simp [avoids label same])]
    | _ => rfl
  induction bound generalizing outcome with
  | zero | succ bound ih =>
    cases entered : outcome.reentry? meaning statements with
    | none =>
      rw [settle_of_none entered, pure_bind]
      rw [← sound.reentry?_replaceReturnsList] at entered
      cases outcome with
      | returned value => simp only [finish, bind_assoc, pure_bind, settle_of_none final]
      | _ => exact (pure_bind _ _).trans (settle_of_none entered _)
    | some entry =>
      have entered' := (sound.reentry?_replaceReturnsList statements outcome).trans entered
      have nothing : departure.finish outcome = pure outcome := by
        cases outcome <;> first | rfl | cases entered
      rw [nothing, pure_bind, Meaning.settle, Meaning.settle, entered, entered']
      first
      | rfl
      | simp only [sound.sequence_replaceReturnsList each, bind_assoc, ih]

end Sequence

/-! ## Statements -/

variable (sound : departure.IsSound meaning replacement)

include sound

theorem IsSound.runLoop_replaceReturns {run run' : Execution.Inner σ ε ν} {body : Statement}
    (inside : ∀ entry, run' entry (body.replaceReturns replacement) = run entry body >>= departure.finish)
    {again again' : Execution σ ε (Completion ν)} (same : again' = again >>= departure.finish)
    (entry : Entry ν) (condition : Option Expr) :
    meaning.runLoop run' entry condition (body.replaceReturns replacement) again' =
      meaning.runLoop run entry condition body again >>= departure.finish := by
  have behind : ∀ entry, run' entry (body.replaceReturns replacement) >>= Completion.iterate again' =
      (run entry body >>= Completion.iterate again) >>= departure.finish := by
    intro entry
    rw [inside, bind_assoc, bind_assoc]
    exact congrArg _ (funext (finish_iterate sound.leaves same))
  unfold Meaning.runLoop
  cases entry.isStart with
  | false => exact behind entry
  | true =>
    simp only [if_true, bind_assoc]
    congr 1
    funext holds
    cases holds with
    | false => exact (pure_bind _ _).symm
    | true => exact behind .start

theorem IsSound.execute_replaceReturns (bound : Nat) {statement : Statement}
    (braced : statement.Braced) (notReturn : statement.isReturn = false)
    (avoids : departure.Avoids fun entry => statement.holds meaning entry) (entry : Entry ν) :
    meaning.execute bound entry (statement.replaceReturns replacement) =
      meaning.execute bound entry statement >>= departure.finish := by
  induction bound generalizing statement entry with
  | zero => rfl
  | succ bound ih =>
    change meaning.form (meaning.execute bound) bound entry _ =
      meaning.form (meaning.execute bound) bound entry _ >>= _
    have ofBlock {body : Statement} (isBlock : body.isBlock) (braced : body.Braced)
        (avoids : departure.Avoids fun entry => body.holds meaning entry) (entry : Entry ν) :=
      ih braced (Statement.not_isReturn_of_isBlock isBlock) avoids entry
    cases braced with
    | block span statements each =>
      have replaces : ∀ statement ∈ statements, Replaces departure replacement meaning
          (meaning.execute bound) (meaning.execute bound) statement := by
        intro statement member
        refine ⟨fun notReturn entry => ih (each statement member) notReturn ?_ entry, ?_⟩
        · exact fun label same => listHolds_eq_false (avoids label same) statement member
        · rintro span value rfl
          exact sound.replaces bound span value
      change meaning.runBlock _ _ _ _ = meaning.runBlock _ _ _ _ >>= _
      rw [Meaning.runBlock, Meaning.runBlock, sound.sequence_replaceReturnsList replaces,
        bind_assoc, funext (sound.settle_replaceReturnsList replaces avoids bound), ← bind_assoc,
        sound.inBlock]
    | ifElse span condition thenBranch elseBranch thenBlock elseBlock thenBraced elseBraced =>
      have first := ofBlock thenBlock thenBraced fun label same =>
        (Bool.or_eq_false_iff.mp (avoids label same)).1
      have second := ofBlock elseBlock elseBraced fun label same =>
        (Bool.or_eq_false_iff.mp (avoids label same)).2
      change meaning.runBranches _ entry condition (thenBranch.replaceReturns replacement)
        (some (elseBranch.replaceReturns replacement)) = meaning.runBranches _ _ _ _ _ >>= _
      unfold Meaning.runBranches
      simp only [Meaning.runOption, first, second, sound.holds_replaceReturns]
      cases entry.isStart with
      | false => cases thenBranch.holds meaning entry <;> rfl
      | true =>
        simp only [if_true, bind_assoc]
        congr 1
        funext holds
        cases holds <;> rfl
    | whileLoop span condition body bodyBlock bodyBraced =>
      exact sound.runLoop_replaceReturns (ofBlock bodyBlock bodyBraced avoids)
        (ih (.whileLoop span condition body bodyBlock bodyBraced) rfl avoids .start) entry
        (some condition)
    | bareLoop span condition update body bodyBlock bodyBraced =>
      refine sound.runLoop_replaceReturns (ofBlock bodyBlock bodyBraced avoids) ?_ entry condition
      rw [bind_assoc, ← ih (.bareLoop span condition update body bodyBlock bodyBraced) rfl avoids]
      rfl
    | forLoop span init condition update body head bodyBlock bodyBraced =>
      have headIh := ih head.braced (by cases head <;> rfl) fun label _ => by cases head <;> rfl
      have loopIh := ih (.bareLoop span condition update body bodyBlock bodyBraced) rfl avoids
      change meaning.inBlock _ = meaning.inBlock _ >>= _
      rw [← sound.inBlock]
      congr 1
      cases entry.isStart with
      | false => exact loopIh entry
      | true =>
        simp only [if_true, headIh, bind_assoc]
        exact congrArg _ (funext (finish_followedBy sound.leaves (loopIh .start)))
    | doWhile span body condition bodyBlock bodyBraced =>
      have loopIh := ih (.doWhile span body condition bodyBlock bodyBraced) rfl avoids .start
      change meaning.execute bound entry _ >>= Completion.iterate _ =
        (meaning.execute bound entry body >>= Completion.iterate _) >>= _
      rw [ofBlock bodyBlock bodyBraced avoids, bind_assoc, bind_assoc]
      refine congrArg _ (funext (finish_iterate sound.leaves ?_))
      rw [bind_assoc]
      congr 1
      funext holds
      cases holds with
      | false => exact (pure_bind _ _).symm
      | true => exact loopIh
    | switch span subject body bodyBlock bodyBraced =>
      have bodyIh := ofBlock bodyBlock bodyBraced avoids
      change meaning.runSwitch _ entry subject (body.replaceReturns replacement) =
        meaning.runSwitch _ entry subject body >>= _
      unfold Meaning.runSwitch
      simp only [sound.chosen?_replaceReturns, bodyIh, finish_ofSwitch sound.leaves]
      cases entry.isStart with
      | false => rfl
      | true =>
        simp only [if_true, bind_assoc]
        congr 1
        funext value
        cases meaning.chosen? value body with
        | none => exact (pure_bind _ _).symm
        | some label => rfl
    | caseLabel span value statement marked braced =>
      exact ih braced (Statement.not_isReturn_of_isMarked marked) avoids _
    | defaultLabel span statement marked braced =>
      exact ih braced (Statement.not_isReturn_of_isMarked marked) avoids _
    | labelled span label statement marked braced =>
      exact ih braced (Statement.not_isReturn_of_isMarked marked)
        (fun other same => (Bool.or_eq_false_iff.mp (avoids other same)).2) _
    | returnStatement => cases notReturn
    | expression | declaration | typeDefinition =>
      simp only [Statement.replaceReturns, Meaning.form, bind_assoc, pure_bind, finish]
    | breakStatement | continueStatement | gotoStatement | empty => exact (pure_bind _ _).symm

theorem IsSound.replaces_of_braced (bound : Nat) {statement : Statement} (braced : statement.Braced)
    (avoids : departure.Avoids fun entry => statement.holds meaning entry) :
    Replaces departure replacement meaning (meaning.execute bound) (meaning.execute bound) statement := by
  refine ⟨fun notReturn entry => sound.execute_replaceReturns bound braced notReturn avoids entry, ?_⟩
  rintro span value rfl
  exact sound.replaces bound span value

end Departure

end InlineMacro
