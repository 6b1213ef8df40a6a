import InlineMacro.Proofs.Run.Preparation
import InlineMacro.Proofs.Semantics.Confinement
import InlineMacro.Proofs.Semantics.Returns

/-!
# Functions without returns

The passes over the returns of a function leave what it does as it is. The body then ends at its
end, behind one label if the function returned anywhere, with the returned value in the object for
it and with no other effect than the store.
-/

set_option autoImplicit false

namespace InlineMacro

variable {σ ε ν : Type}

/-! ## The object for the returned value -/

/-- An object that a body reaches through one pointer only: to assign a value to what the pointer
points to is to evaluate that value, to store it, and nothing else, and the object outlives the
blocks of the body. -/
structure Meaning.Cell (meaning : Meaning σ ε ν) (pointer : String) where
  store : ν → σ → σ
  written : ν → List ε
  content : σ → Option ν
  assigned : ∀ value memory,
    meaning.value (.assignment (.dereference (.ofName pointer)) value) memory =
      (meaning.value value memory).map fun (result, memory, effects) =>
        (meaning.converted result, store (meaning.converted result) memory,
          effects ++ written (meaning.converted result))
  content_store : ∀ value memory, content (store value memory) = some value
  left_store : ∀ value memory, meaning.left (store value memory) = store value (meaning.left memory)

def Meaning.Target (meaning : Meaning σ ε ν) : Option String → Type
  | none => Unit
  | some pointer => meaning.Cell pointer

variable {meaning : Meaning σ ε ν}

def Meaning.Cell.write {pointer : String} (cell : meaning.Cell pointer) (value : ν)
    (progress : Progress σ ε) : Progress σ ε :=
  ⟨cell.store value progress.memory, progress.effects ++ cell.written value⟩

theorem Meaning.Cell.evaluate_assignment {pointer : String} (cell : meaning.Cell pointer) (value : Expr) :
    meaning.evaluate (.assignment (.dereference (.ofName pointer)) value) =
      meaning.evaluate value >>= fun result =>
        modify (cell.write (meaning.converted result)) >>= fun _ =>
          pure (meaning.converted result) := by
  funext progress
  change Option.map _ (meaning.value _ progress.memory) = Option.bind (Option.map _ _) _
  rw [cell.assigned]
  cases meaning.value value progress.memory with
  | none => rfl
  | some result =>
    exact congrArg (fun effects => some (meaning.converted result.1,
      (⟨cell.store (meaning.converted result.1) result.2.1, effects⟩ : Progress σ ε)))
      (List.append_assoc _ _ _).symm

def Meaning.Target.write : {pointer : Option String} → meaning.Target pointer → Option ν →
    Progress σ ε → Progress σ ε
  | some _, cell, some value, progress => Meaning.Cell.write cell value progress
  | _, _, _, progress => progress

namespace Departure

def storing {pointer : String} (cell : meaning.Cell pointer) : Departure σ ε ν :=
  ⟨Meaning.Target.write (show meaning.Target (some pointer) from cell), .returned none⟩

def jumping (exit : String) : Departure σ ε ν := ⟨fun _ => id, .jumped exit⟩

theorem storing_isSound {pointer : String} (cell : meaning.Cell pointer) :
    (storing cell).IsSound meaning (storeThrough pointer) := by
  refine ⟨rfl, ?_, ?_, ?_⟩
  · intro value progress
    cases value with
    | none => rfl
    | some value =>
      exact congrArg (Progress.mk · (progress.effects ++ cell.written value))
        (cell.left_store value progress.memory)
  · intro span value plain replaced entry
    cases value <;> cases replaced
    rfl
  · intro bound span value
    cases bound with
    | zero => cases value <;> rfl
    | succ bound =>
      cases value with
      | none => rfl
      | some value =>
        simp only [storeThrough, Option.getD_some, Meaning.sequence, Statement.admits, Entry.isStart,
          Bool.true_or, if_true, Meaning.execute, Meaning.form, cell.evaluate_assignment,
          Meaning.leave, bind_assoc, pure_bind, finish, Completion.followedBy]
        rfl

theorem jumping_isSound (meaning : Meaning σ ε ν) (exit : String) :
    (jumping exit).IsSound meaning (jumpTo exit) := by
  refine ⟨rfl, fun _ _ => rfl, ?_, ?_⟩
  · intro span value plain replaced entry
    cases value <;> cases replaced <;> rfl
  · intro bound span value
    cases bound with
    | zero => cases value <;> rfl
    | succ bound =>
      cases value with
      | none => rfl
      | some value =>
        simp only [jumpTo, Option.getD_some, Meaning.sequence, Statement.admits, Entry.isStart,
          Bool.true_or, if_true, Meaning.execute, Meaning.form, Meaning.leave, bind_assoc,
          pure_bind, finish, Completion.followedBy]
        rfl

end Departure

/-! ## The label at the end -/

def Completion.arrived (exit : String) : Completion ν → Completion ν
  | .jumped label => if label = exit then .normal else .jumped label
  | outcome => outcome

theorem Execution.Yields.bind_congr {α β : Type} {holds : α → Prop} {run : Execution σ ε α}
    {next next' : α → Execution σ ε β} (known : run.Yields holds)
    (same : ∀ value, holds value → next value = next' value) : run >>= next = run >>= next' := by
  funext progress
  change (run progress).bind _ = (run progress).bind _
  cases ends : run progress with
  | none => rfl
  | some result => exact congrFun (same result.1 (known progress result.1 result.2 ends)) result.2

theorem Meaning.execute_block_labelled {exit : String} {statements : List Statement} {bound : Nat}
    (unlabelled : Statement.listHolds meaning (.atLabel exit) statements = false)
    (jumpsThere : Execution.Yields (meaning.sequence (meaning.execute (bound + 2)) .start statements)
      fun outcome => ∀ label, outcome = .jumped label → label = exit) (span : Span) :
    meaning.execute (bound + 3) .start
        (.block span (statements ++ [.labelled .synthetic exit (.empty .synthetic)])) =
      Completion.arrived exit <$> meaning.execute (bound + 3) .start (.block span statements) := by
  have last : ∀ entry : Entry ν, meaning.execute (bound + 2) entry
      (.labelled .synthetic exit (.empty .synthetic)) = pure .normal := fun _ => rfl
  have through : meaning.sequence (meaning.execute (bound + 2)) .start
      (statements ++ [.labelled .synthetic exit (.empty .synthetic)]) =
      meaning.sequence (meaning.execute (bound + 2)) .start statements := by
    rw [Meaning.sequence_append]
    exact (congrArg _ Completion.followedBy_normal).trans (bind_pure _)
  have found : meaning.sequence (meaning.execute (bound + 2)) (.atLabel exit)
      (statements ++ [.labelled .synthetic exit (.empty .synthetic)]) = pure .normal := by
    rw [Meaning.sequence_of_hidden rfl unlabelled]
    simp [Meaning.sequence, Statement.admits, Statement.holds, Entry.isLabel, last, Completion.followedBy]
  change meaning.inBlock _ = Completion.arrived exit <$> meaning.inBlock _
  rw [through]
  unfold Meaning.inBlock
  simp only [bind_assoc, map_bind, map_pure]
  congr 1
  funext _
  refine jumpsThere.bind_congr fun outcome known => ?_
  cases outcome with
  | jumped label =>
    obtain rfl := known label rfl
    have held : Statement.listHolds meaning (.atLabel label)
        (statements ++ [.labelled .synthetic label (.empty .synthetic)]) = true := by
      simp [Meaning.listHolds_append, Statement.listHolds, Statement.holds, Entry.isLabel]
    simp [Meaning.settle, Completion.reentry?, held, unlabelled, found, Completion.arrived]
  | _ => simp [Meaning.settle, Completion.reentry?, Completion.arrived]

/-! ## Functions -/

def Completion.ended : Completion ν → Completion ν
  | .returned _ => .normal
  | outcome => outcome

def Meaning.Target.receive {pointer : Option String} (target : meaning.Target pointer) :
    Completion ν → Progress σ ε → Progress σ ε
  | .returned value, progress => target.write value progress
  | _, progress => progress

namespace Function

section Linear

variable {function : Function} (plain : ∀ part ∈ function.body.parts, part.isJump = false)

include plain

theorem avoids_of_plain (departure : Departure σ ε ν) (meaning : Meaning σ ε ν) :
    departure.Avoids fun entry => function.body.holds meaning entry :=
  fun label _ =>
    Statement.holds_of_isConfined (Statement.isConfined_of_parts plain) meaning label

theorem body_confined (meaning : Meaning σ ε ν) (bound : Nat) :
    Execution.Yields (meaning.execute bound .start function.body) (Completion.Confined true true) :=
  Meaning.execute_confined bound (Statement.isConfined_of_parts plain) .start

variable (form : function.IsBraced)

include form

theorem execute_jumpingTo (exit : String) (bound : Nat) :
    meaning.execute (bound + 3) .start (function.jumpingTo exit).body =
      Completion.ended <$> meaning.execute (bound + 3) .start function.body := by
  have sound := Departure.jumping_isSound meaning exit
  have avoids := avoids_of_plain plain (Departure.jumping exit) meaning
  have whole := sound.execute_replaceReturns (bound + 3) form.braced
    (Statement.not_isReturn_of_isBlock form.isBlock) avoids .start
  have known := body_confined plain meaning (bound + 3)
  have confined := Statement.isConfined_of_parts plain
  have braced := form.braced
  have isBlock := form.isBlock
  unfold jumpingTo
  generalize function.body = body at *
  cases body with
  | block span statements =>
    cases braced with
    | block _ _ each =>
      rw [Statement.isConfined, Statement.listIsConfined_iff] at confined
      have replaces : ∀ statement ∈ statements, Departure.Replaces (Departure.jumping exit)
          (jumpTo exit) meaning (meaning.execute (bound + 2)) (meaning.execute (bound + 2))
          statement := fun statement member =>
        sound.replaces_of_braced _ (each statement member) fun label same =>
          Meaning.listHolds_eq_false (avoids label same) statement member
      have unlabelled : Statement.listHolds meaning (.atLabel exit)
          (Statement.replaceReturnsList (jumpTo exit) statements) = false := by
        rw [sound.listHolds_replaceReturnsList _ fun statement _ =>
          sound.holds_replaceReturns _ statement]
        exact avoids exit rfl
      have jumpsThere : Execution.Yields (meaning.sequence (meaning.execute (bound + 2)) .start
          (Statement.replaceReturnsList (jumpTo exit) statements))
          fun outcome => ∀ label, outcome = .jumped label → label = exit := by
        rw [sound.sequence_replaceReturnsList replaces]
        refine (Meaning.yields_sequence (fun statement member entry =>
          Meaning.execute_confined _ (confined statement member) entry) .start).bind ?_
        intro outcome inside
        cases outcome with
        | returned value =>
          refine .after fun _ => .pure ?_
          rintro label same
          cases same
          rfl
        | jumped => cases inside
        | _ =>
          refine .pure ?_
          intro label same
          cases same
      rw [Statement.replaceReturns] at whole ⊢
      refine (Meaning.execute_block_labelled unlabelled jumpsThere span).trans ?_
      rw [whole, map_bind, map_eq_pure_bind Completion.ended]
      refine known.bind_congr fun outcome inside => ?_
      cases outcome with
      | returned value => simp [Departure.finish, Departure.jumping, Completion.arrived, Completion.ended]
      | jumped => cases inside
      | _ => rfl
  | _ => cases isBlock

theorem execute_of_hasReturn (none : function.body.hasReturn = false) (bound : Nat) :
    Completion.ended <$> meaning.execute bound .start function.body =
      meaning.execute bound .start function.body := by
  have whole := (Departure.jumping_isSound meaning "").execute_replaceReturns bound form.braced
    (Statement.not_isReturn_of_isBlock form.isBlock)
    (avoids_of_plain plain (Departure.jumping "") meaning) .start
  rw [Statement.replaceReturns_of_hasReturn none] at whole
  -- A return would have become a jump, and the body would not be the same.
  have never : Execution.Yields (meaning.execute bound .start function.body)
      fun outcome => ∀ value, outcome ≠ .returned value := by
    rintro before outcome after runs value rfl
    have same := congrFun whole before
    change _ = (meaning.execute bound .start function.body before).bind _ at same
    rw [runs] at same
    cases same
  rw [map_eq_pure_bind]
  refine (never.bind_congr fun outcome known => ?_).trans (bind_pure _)
  cases outcome with
  | returned value => exact absurd rfl (known value)
  | _ => rfl

end Linear

theorem execute_throughPointer {function : Function} (form : function.IsBraced) {pointer : String}
    (cell : meaning.Cell pointer) (bound : Nat) :
    meaning.execute bound .start (function.throughPointer pointer).body =
      meaning.execute bound .start function.body >>= (Departure.storing cell).finish :=
  (Departure.storing_isSound cell).execute_replaceReturns bound form.braced
    (Statement.not_isReturn_of_isBlock form.isBlock) (fun _ impossible => nomatch impossible) .start

end Function

/-- The passes over returns: a function with a value stores it through a pointer, and then every
return becomes a jump. The names of the pointer and of the label are returned. -/
def Pass.eliminateReturns : Pass (Option String × Option String) := do
  let pointer ← if (← get).function.result.isVoid then pure none
    else some <$> Pass.returnThroughPointer
  let exit ← Pass.linearize
  pure (pointer, exit)

/-- A function behind the passes over returns. Its body has no return; it has a label if it had a
return, at its end and nowhere else. It does what the function did: with the same effects until the
returned value is stored, which is the last one, and it ends at its end where the other returned. -/
structure Function.LeavesAtEnd (function result : Function) (pointer exit : Option String) :
    Prop where
  pointer_isSome : pointer.isSome = !function.result.isVoid
  hasReturn : result.body.hasReturn = false
  exit_isSome : exit.isSome = function.body.hasReturn
  labels : result.body.labels = exit.toList
  last : ∀ label, exit = some label →
    result.statements.getLast? = some (.labelled .synthetic label (.empty .synthetic))
  executes : ∀ {σ ε ν : Type} (meaning : Meaning σ ε ν) (target : meaning.Target pointer)
    (before after : Progress σ ε) (outcome : Completion ν),
    meaning.Executes result.body before outcome after ↔
      ∃ outcome' after', meaning.Executes function.body before outcome' after' ∧
        outcome = outcome'.ended ∧ after = target.receive outcome' after'
  neverReturns : ∀ {σ ε ν : Type} (meaning : Meaning σ ε ν) (before after : Progress σ ε)
    (value : Option ν), ¬ meaning.Executes result.body before (.returned value) after
  atEnd : ∀ {σ ε ν : Type} (meaning : Meaning σ ε ν) (_ : meaning.Target pointer)
    (before after : Progress σ ε) (outcome : Completion ν), function.body.isConfined false false →
    meaning.Executes result.body before outcome after → outcome = .normal
  value : ∀ {σ ε ν : Type} (meaning : Meaning σ ε ν) (name : String) (cell : meaning.Cell name)
    (before after : Progress σ ε) (value : ν), pointer = some name →
    meaning.Executes function.body before (.returned (some value)) after →
      ∃ after', meaning.Executes result.body before .normal after' ∧
        cell.content after'.memory = some value ∧
        after'.effects = after.effects ++ cell.written value

namespace Function

/-- What the last pass over returns makes of a function. -/
structure LinearizedTo (function result : Function) (exit : Option String) : Prop where
  hasReturn : result.body.hasReturn = false
  exit_isSome : exit.isSome = function.body.hasReturn
  labels : result.body.labels = exit.toList
  last : ∀ label, exit = some label →
    result.statements.getLast? = some (.labelled .synthetic label (.empty .synthetic))
  execute : ∀ {σ ε ν : Type} (meaning : Meaning σ ε ν) (bound : Nat),
    meaning.execute (bound + 3) .start result.body =
      Completion.ended <$> meaning.execute (bound + 3) .start function.body

theorem labels_of_plain {function : Function}
    (plain : ∀ part ∈ function.body.parts, part.isJump = false) : function.body.labels = [] := by
  rw [Statement.labels, List.filterMap_eq_nil_iff]
  intro part member
  have notJump := plain part member
  cases part <;> first | rfl | cases notJump

theorem jumpingTo_linearizedTo {function : Function} (form : function.IsBraced)
    (plain : ∀ part ∈ function.body.parts, part.isJump = false)
    (returns : function.body.hasReturn = true) (exit : String) :
    LinearizedTo function (function.jumpingTo exit) (some exit) := by
  have noReturn := form.braced.hasReturn_jumpTo exit (Statement.not_isReturn_of_isBlock form.isBlock)
  have labels := (Statement.labels_jumpTo exit function.body).trans (labels_of_plain plain)
  have shape : ∃ span statements, function.body = .block span statements := by
    have isBlock := form.isBlock
    cases same : function.body <;> rw [same] at isBlock <;> first | exact ⟨_, _, rfl⟩ | cases isBlock
  obtain ⟨span, statements, same⟩ := shape
  have body : (function.jumpingTo exit).body =
      .block span (Statement.replaceReturnsList (jumpTo exit) statements ++
        [.labelled .synthetic exit (.empty .synthetic)]) := by
    rw [jumpingTo, same]
    rfl
  rw [same, Statement.replaceReturns] at noReturn labels
  refine ⟨?_, returns.symm, ?_, ?_, fun meaning bound => execute_jumpingTo plain form exit bound⟩
  · rw [Statement.hasReturn_eq, Statement.parts_block, List.any_cons] at noReturn
    rw [body, Statement.hasReturn_eq, Statement.parts_block, List.any_cons,
      Statement.listParts_append, List.any_append]
    rw [Bool.or_eq_false_iff] at noReturn
    rw [noReturn.2]
    rfl
  · rw [Statement.labels, Statement.parts_block, List.filterMap_cons] at labels
    rw [body, Statement.labels, Statement.parts_block, List.filterMap_cons,
      Statement.listParts_append, List.filterMap_append]
    change List.filterMap Statement.label? (Statement.listParts _) = [] at labels
    change List.filterMap Statement.label? (Statement.listParts _) ++ _ = _
    rw [labels]
    rfl
  · rintro label same
    cases same
    change (function.jumpingTo exit).body.statements.getLast? = _
    rw [body]
    exact List.getLast?_concat

theorem linearizedTo_self {function : Function} (form : function.IsBraced)
    (plain : ∀ part ∈ function.body.parts, part.isJump = false)
    (noReturn : function.body.hasReturn = false) : LinearizedTo function function none :=
  ⟨noReturn, noReturn.symm, labels_of_plain plain, (fun _ impossible => nomatch impossible),
    fun _ bound => (execute_of_hasReturn plain form noReturn (bound + 3)).symm⟩

theorem linearize_linearizedTo {function : Function} (form : function.IsBraced)
    (plain : ∀ part ∈ function.body.parts, part.isJump = false) (registry : Registry) :
    ∃ exit result after, Pass.linearize.run ⟨function, registry⟩ = .ok exit ⟨result, after⟩ ∧
      LinearizedTo function result exit := by
  rw [Pass.linearize_run function registry form.braced form.isBlock]
  cases returns : function.body.hasReturn with
  | true => exact ⟨_, _, _, rfl, jumpingTo_linearizedTo form plain returns _⟩
  | false => exact ⟨_, _, _, rfl, linearizedTo_self form plain returns⟩

theorem executes_iff {body result : Statement} {pointer : Option String} (target : meaning.Target pointer)
    (same : ∀ bound, meaning.execute (bound + 3) .start result =
      meaning.execute (bound + 3) .start body >>= fun outcome progress =>
        some (outcome.ended, target.receive outcome progress))
    (before after : Progress σ ε) (outcome : Completion ν) :
    meaning.Executes result before outcome after ↔
      ∃ outcome' after', meaning.Executes body before outcome' after' ∧
        outcome = outcome'.ended ∧ after = target.receive outcome' after' := by
  constructor
  · rintro ⟨bound, runs⟩
    have longer := meaning.execute_extends (Nat.le_add_right bound 3) _ _ _ _ runs
    rw [same] at longer
    obtain ⟨⟨outcome', after'⟩, former, latter⟩ := Option.bind_eq_some_iff.mp longer
    cases latter
    exact ⟨outcome', after', ⟨_, former⟩, rfl, rfl⟩
  · rintro ⟨outcome', after', ⟨bound, runs⟩, rfl, rfl⟩
    have longer := meaning.execute_extends (Nat.le_add_right bound 3) _ _ _ _ runs
    refine ⟨bound + 3, ?_⟩
    rw [same]
    exact Option.bind_eq_some_iff.mpr ⟨_, longer, rfl⟩

theorem LinearizedTo.leavesAtEnd {function stored result : Function} {pointer exit : Option String}
    (linearized : LinearizedTo stored result exit) (pointer_isSome : pointer.isSome = !function.result.isVoid)
    (sameReturns : stored.body.hasReturn = function.body.hasReturn)
    (execute : ∀ {σ ε ν : Type} (meaning : Meaning σ ε ν) (target : meaning.Target pointer)
      (bound : Nat), Completion.ended <$> meaning.execute bound .start stored.body =
        meaning.execute bound .start function.body >>= fun outcome progress =>
          some (outcome.ended, target.receive outcome progress)) :
    function.LeavesAtEnd result pointer exit := by
  have executes : ∀ {σ ε ν : Type} (meaning : Meaning σ ε ν) (target : meaning.Target pointer)
      (before after : Progress σ ε) (outcome : Completion ν),
      meaning.Executes result.body before outcome after ↔
        ∃ outcome' after', meaning.Executes function.body before outcome' after' ∧
          outcome = outcome'.ended ∧ after = target.receive outcome' after' :=
    fun meaning target => executes_iff target fun bound =>
      (linearized.execute meaning bound).trans (execute meaning target (bound + 3))
  refine ⟨pointer_isSome, linearized.hasReturn, linearized.exit_isSome.trans sameReturns,
    linearized.labels, linearized.last, executes, ?_, ?_, ?_⟩
  · rintro σ ε ν meaning before after value ⟨bound, runs⟩
    have longer := meaning.execute_extends (Nat.le_add_right bound 3) _ _ _ _ runs
    rw [linearized.execute] at longer
    obtain ⟨⟨outcome, progress⟩, -, latter⟩ := Option.bind_eq_some_iff.mp longer
    cases outcome <;> cases latter
  · intro σ ε ν meaning target before after outcome confined runs
    obtain ⟨outcome', after', ⟨bound, ends⟩, rfl, -⟩ :=
      (executes meaning target before after outcome).mp runs
    have known := Meaning.execute_confined bound confined .start before outcome' after' ends
    cases outcome' <;> first | rfl | cases known
  · rintro σ ε ν meaning name cell before after value rfl runs
    refine ⟨cell.write value after, ?_, cell.content_store value after.memory, rfl⟩
    exact (executes meaning cell before _ _).mpr ⟨_, after, runs, rfl, rfl⟩

/-- The passes over returns do not change what a function without jumps does. -/
theorem eliminateReturns_leavesAtEnd {function : Function} (form : function.IsBraced)
    (plain : ∀ part ∈ function.body.parts, part.isJump = false) (registry : Registry) :
    ∃ pointer exit result after,
      Pass.eliminateReturns.run ⟨function, registry⟩ = .ok (pointer, exit) ⟨result, after⟩ ∧
        function.LeavesAtEnd result pointer exit := by
  cases isVoid : function.result.isVoid with
  | true =>
    obtain ⟨exit, result, after, runs, linearized⟩ := linearize_linearizedTo form plain registry
    refine ⟨none, exit, result, after, ?_, ?_⟩
    · simp [-bind_pure_comp, Pass.eliminateReturns, isVoid, runs]
    · refine linearized.leavesAtEnd (by simp [isVoid]) rfl fun meaning target bound => ?_
      rw [map_eq_pure_bind]
      congr 1
      funext outcome progress
      cases outcome <;> rfl
  | false =>
    have pointed := Pass.returnThroughPointer_run function registry form.braced form.isBlock
    have stillPlain : ∀ part ∈ (function.throughPointer (registry.fresh "retval").1).body.parts,
        part.isJump = false := Statement.plain_storeThrough _ plain
    obtain ⟨exit, result, after, runs, linearized⟩ :=
      linearize_linearizedTo (form.throughPointer _) stillPlain (registry.fresh "retval").2
    refine ⟨some (registry.fresh "retval").1, exit, result, after, ?_, ?_⟩
    · simp [-bind_pure_comp, Pass.eliminateReturns, isVoid, pointed, runs]
    · refine linearized.leavesAtEnd (by simp [isVoid]) (Statement.hasReturn_storeThrough _ _)
        fun meaning cell bound => ?_
      rw [execute_throughPointer form cell, map_bind]
      congr 1
      funext outcome progress
      cases outcome <;> rfl

def firstTurn : Function where
  name := "first"
  result := .basic .int
  parameters := [⟨some "x", .basic .int, .synthetic⟩]
  isVariadic := false
  body := .ofList [
    .whileLoop .synthetic (.ofName "x") (.ofList [.returnStatement .synthetic (some (.ofName "x"))]),
    .returnStatement .synthetic (some (.intLiteral .synthetic "0"))]
  storage := none
  isInline := true
  span := .synthetic

/-- A meaning of names, which are worth their length, and of assignments to one object. Reading and
storing are effects. -/
def tracedValue : Expr → Option Nat → Option (Nat × Option Nat × List String)
  | .identifier _ name, memory => some (name.length, memory, [name])
  | .binary _ _ _ value, memory => (tracedValue value memory).map fun (result, _, effects) =>
    (result, some result, effects ++ ["store"])
  | _, memory => some (0, memory, [])

def traced : Meaning (Option Nat) String Nat where
  value := tracedValue
  declared := fun _ memory => some (memory, [])
  defined := fun _ memory => some (memory, [])
  entered := id
  left := id
  isTrue := fun value => value != 0
  isCase := fun _ _ => false
  converted := id

def tracedCell (pointer : String) : traced.Cell pointer where
  store := fun value _ => some value
  written := fun _ => ["store"]
  content := id
  assigned := fun _ _ => rfl
  content_store := fun _ _ => rfl
  left_store := fun _ _ => rfl

theorem eliminateReturns_firstTurn :
    firstTurn.IsBraced ∧ (∀ part ∈ firstTurn.body.parts, part.isJump = false) ∧
    ∃ pointer exit result after,
      Pass.eliminateReturns.run ⟨firstTurn, {}⟩ = .ok (pointer, exit) ⟨result, after⟩ ∧
        firstTurn.LeavesAtEnd result pointer exit ∧
        ∃ last : Progress (Option Nat) String,
          traced.Executes result.body ⟨none, []⟩ .normal last ∧ last.memory = some 1 ∧
            last.effects = ["x", "x", "store"] := by
  have form : firstTurn.IsBraced := by
    refine ⟨.block _ _ fun statement member => ?_, rfl⟩
    rcases List.mem_cons.mp member with rfl | member
    · exact .whileLoop _ _ _ rfl (.block _ _ (by simp; exact .returnStatement _ _))
    · rw [List.mem_singleton.mp member]
      exact .returnStatement _ _
  have plain : ∀ part ∈ firstTurn.body.parts, part.isJump = false := by
    simp [firstTurn, Statement.ofList, Statement.listParts, Statement.isJump]
  obtain ⟨pointer, exit, result, after, runs, leaves⟩ :=
    eliminateReturns_leavesAtEnd form plain {}
  refine ⟨form, plain, pointer, exit, result, after, runs, leaves, ?_⟩
  cases pointer with
  | none => exact absurd leaves.pointer_isSome (by decide)
  | some name =>
    obtain ⟨last, ends, content, effects⟩ := leaves.value traced name (tracedCell name) ⟨none, []⟩
      ⟨none, ["x", "x"]⟩ 1 rfl ⟨5, rfl⟩
    exact ⟨last, ends, content, effects⟩

end Function

end InlineMacro
