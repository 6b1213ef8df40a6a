import InlineMacro.Syntax.Tree
import Mathlib.Order.Basic

/-!
# The execution of statements

What a statement does when it is executed, for any meaning of expressions and declarations that is
deterministic. A statement ends in the normal way or leaves the statements around it by `break`,
`continue`, `return` or `goto`. An execution also starts where a `switch` or a `goto` says: what
stands before the label is passed over, wherever in the statement the label is.

Loops and jumps may go on for ever, so an execution has a bound for the depth of its steps. What it
comes to does not depend on the bound.
-/

set_option autoImplicit false

namespace InlineMacro

/-- How a statement ends. -/
inductive Completion (ν : Type) where
  | normal
  | broken
  | continued
  | returned (value : Option ν)
  | jumped (label : String)

/-- Where in a statement its execution starts. -/
inductive Entry (ν : Type) where
  | start
  | atCase (value : ν)
  | atDefault
  | atLabel (label : String)

/-- The memory, and the effects so far. -/
structure Progress (σ ε : Type) where
  memory : σ
  effects : List ε

abbrev Execution (σ ε : Type) := StateT (Progress σ ε) Option

/-- A meaning of what statements are made of. Expressions have values and effects, and so have
declarations, but for the value; blocks are entered and left. -/
structure Meaning (σ ε ν : Type) where
  value : Expr → σ → Option (ν × σ × List ε)
  declared : Declaration → σ → Option (σ × List ε)
  defined : CType → σ → Option (σ × List ε)
  entered : σ → σ
  left : σ → σ
  isTrue : ν → Bool
  isCase : Expr → ν → Bool
  /-- A value as a caller gets it. -/
  converted : ν → ν

variable {σ ε ν : Type}

namespace Entry

def isStart : Entry ν → Bool
  | start => true
  | _ => false

def entersSwitch : Entry ν → Bool
  | atLabel _ => true
  | _ => false

def isCase (meaning : Meaning σ ε ν) (value : Expr) : Entry ν → Bool
  | atCase subject => meaning.isCase value subject
  | _ => false

def isDefault : Entry ν → Bool
  | atDefault => true
  | _ => false

def isLabel (label : String) : Entry ν → Bool
  | atLabel sought => sought == label
  | _ => false

def passing (found : Bool) (entry : Entry ν) : Entry ν :=
  if found then start else entry

end Entry

namespace Statement

mutual

def holds (meaning : Meaning σ ε ν) (entry : Entry ν) : Statement → Bool
  | .block _ statements => listHolds meaning entry statements
  | .ifElse _ _ thenBranch none => thenBranch.holds meaning entry
  | .ifElse _ _ thenBranch (some elseBranch) =>
    thenBranch.holds meaning entry || elseBranch.holds meaning entry
  | .whileLoop _ _ body => body.holds meaning entry
  | .forLoop _ _ _ _ body => body.holds meaning entry
  | .doWhile _ body _ => body.holds meaning entry
  | .switch _ _ body => entry.entersSwitch && body.holds meaning entry
  | .caseLabel _ value statement => entry.isCase meaning value || statement.holds meaning entry
  | .defaultLabel _ statement => entry.isDefault || statement.holds meaning entry
  | .labelled _ label statement => entry.isLabel label || statement.holds meaning entry
  | _ => false

def listHolds (meaning : Meaning σ ε ν) (entry : Entry ν) : List Statement → Bool
  | [] => false
  | statement :: statements => statement.holds meaning entry || listHolds meaning entry statements

end

def admits (meaning : Meaning σ ε ν) (entry : Entry ν) (statement : Statement) : Bool :=
  entry.isStart || statement.holds meaning entry

end Statement

namespace Meaning

variable (meaning : Meaning σ ε ν)

/-! ## Steps without statements -/

def evaluate (value : Expr) : Execution σ ε ν := fun progress =>
  (meaning.value value progress.memory).map fun (result, memory, effects) =>
    (result, ⟨memory, progress.effects ++ effects⟩)

def test : Option Expr → Execution σ ε Bool
  | none => pure true
  | some condition => meaning.isTrue <$> meaning.evaluate condition

def update : Option Expr → Execution σ ε Unit
  | none => pure ()
  | some value => do
    let _ ← meaning.evaluate value
    pure ()

def perform (step : σ → Option (σ × List ε)) : Execution σ ε Unit := fun progress =>
  (step progress.memory).map fun (memory, effects) => ((), ⟨memory, progress.effects ++ effects⟩)

def declareAll : List Declaration → Execution σ ε Unit
  | [] => pure ()
  | declaration :: declarations => do
    perform (meaning.declared declaration)
    declareAll declarations

def touch (change : σ → σ) : Execution σ ε Unit :=
  modify fun progress => { progress with memory := change progress.memory }

def inBlock (inside : Execution σ ε (Completion ν)) : Execution σ ε (Completion ν) := do
  touch meaning.entered
  let outcome ← inside
  touch meaning.left
  pure outcome

end Meaning

namespace Completion

def followedBy (rest : Execution σ ε (Completion ν)) : Completion ν → Execution σ ε (Completion ν)
  | normal => rest
  | outcome => pure outcome

def iterate (again : Execution σ ε (Completion ν)) : Completion ν → Execution σ ε (Completion ν)
  | normal | continued => again
  | broken => pure normal
  | outcome => pure outcome

def ofSwitch : Completion ν → Completion ν
  | broken => normal
  | outcome => outcome

def reentry? (meaning : Meaning σ ε ν) (statements : List Statement) :
    Completion ν → Option (Entry ν)
  | jumped label =>
    if Statement.listHolds meaning (.atLabel label) statements then some (.atLabel label) else none
  | _ => none

end Completion

/-! ## Statements -/

abbrev Execution.Inner (σ ε ν : Type) := Entry ν → Statement → Execution σ ε (Completion ν)

namespace Meaning

variable (meaning : Meaning σ ε ν) (run : Execution.Inner σ ε ν)

def sequence : Entry ν → List Statement → Execution σ ε (Completion ν)
  | _, [] => pure .normal
  | entry, statement :: statements =>
    if statement.admits meaning entry then
      run entry statement >>= Completion.followedBy (sequence .start statements)
    else sequence entry statements

def settle (statements : List Statement) : Nat → Completion ν → Execution σ ε (Completion ν)
  | 0, outcome =>
    match outcome.reentry? meaning statements with
    | none => pure outcome
    | some _ => failure
  | bound + 1, outcome =>
    match outcome.reentry? meaning statements with
    | none => pure outcome
    | some entry => meaning.sequence run entry statements >>= settle statements bound

def runBlock (bound : Nat) (entry : Entry ν) (statements : List Statement) :
    Execution σ ε (Completion ν) :=
  meaning.inBlock (meaning.sequence run entry statements >>= meaning.settle run statements bound)

def runOption (entry : Entry ν) : Option Statement → Execution σ ε (Completion ν)
  | none => pure .normal
  | some statement => run entry statement

def runBranches (entry : Entry ν) (condition : Expr) (thenBranch : Statement)
    (elseBranch : Option Statement) : Execution σ ε (Completion ν) :=
  if entry.isStart then do
    let holds ← meaning.test condition
    if holds then run .start thenBranch else runOption run .start elseBranch
  else if thenBranch.holds meaning entry then run entry thenBranch
  else runOption run entry elseBranch

def runLoop (entry : Entry ν) (condition : Option Expr) (body : Statement)
    (again : Execution σ ε (Completion ν)) : Execution σ ε (Completion ν) :=
  if entry.isStart then do
    let holds ← meaning.test condition
    if holds then run .start body >>= Completion.iterate again else pure .normal
  else run entry body >>= Completion.iterate again

def chosen? (value : ν) (body : Statement) : Option (Entry ν) :=
  if body.holds meaning (.atCase value) then some (.atCase value)
  else if body.holds meaning .atDefault then some .atDefault
  else none

def runSwitch (entry : Entry ν) (subject : Expr) (body : Statement) : Execution σ ε (Completion ν) :=
  if entry.isStart then do
    let value ← meaning.evaluate subject
    match meaning.chosen? value body with
    | none => pure .normal
    | some label => Completion.ofSwitch <$> run label body
  else Completion.ofSwitch <$> run entry body

def leave : Option Expr → Execution σ ε (Completion ν)
  | none => pure (.returned none)
  | some value => do
    let result ← meaning.evaluate value
    pure (.returned (some (meaning.converted result)))

def form (bound : Nat) (entry : Entry ν) : Statement → Execution σ ε (Completion ν)
  | .expression _ value => do
    let _ ← meaning.evaluate value
    pure .normal
  | .block _ statements => meaning.runBlock run bound entry statements
  | .declaration _ declarations => do
    meaning.declareAll declarations
    pure .normal
  | .typeDefinition _ type => do
    perform (meaning.defined type)
    pure .normal
  | .ifElse _ condition thenBranch elseBranch =>
    meaning.runBranches run entry condition thenBranch elseBranch
  | .whileLoop span condition body =>
    meaning.runLoop run entry condition body (run .start (.whileLoop span condition body))
  | .forLoop span none condition update body =>
    meaning.runLoop run entry condition body do
      meaning.update update
      run .start (.forLoop span none condition update body)
  | .forLoop span (some init) condition update body =>
    -- The names of the head are in scope to the end of the loop only.
    meaning.inBlock do
      if entry.isStart then
        run .start init >>=
          Completion.followedBy (run .start (.forLoop span none condition update body))
      else run entry (.forLoop span none condition update body)
  | .doWhile span body condition => do
    let outcome ← run entry body
    outcome.iterate do
      let holds ← meaning.test condition
      if holds then run .start (.doWhile span body condition) else pure .normal
  | .switch _ subject body => meaning.runSwitch run entry subject body
  | .caseLabel _ value statement => run (entry.passing (entry.isCase meaning value)) statement
  | .defaultLabel _ statement => run (entry.passing entry.isDefault) statement
  | .breakStatement _ => pure .broken
  | .continueStatement _ => pure .continued
  | .returnStatement _ value => meaning.leave value
  | .gotoStatement _ label => pure (.jumped label)
  | .labelled _ label statement => run (entry.passing (entry.isLabel label)) statement
  | .empty _ => pure .normal

def execute : Nat → Entry ν → Statement → Execution σ ε (Completion ν)
  | 0, _, _ => failure
  | bound + 1, entry, statement => meaning.form (execute bound) bound entry statement

def Executes (statement : Statement) (before : Progress σ ε) (outcome : Completion ν)
    (after : Progress σ ε) : Prop :=
  ∃ bound, meaning.execute bound .start statement before = some (outcome, after)

end Meaning

/-! ## Blocks -/

theorem Completion.followedBy_normal :
    Completion.followedBy (pure .normal) = (pure : Completion ν → Execution σ ε (Completion ν)) := by
  funext outcome
  cases outcome <;> rfl

namespace Meaning

variable {meaning : Meaning σ ε ν} {run : Execution.Inner σ ε ν}

theorem listHolds_append (entry : Entry ν) (first second : List Statement) :
    Statement.listHolds meaning entry (first ++ second) =
      (Statement.listHolds meaning entry first || Statement.listHolds meaning entry second) := by
  induction first with
  | nil => rfl
  | cons statement first ih =>
    rw [List.cons_append, Statement.listHolds, ih, Statement.listHolds, Bool.or_assoc]

theorem listHolds_eq_false {entry : Entry ν} {statements : List Statement}
    (nothing : Statement.listHolds meaning entry statements = false) :
    ∀ statement ∈ statements, statement.holds meaning entry = false := by
  induction statements with
  | nil => exact fun _ member => absurd member List.not_mem_nil
  | cons first rest ih =>
    obtain ⟨former, latter⟩ := Bool.or_eq_false_iff.mp nothing
    intro statement member
    rcases List.mem_cons.mp member with rfl | member
    · exact former
    · exact ih latter statement member

theorem sequence_append (first second : List Statement) : meaning.sequence run .start (first ++ second) =
      meaning.sequence run .start first >>= Completion.followedBy (meaning.sequence run .start second) := by
  induction first with
  | nil => exact (pure_bind _ _).symm
  | cons statement first ih =>
    change run .start statement >>= Completion.followedBy (meaning.sequence run .start (first ++ second)) =
      (run .start statement >>= Completion.followedBy (meaning.sequence run .start first)) >>= _
    rw [bind_assoc, ih]
    congr 1
    funext outcome
    cases outcome <;> simp [Completion.followedBy]

theorem sequence_of_hidden {entry : Entry ν} (notStart : entry.isStart = false) {hidden : List Statement}
    (nothing : Statement.listHolds meaning entry hidden = false) (statements : List Statement) :
    meaning.sequence run entry (hidden ++ statements) = meaning.sequence run entry statements := by
  induction hidden with
  | nil => rfl
  | cons statement hidden ih =>
    rw [Statement.listHolds, Bool.or_eq_false_iff] at nothing
    rw [List.cons_append, Meaning.sequence, Statement.admits, notStart, nothing.1]
    exact ih nothing.2

theorem settle_of_none {statements : List Statement}
    {outcome : Completion ν} (stays : outcome.reentry? meaning statements = none) (bound : Nat) :
    meaning.settle run statements bound outcome = pure outcome := by
  cases bound <;> rw [Meaning.settle, stays]

end Meaning

/-! ## Larger bounds -/

def Execution.Extends {α : Type} (longer shorter : Execution σ ε α) : Prop :=
  ∀ before result, shorter before = some result → longer before = some result

namespace Execution.Extends

variable {α β : Type}

theorem refl (run : Execution σ ε α) : run.Extends run := fun _ _ same => same

theorem failure (run : Execution σ ε α) : run.Extends failure := fun _ _ impossible => nomatch impossible

theorem bind {longer shorter : Execution σ ε α} {next next' : α → Execution σ ε β}
    (first : longer.Extends shorter) (second : ∀ value, Extends (next value) (next' value)) :
    Extends (longer >>= next) (shorter >>= next') := by
  intro before result runs
  change (shorter before).bind _ = _ at runs
  obtain ⟨⟨value, between⟩, former, latter⟩ := Option.bind_eq_some_iff.mp runs
  change (longer before).bind _ = _
  rw [first before _ former]
  exact second value between result latter

theorem map {longer shorter : Execution σ ε α} (change : α → β) (first : longer.Extends shorter) :
    Extends (change <$> longer) (change <$> shorter) :=
  first.bind fun value => .refl (pure (change value))

theorem ite {longer shorter longer' shorter' : Execution σ ε α} (condition : Prop)
    [Decidable condition] (first : longer.Extends shorter) (second : longer'.Extends shorter') :
    Extends (if condition then longer else longer') (if condition then shorter else shorter') := by
  split
  · exact first
  · exact second

end Execution.Extends

theorem Completion.followedBy_extends {rest rest' : Execution σ ε (Completion ν)}
    (later : rest.Extends rest') (outcome : Completion ν) :
    Execution.Extends (outcome.followedBy rest) (outcome.followedBy rest') := by
  cases outcome with
  | normal => exact later
  | _ => exact .refl _

theorem Completion.iterate_extends {again again' : Execution σ ε (Completion ν)}
    (later : again.Extends again') (outcome : Completion ν) :
    Execution.Extends (outcome.iterate again) (outcome.iterate again') := by
  cases outcome with
  | normal | continued => exact later
  | _ => exact .refl _

def Execution.Inner.Extends (longer shorter : Execution.Inner σ ε ν) : Prop :=
  ∀ entry statement, Execution.Extends (longer entry statement) (shorter entry statement)

namespace Meaning

variable (meaning : Meaning σ ε ν) {longer shorter : Execution.Inner σ ε ν}

theorem inBlock_extends {inside inside' : Execution σ ε (Completion ν)} (later : inside.Extends inside') :
    Execution.Extends (meaning.inBlock inside) (meaning.inBlock inside') :=
  .bind (.refl _) fun _ => later.bind fun _ => .refl _

section Extension

variable (further : Execution.Inner.Extends longer shorter)

include further

theorem sequence_extends (entry : Entry ν) (statements : List Statement) :
    Execution.Extends (meaning.sequence longer entry statements)
      (meaning.sequence shorter entry statements) := by
  induction statements generalizing entry with
  | nil => exact .refl _
  | cons statement statements ih =>
    refine .ite _ ?_ (ih entry)
    exact (further entry statement).bind (Completion.followedBy_extends (ih .start))

theorem settle_extends (statements : List Statement) {bound bound' : Nat} (larger : bound' ≤ bound)
    (outcome : Completion ν) : Execution.Extends (meaning.settle longer statements bound outcome)
      (meaning.settle shorter statements bound' outcome) := by
  induction bound' generalizing bound outcome with
  | zero =>
    cases entered : outcome.reentry? meaning statements with
    | none => cases bound <;> (simp only [settle, entered]; exact .refl _)
    | some entry =>
      simp only [settle, entered]
      exact .failure _
  | succ bound' ih =>
    obtain ⟨bound, rfl⟩ : ∃ previous, bound = previous + 1 := ⟨bound - 1, by omega⟩
    simp only [settle]
    cases outcome.reentry? meaning statements with
    | none => exact .refl _
    | some entry =>
      exact (meaning.sequence_extends further entry statements).bind (ih (by omega))

theorem runOption_extends (entry : Entry ν) (statement : Option Statement) :
    Execution.Extends (runOption longer entry statement) (runOption shorter entry statement) := by
  cases statement with
  | none => exact .refl _
  | some statement => exact further entry statement

theorem runLoop_extends (entry : Entry ν) (condition : Option Expr) (body : Statement)
    {again again' : Execution σ ε (Completion ν)} (later : again.Extends again') :
    Execution.Extends (meaning.runLoop longer entry condition body again)
      (meaning.runLoop shorter entry condition body again') := by
  refine .ite _ (.bind (.refl _) fun holds => .ite _ ?_ (.refl _)) ?_
  · exact (further .start body).bind (Completion.iterate_extends later)
  · exact (further entry body).bind (Completion.iterate_extends later)

theorem form_extends {bound bound' : Nat} (larger : bound' ≤ bound) (entry : Entry ν)
    (statement : Statement) : Execution.Extends (meaning.form longer bound entry statement)
      (meaning.form shorter bound' entry statement) := by
  cases statement with
  | block span statements =>
    refine meaning.inBlock_extends ?_
    exact (meaning.sequence_extends further entry statements).bind
      (meaning.settle_extends further statements larger)
  | ifElse span condition thenBranch elseBranch =>
    refine .ite _ (.bind (.refl _) fun holds => .ite _ ?_ ?_) (.ite _ ?_ ?_)
    · exact further .start thenBranch
    · exact runOption_extends further .start elseBranch
    · exact further entry thenBranch
    · exact runOption_extends further entry elseBranch
  | whileLoop span condition body =>
    exact meaning.runLoop_extends further entry condition body (further .start _)
  | forLoop span init condition update body =>
    cases init with
    | none =>
      exact meaning.runLoop_extends further entry condition body (.bind (.refl _) fun _ => further .start _)
    | some init =>
      refine meaning.inBlock_extends (.ite _ ?_ (further entry _))
      exact (further .start init).bind (Completion.followedBy_extends (further .start _))
  | doWhile span body condition =>
    refine (further entry body).bind (Completion.iterate_extends ?_)
    exact .bind (.refl _) fun holds => .ite _ (further .start _) (.refl _)
  | switch span subject body =>
    refine .ite _ (.bind (.refl _) fun value => ?_) ((further entry body).map _)
    cases meaning.chosen? value body with
    | none => exact .refl _
    | some label => exact (further label body).map _
  | caseLabel span value statement => exact further _ statement
  | defaultLabel span statement => exact further _ statement
  | labelled span label statement => exact further _ statement
  | _ => exact .refl _

end Extension

theorem execute_extends {bound bound' : Nat} (larger : bound' ≤ bound) :
    Execution.Inner.Extends (meaning.execute bound) (meaning.execute bound') := by
  induction bound' generalizing bound with
  | zero => exact fun _ _ => .failure _
  | succ bound' ih =>
    intro entry statement
    obtain ⟨bound, rfl⟩ : ∃ previous, bound = previous + 1 := ⟨bound - 1, by omega⟩
    exact meaning.form_extends (ih (by omega)) (by omega) entry statement

theorem Executes.unique {statement : Statement} {before after after' : Progress σ ε}
    {outcome outcome' : Completion ν} (runs : meaning.Executes statement before outcome after)
    (runs' : meaning.Executes statement before outcome' after') : outcome = outcome' ∧ after = after' := by
  obtain ⟨bound, ends⟩ := runs
  obtain ⟨bound', ends'⟩ := runs'
  have larger := meaning.execute_extends (Nat.le_max_left bound bound') _ _ _ _ ends
  have larger' := meaning.execute_extends (Nat.le_max_right bound bound') _ _ _ _ ends'
  have same := Option.some.inj (larger.symm.trans larger')
  exact ⟨congrArg Prod.fst same, congrArg Prod.snd same⟩

end Meaning

end InlineMacro
