import InlineMacro.Proofs.Pass.FlattenCalls

/-!
# Moving nested calls out one by one

The second round of flattening can be done in single steps: the first call of a target among the
arguments of a statement's call, from the outside in, becomes a statement in front of it, and the
next step looks at that statement first. Each step leaves one nested call less, or one statement
less to look at, so the loop ends, and it ends with what the round puts into the block.
-/

set_option autoImplicit false

namespace InlineMacro

namespace Flatten

variable {targets : Association CType}

/-! ## Single steps -/

/-- A call that has been taken out of the arguments of another one. -/
structure TakenCall where
  temporary : String
  span : Span
  function : Expr
  arguments : List Expr

def TakenCall.assignment (taken : TakenCall) (arguments : List Expr) : Statement :=
  .ofExpr (.assignment (.ofName taken.temporary) (.call taken.span taken.function arguments))

mutual

def takeFrom (targets : Association CType) : Expr → Flatten (Option (TakenCall × Expr))
  | .call span function arguments => do
    match targetOf? targets (← get) (.call span function arguments) with
    | some callee =>
      let name ← temporary targets callee
      pure (some (⟨name, span, function, arguments⟩, .ofName name))
    | none =>
      match ← takeFromList targets arguments with
      | some (taken, arguments) => pure (some (taken, .call span function arguments))
      | none => pure none
  | _ => pure none

def takeFromList (targets : Association CType) :
    List Expr → Flatten (Option (TakenCall × List Expr))
  | [] => pure none
  | argument :: arguments => do
    match ← takeFrom targets argument with
    | some (taken, argument) => pure (some (taken, argument :: arguments))
    | none =>
      match ← takeFromList targets arguments with
      | some (taken, arguments) => pure (some (taken, argument :: arguments))
      | none => pure none

end

/-- Takes the first nested call of a target out of a statement: what moves in front of it, and what
is left of it. -/
def takeNested (targets : Association CType) (statement : Statement) :
    Flatten (Option (Statement × Statement)) := do
  match statement.topCall? with
  | some (.call span function arguments) =>
    match ← takeFromList targets arguments with
    | some (taken, arguments) =>
      pure (some (taken.assignment taken.arguments,
        statement.replaceTopCall (.call span function arguments)))
    | none => pure none
  | _ => pure none

/-- The statements of a block that the loop has left behind, and those that it has still to look
at. -/
structure HoistingLoop where
  done : List Statement
  pending : List Statement

namespace HoistingLoop

def step (targets : Association CType) (loop : HoistingLoop) : Flatten HoistingLoop :=
  match loop.pending with
  | [] => pure loop
  | statement :: rest => do
    declareStatement statement
    match ← takeNested targets statement with
    | some (hoisted, left) => pure { loop with pending := hoisted :: left :: rest }
    | none => pure ⟨loop.done ++ [statement], rest⟩

def run (targets : Association CType) : Nat → HoistingLoop → Flatten HoistingLoop
  | 0, loop => pure loop
  | turns + 1, loop => do run targets turns (← step targets loop)

end HoistingLoop

/-! ## The nested calls that are left -/

def namesTarget (targets : Association CType) (call : Expr) : Bool :=
  call.callee?.any targets.contains

def nestedCalls (targets : Association CType) (statement : Statement) : Nat :=
  match statement.topCall? with
  | some (.call _ _ arguments) => (Expr.listDirectCalls arguments).countP (namesTarget targets)
  | _ => 0

def HoistingLoop.work (targets : Association CType) (loop : HoistingLoop) : Nat :=
  loop.pending.foldr (fun statement more => 2 * nestedCalls targets statement + 1 + more) 0

/-! ## What a single step leaves to the rest of the round -/

mutual

theorem hoistFrom_locals : ∀ (argument : Expr) (state : FlattenState),
    Ensures (hoistFrom targets argument) state fun result after =>
      after.locals = state.locals ∧ (result.1 = [] → result.2 = argument)
  | .call span function arguments => by
    intro state
    rw [hoistFrom]
    refine .bindGet ?_
    split
    · next callee _ =>
      refine (temporary_ensures callee state).bind fun name middle same => ?_
      refine (hoistFromList_locals arguments middle).bind fun result after holds => ?_
      exact .pure ⟨holds.1.trans same, fun nothing => by simp at nothing⟩
    · refine (hoistFromList_locals arguments state).bind fun result after holds => ?_
      exact .pure ⟨holds.1, fun nothing => by rw [holds.2 nothing]⟩
  | .intLiteral .. | .floatLiteral .. | .charLiteral .. | .stringLiteral .. | .identifier ..
  | .binary .. | .unary .. | .member .. | .conditional .. | .cast .. | .sizeofExpr ..
  | .sizeofType .. | .compoundLiteral .. | .comma .. | .typeArgument .. =>
    fun _ => ⟨rfl, fun _ => rfl⟩

theorem hoistFromList_locals : ∀ (arguments : List Expr) (state : FlattenState),
    Ensures (hoistFromList targets arguments) state fun result after =>
      after.locals = state.locals ∧ (result.1 = [] → result.2 = arguments)
  | [] => fun _ => ⟨rfl, fun _ => rfl⟩
  | argument :: arguments => by
    intro state
    rw [hoistFromList]
    refine (hoistFrom_locals argument state).bind fun first middle firstHolds => ?_
    refine (hoistFromList_locals arguments middle).bind fun others after holds => ?_
    refine .pure ⟨holds.1.trans firstHolds.1, fun nothing => ?_⟩
    obtain ⟨firstNothing, othersNothing⟩ := List.append_eq_nil_iff.mp nothing
    rw [firstHolds.2 firstNothing, holds.2 othersNothing]

end

variable {state : FlattenState}

theorem targetOf?_congr {other : FlattenState} (same : other.locals = state.locals)
    (span : Span) (function : Expr) (arguments others : List Expr) :
    targetOf? targets other (.call span function others) =
      targetOf? targets state (.call span function arguments) := by
  unfold targetOf?
  rw [same]
  rfl

def TakenCall.continues {α : Type} (targets : Association CType) (taken : TakenCall)
    (rest : Flatten (List Statement × α)) : Flatten (List Statement × α) := do
  let (inner, arguments) ← hoistFromList targets taken.arguments
  let (others, left) ← rest
  pure (inner ++ taken.assignment arguments :: others, left)

theorem TakenCall.continues_run {α : Type} (taken : TakenCall)
    (rest : Flatten (List Statement × α)) (state : FlattenState) :
    ∃ inner, (hoistFromList targets taken.arguments).run state = inner ∧
      inner.2.locals = state.locals ∧ (taken.continues targets rest).run state =
        ((inner.1.1 ++ taken.assignment inner.1.2 :: (rest.run inner.2).1.1,
          (rest.run inner.2).1.2), (rest.run inner.2).2) :=
  ⟨_, rfl, (hoistFromList_locals taken.arguments state).1, rfl⟩

def Takes {α : Type} (targets : Association CType) (hoist : α → Flatten (List Statement × α))
    (calls : α → List Expr) (whole : α) (state : FlattenState) (found : Option (TakenCall × α))
    (middle : FlattenState) : Prop :=
  middle.locals = state.locals ∧
    match found with
    | none => middle = state ∧ ∀ other : FlattenState, other.locals = state.locals →
      (hoist whole).run other = (([], whole), other)
    | some (taken, left) =>
      (hoist whole).run state = (taken.continues targets (hoist left)).run middle ∧
        (calls whole).countP (namesTarget targets) =
          (Expr.listDirectCalls taken.arguments).countP (namesTarget targets) +
            (calls left).countP (namesTarget targets) + 1

variable {span : Span} {function : Expr} {arguments : List Expr}

theorem hoistFrom_run (other : targetOf? targets state (.call span function arguments) = none) :
    (hoistFrom targets (.call span function arguments)).run state =
      (fun result => ((result.1.1, .call span function result.1.2), result.2))
        ((hoistFromList targets arguments).run state) := by
  rw [hoistFrom]
  change ((match targetOf? targets state (.call span function arguments) with
    | some callee => _
    | none => _ : Flatten (List Statement × Expr))).run state = _
  rw [other]
  rfl

theorem hoistFromList_run (argument : Expr) (arguments : List Expr) (state : FlattenState) :
    (hoistFromList targets (argument :: arguments)).run state =
      (fun first => (fun others => ((first.1.1 ++ others.1.1, first.1.2 :: others.1.2), others.2))
        ((hoistFromList targets arguments).run first.2)) ((hoistFrom targets argument).run state) := by
  rw [hoistFromList]
  rfl

theorem namesTarget_of_targetOf? {call : Expr} {callee : String}
    (target : targetOf? targets state call = some callee) : namesTarget targets call := by
  obtain ⟨calls, isTarget⟩ := Option.filter_eq_some_iff.mp target
  rw [Bool.and_eq_true] at isTarget
  rw [namesTarget, calls]
  exact isTarget.1

theorem takes_target {callee : String}
    (target : targetOf? targets state (.call span function arguments) = some callee) : Ensures (do
      let name ← temporary targets callee
      pure (some (⟨name, span, function, arguments⟩, Expr.ofName name))) state
      (Takes targets (hoistFrom targets) Expr.directCalls (.call span function arguments) state) := by
  refine ⟨temporary_ensures callee state, ?_, ?_⟩
  · rw [hoistFrom]
    change ((match targetOf? targets state (.call span function arguments) with
      | some callee => _
      | none => _ : Flatten (List Statement × Expr))).run state = _
    rw [target]
    rfl
  · rw [Expr.directCalls, List.countP_cons_of_pos (namesTarget_of_targetOf? target)]
    rfl

variable {middle : FlattenState}

theorem Takes.underCall (other : targetOf? targets state (.call span function arguments) = none)
    {found : Option (TakenCall × List Expr)}
    (takes : Takes targets (hoistFromList targets) Expr.listDirectCalls arguments state found middle) :
    Takes targets (hoistFrom targets) Expr.directCalls (.call span function arguments) state
      (found.map fun result => (result.1, .call span function result.2)) middle := by
  obtain ⟨locals, takes⟩ := takes
  refine ⟨locals, ?_⟩
  cases found with
  | none =>
    refine ⟨takes.1, fun later same => ?_⟩
    have still := (targetOf?_congr same span function arguments arguments).trans other
    rw [hoistFrom_run still, takes.2 later same]
  | some result =>
    obtain ⟨taken, left⟩ := result
    obtain ⟨rest, counts⟩ := takes
    refine ⟨?_, ?_⟩
    · obtain ⟨inner, runs, behind, inList⟩ :=
        taken.continues_run (hoistFromList targets left) middle
      obtain ⟨_, again, -, inCall⟩ :=
        taken.continues_run (hoistFrom targets (.call span function left)) middle
      obtain rfl := runs.symm.trans again
      have still : targetOf? targets inner.2 (.call span function left) = none :=
        (targetOf?_congr (behind.trans locals) span function arguments left).trans other
      rw [hoistFrom_run other, rest, inList, inCall, hoistFrom_run still]
    · simp only [Expr.directCalls, List.countP_cons, counts]
      have sameName : namesTarget targets (.call span function left) =
          namesTarget targets (.call span function arguments) := rfl
      rw [sameName]
      omega

theorem Takes.inFirst {argument left : Expr} {taken : TakenCall}
    (takes : Takes targets (hoistFrom targets) Expr.directCalls argument state
      (some (taken, left)) middle) (arguments : List Expr) :
    Takes targets (hoistFromList targets) Expr.listDirectCalls (argument :: arguments) state
      (some (taken, left :: arguments)) middle := by
  obtain ⟨locals, rest, counts⟩ := takes
  refine ⟨locals, ?_, ?_⟩
  · obtain ⟨inner, runs, -, inFirst⟩ := taken.continues_run (hoistFrom targets left) middle
    obtain ⟨_, again, -, inList⟩ :=
      taken.continues_run (hoistFromList targets (left :: arguments)) middle
    obtain rfl := runs.symm.trans again
    rw [hoistFromList_run, rest, inFirst, inList, hoistFromList_run]
    simp
  · simp only [Expr.listDirectCalls, List.countP_append, counts]
    omega

theorem Takes.inOthers {after : FlattenState} {argument : Expr}
    (first : Takes targets (hoistFrom targets) Expr.directCalls argument state none middle)
    {found : Option (TakenCall × List Expr)}
    (others : Takes targets (hoistFromList targets) Expr.listDirectCalls arguments middle found after) :
    Takes targets (hoistFromList targets) Expr.listDirectCalls (argument :: arguments) state
      (found.map fun result => (result.1, argument :: result.2)) after := by
  obtain ⟨-, rfl, nothing⟩ := first
  obtain ⟨locals, takes⟩ := others
  refine ⟨locals, ?_⟩
  cases found with
  | none =>
    refine ⟨takes.1, fun later same => ?_⟩
    rw [hoistFromList_run, nothing later same]
    dsimp only
    rw [takes.2 later same]
    rfl
  | some result =>
    obtain ⟨taken, left⟩ := result
    obtain ⟨rest, counts⟩ := takes
    refine ⟨?_, ?_⟩
    · obtain ⟨inner, runs, behind, inList⟩ :=
        taken.continues_run (hoistFromList targets left) after
      obtain ⟨_, again, -, inLonger⟩ :=
        taken.continues_run (hoistFromList targets (argument :: left)) after
      obtain rfl := runs.symm.trans again
      rw [inLonger, hoistFromList_run, hoistFromList_run, nothing middle rfl,
        nothing inner.2 (behind.trans locals)]
      dsimp only
      rw [rest, inList]
      rfl
    · simp only [Expr.listDirectCalls, List.countP_append, counts]
      omega

mutual

theorem takeFrom_takes : ∀ (argument : Expr) (state : FlattenState), Ensures (takeFrom targets argument) state
      (Takes targets (hoistFrom targets) Expr.directCalls argument state)
  | .call span function arguments => by
    intro state
    rw [takeFrom]
    refine .bindGet ?_
    cases target : targetOf? targets state (.call span function arguments) with
    | some callee => exact takes_target target
    | none =>
      refine (takeFromList_takes arguments state).bind fun found middle takes => ?_
      have whole := takes.underCall target
      cases found with
      | none => exact .pure whole
      | some result => exact .pure whole
  | .intLiteral .. | .floatLiteral .. | .charLiteral .. | .stringLiteral .. | .identifier ..
  | .binary .. | .unary .. | .member .. | .conditional .. | .cast .. | .sizeofExpr ..
  | .sizeofType .. | .compoundLiteral .. | .comma .. | .typeArgument .. =>
    fun _ => ⟨rfl, rfl, fun _ _ => rfl⟩

theorem takeFromList_takes : ∀ (arguments : List Expr) (state : FlattenState),
    Ensures (takeFromList targets arguments) state
      (Takes targets (hoistFromList targets) Expr.listDirectCalls arguments state)
  | [] => fun _ => ⟨rfl, rfl, fun _ _ => rfl⟩
  | argument :: arguments => by
    intro state
    rw [takeFromList]
    refine (takeFrom_takes argument state).bind fun found middle first => ?_
    cases found with
    | some result => exact .pure (first.inFirst arguments)
    | none =>
      refine (takeFromList_takes arguments middle).bind fun found after others => ?_
      have whole := first.inOthers others
      cases found with
      | none => exact .pure whole
      | some result => exact .pure whole

end

/-! ## Single steps and the round -/

def splice : List (Option (List Statement)) → List Statement → List Statement
  | some result :: replaced, _ :: entries => result ++ splice replaced entries
  | none :: replaced, entry :: entries => entry :: splice replaced entries
  | [], entries => entries
  | _, [] => []

def hoistedBlock (targets : Association CType) (entries : List Statement) :
    Flatten (List Statement) := do
  return splice (← replacements targets .hoistArguments entries) entries

theorem hoistedBlock_cons (entry : Statement) (entries : List Statement) (state : FlattenState) :
    (hoistedBlock targets (entry :: entries)).run state =
      (fun first => (fun others => (first.1.getD [entry] ++ others.1, others.2))
        ((hoistedBlock targets entries).run first.2))
          ((hoistArguments targets entry).run
            { state with locals := state.locals.declareStatement entry }) := by
  let first := (hoistArguments targets entry).run
    { state with locals := state.locals.declareStatement entry }
  change (splice (first.1 :: ((replacements targets .hoistArguments entries).run first.2).1)
    (entry :: entries), ((replacements targets .hoistArguments entries).run first.2).2) =
      (first.1.getD [entry] ++
        splice ((replacements targets .hoistArguments entries).run first.2).1 entries, _)
  cases first.1 with
  | none => rfl
  | some result => rfl

theorem hoistedBlock_plain {entry : Statement} (plain : entry.isPlain) (entries : List Statement)
    (state : FlattenState) : (hoistedBlock targets (entry :: entries)).run state =
      (fun first => (fun others => (first.1.getD [entry] ++ others.1, others.2))
        ((hoistedBlock targets entries).run first.2)) ((hoistArguments targets entry).run state) := by
  rw [hoistedBlock_cons, LocalNames.declareStatement_eq, Statement.declared_of_plain plain]
  rfl

section Site

variable {position : CallPosition} {uses : List Use} {context : Expr → Statement}

theorem topCall?_site (site : Statement.IsSite position uses context) (span : Span)
    (function : Expr) (arguments : List Expr) : (context (.call span function arguments)).topCall? =
      some (.call span function arguments) := by
  rw [Statement.topCall?, site.callSite? rfl]
  rfl

theorem hoistArguments_site (site : Statement.IsSite position uses context) (span : Span)
    (function : Expr) (arguments : List Expr) (state : FlattenState) :
    ∃ result, (hoistFromList targets arguments).run state = result ∧
      ((hoistArguments targets (context (.call span function arguments))).run state).1.getD
          [context (.call span function arguments)] =
        result.1.1 ++ [context (.call span function result.1.2)] ∧
      ((hoistArguments targets (context (.call span function arguments))).run state).2 = result.2 := by
  obtain ⟨result, runs⟩ : ∃ result, (hoistFromList targets arguments).run state = result :=
    ⟨_, rfl⟩
  have unchanged : result.1.1 = [] → result.1.2 = arguments :=
    runs ▸ (hoistFromList_locals arguments state).2
  have whole : (hoistArguments targets (context (.call span function arguments))).run state =
      (if result.1.1.isEmpty then none
        else some (result.1.1 ++ [context (.call span function result.1.2)]), result.2) := by
    have replaced := fun others : List Expr =>
      site.replaceTopCall (rfl : (Expr.call span function arguments).isCall) (.call span function others)
    unfold hoistArguments
    simp only [topCall?_site site, replaced]
    rw [StateT.run_bind, runs]
    change (ite (result.1.1.isEmpty = true) (pure none) (pure (some _)) :
      Flatten (Option (List Statement))).run result.2 = _
    split <;> rfl
  refine ⟨result, runs, ?_, by rw [whole]⟩
  rw [whole]
  cases empty : result.1.1 with
  | nil => simp [unchanged empty]
  | cons first others => simp

/-- A statement without one of its nested calls, behind the statement for that call, becomes what the
statement with the call becomes. -/
theorem hoistedBlock_taken (site : Statement.IsSite position uses context) (span : Span)
    (function : Expr) {arguments left : List Expr} {taken : TakenCall} {state middle : FlattenState}
    (runs : (hoistFromList targets arguments).run state =
      (taken.continues targets (hoistFromList targets left)).run middle) (rest : List Statement) :
    (hoistedBlock targets (context (.call span function arguments) :: rest)).run state =
      (hoistedBlock targets (taken.assignment taken.arguments ::
        context (.call span function left) :: rest)).run middle := by
  obtain ⟨inner, inside, -, continues⟩ :=
    taken.continues_run (hoistFromList targets left) middle
  obtain ⟨_, whole, statements, after⟩ :=
    hoistArguments_site site span function arguments state
  obtain ⟨_, first, firstStatements, firstAfter⟩ := hoistArguments_site
    (.assigned .synthetic .synthetic (.ofName taken.temporary)) taken.span taken.function
    taken.arguments middle
  obtain ⟨others, second, secondStatements, secondAfter⟩ :=
    hoistArguments_site site span function left inner.2
  obtain rfl := inside.symm.trans first
  rw [second] at continues
  obtain rfl := whole.symm.trans (runs.trans continues)
  change ((hoistArguments targets (taken.assignment taken.arguments)).run middle).1.getD
    [taken.assignment taken.arguments] = _ at firstStatements
  change ((hoistArguments targets (taken.assignment taken.arguments)).run middle).2 = _ at firstAfter
  rw [hoistedBlock_plain (site.isPlain _), hoistedBlock_plain rfl]
  dsimp only
  rw [firstAfter, hoistedBlock_plain (site.isPlain _)]
  dsimp only
  rw [secondAfter, after, statements, firstStatements, secondStatements]
  simp [TakenCall.assignment, Expr.assignment, Statement.ofExpr]

theorem nestedCalls_site (site : Statement.IsSite position uses context) (span : Span)
    (function : Expr) (arguments : List Expr) :
    nestedCalls targets (context (.call span function arguments)) =
      (Expr.listDirectCalls arguments).countP (namesTarget targets) := by
  rw [nestedCalls, topCall?_site site]

end Site

theorem takeNested_ensures (statement : Statement) (rest : List Statement) (state : FlattenState) :
    Ensures (takeNested targets statement) state fun found middle =>
      match found with
      | none => middle = state ∧
        ((hoistArguments targets statement).run state).1.getD [statement] = [statement] ∧
          ((hoistArguments targets statement).run state).2 = state
      | some (hoisted, left) => statement.isPlain ∧
        (hoistedBlock targets (statement :: rest)).run state =
          (hoistedBlock targets (hoisted :: left :: rest)).run middle ∧
        nestedCalls targets statement =
          nestedCalls targets hoisted + nestedCalls targets left + 1 := by
  unfold takeNested
  cases site : statement.callSite? with
  | none =>
    have noCall : statement.topCall? = none := by rw [Statement.topCall?, site]; rfl
    have runs : (hoistArguments targets statement).run state = (none, state) := by
      unfold hoistArguments
      rw [noCall]
      rfl
    rw [noCall]
    refine .pure ⟨rfl, ?_, ?_⟩
    · rw [runs]
      rfl
    · rw [runs]
  | some found =>
    obtain ⟨position, call⟩ := found
    obtain ⟨isCall, uses, context, isSite, rfl⟩ := Statement.isSite_of_callSite? site
    cases call with
    | call span function arguments =>
      obtain ⟨result, runs, statements, after⟩ :=
        hoistArguments_site isSite span function arguments state
      rw [topCall?_site isSite]
      refine (takeFromList_takes arguments state).bind fun found middle takes => ?_
      obtain ⟨-, takes⟩ := takes
      cases found with
      | none =>
        obtain ⟨rfl, nothing⟩ := takes
        obtain rfl := runs.symm.trans (nothing middle rfl)
        exact .pure ⟨rfl, statements, after⟩
      | some found =>
        obtain ⟨taken, left⟩ := found
        obtain ⟨continues, counts⟩ := takes
        refine .pure ⟨isSite.isPlain _, ?_, ?_⟩
        · rw [isSite.replaceTopCall rfl]
          exact hoistedBlock_taken isSite span function continues rest
        · have inFront : nestedCalls targets (taken.assignment taken.arguments) =
              (Expr.listDirectCalls taken.arguments).countP (namesTarget targets) :=
            nestedCalls_site (.assigned .synthetic .synthetic (.ofName taken.temporary)) taken.span
              taken.function taken.arguments
          rw [isSite.replaceTopCall rfl, nestedCalls_site isSite, nestedCalls_site isSite, inFront, counts]
    | _ => cases isCall

/-! ## The loop -/

namespace HoistingLoop

variable (targets)

theorem step_ensures (done : List Statement) (statement : Statement) (rest : List Statement)
    (state : FlattenState) : Ensures (step targets ⟨done, statement :: rest⟩) state fun loop middle =>
      loop.work targets < work targets ⟨done, statement :: rest⟩ ∧
        loop.done ++ ((hoistedBlock targets loop.pending).run middle).1 =
          done ++ ((hoistedBlock targets (statement :: rest)).run state).1 ∧
        ((hoistedBlock targets loop.pending).run middle).2 =
          ((hoistedBlock targets (statement :: rest)).run state).2 := by
  refine Ensures.bindModify ?_
  refine (takeNested_ensures statement rest _).bind fun found middle holds => ?_
  cases found with
  | none =>
    obtain ⟨rfl, statements, after⟩ := holds
    refine .pure ⟨?_, ?_, ?_⟩
    · simp only [work, List.foldr_cons]
      omega
    · rw [hoistedBlock_cons]
      dsimp only
      rw [statements, after, List.append_assoc]
    · rw [hoistedBlock_cons]
      dsimp only
      rw [after]
  | some result =>
    obtain ⟨hoisted, left⟩ := result
    obtain ⟨plain, same, counts⟩ := holds
    rw [LocalNames.declareStatement_eq, Statement.declared_of_plain plain] at same
    refine .pure ⟨?_, ?_, ?_⟩
    · simp only [work, List.foldr_cons]
      omega
    · exact congrArg (fun result => done ++ result.1) same.symm
    · exact congrArg Prod.snd same.symm

/-- The loop ends, after no more turns than it has things to do, with what the round puts into the
block. -/
theorem run_eq (turns : Nat) (loop : HoistingLoop) (state : FlattenState)
    (enough : loop.work targets ≤ turns) : (loop.run targets turns).run state =
      (⟨loop.done ++ ((hoistedBlock targets loop.pending).run state).1, []⟩,
        ((hoistedBlock targets loop.pending).run state).2) := by
  induction turns generalizing loop state with
  | zero =>
    obtain ⟨done, pending⟩ := loop
    cases pending with
    | nil =>
      change ((⟨done, []⟩ : HoistingLoop), state) = (⟨done ++ [], []⟩, state)
      rw [List.append_nil]
    | cons statement rest => simp [work] at enough
  | succ turns ih =>
    obtain ⟨done, pending⟩ := loop
    cases pending with
    | nil => exact ih ⟨done, []⟩ state (Nat.zero_le turns)
    | cons statement rest =>
      obtain ⟨less, statements, after⟩ := step_ensures targets done statement rest state
      let turned := (step targets ⟨done, statement :: rest⟩).run state
      refine (ih turned.1 turned.2 (Nat.le_of_lt_succ (Nat.lt_of_lt_of_le less enough))).trans ?_
      rw [statements, after]

end HoistingLoop

end Flatten

end InlineMacro
