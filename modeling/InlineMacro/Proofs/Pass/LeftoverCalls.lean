import InlineMacro.Proofs.Pass.InvocationSites
import InlineMacro.Proofs.Scope.Standing

/-!
# Calls that are left over

Invocations can be made in a function only if no visible call of a macro's function is left over. So
behind the pass each call of such a function in a statement of a block is one of something that has
the name there.
-/

set_option autoImplicit false

namespace InlineMacro

namespace Invoking

variable {expansion : Expansion}

/-- Every call of a macro's function among nodes is one of something that the scope has under the
name. -/
def Clear (expansion : Expansion) (scope : Bindings) (nodes : List Node) : Prop :=
  ∀ name ∈ Node.callees nodes, expansion.macros.contains name → scope.hides name

def Clears (expansion : Expansion) (scope : Bindings) (nodes : List Node)
    (state after : InvocationState) : Prop :=
  after.stray = none → state.stray = none ∧ Clear expansion scope nodes

/-! ## Plain statements -/

section Plain

variable {scope : Bindings} {state : InvocationState}

theorem scan_clears (nodes : List Node) (same : state.locals.Matches expansion.macros.contains scope) :
    Ensures (scan expansion nodes) state fun _ after =>
      after.locals = state.locals ∧ Clears expansion scope nodes state after := by
  refine ⟨rfl, fun noStray => ?_⟩
  change state.stray.or (nodes.findSome? (strayText? expansion state.locals)) = none at noStray
  rw [Option.or_eq_none_iff, List.findSome?_eq_none_iff] at noStray
  refine ⟨noStray.1, fun name called isKnown => ?_⟩
  obtain ⟨node, member, found⟩ := List.mem_filterMap.mp called
  have notStray := noStray.2 node member
  cases node with
  | expression value =>
    have callee : value.callee? = some name := found
    simp only [strayText?, isMacroCall, callee, Option.any_some, isKnown, Bool.true_and] at notStray
    refine same.hidden name isKnown ?_
    by_contra visible
    rw [Bool.not_eq_true] at visible
    simp [visible] at notStray
  | _ => cases found

theorem invoke_clears (fresh : ∀ name macroName, expansion.macros.find? name = some macroName →
      expansion.macros.contains macroName = false) {call : Expr}
    (same : state.locals.Matches expansion.macros.contains scope)
    (isMacro : isMacroCall expansion state.locals call) :
    Ensures (invoke expansion call) state fun result after =>
      after.locals = state.locals ∧ Clears expansion scope result.nodes state after := by
  obtain ⟨name, called, isKnown, -⟩ := (isMacroCall_iff same).mp isMacro
  obtain ⟨macroName, found⟩ := Option.isSome_iff_exists.mp isKnown
  unfold Expr.callee? at called
  split at called
  · next span function arguments =>
    cases function with
    | identifier place given =>
      cases called
      unfold invoke
      refine (scan_clears (Expr.listNodes arguments) same).bind fun _ middle holds => ?_
      rw [found]
      refine (token_ensures middle).bind fun spelling after tokens => ?_
      obtain ⟨token, rfl, sameLocals, sameStray, -⟩ := tokens
      refine .pure ⟨sameLocals.trans holds.1, fun noStray => ?_⟩
      obtain ⟨noneBefore, clear⟩ := holds.2 (sameStray ▸ noStray)
      refine ⟨noneBefore, fun callee inside isKnown => ?_⟩
      have named : callee = macroName ∨ callee ∈ Node.callees (Expr.listNodes arguments) := by
        rw [← Expr.callees_protectedArguments]
        exact List.mem_cons.mp inside
      rcases named with rfl | among
      · rw [fresh name callee found] at isKnown
        cases isKnown
      · exact clear callee among isKnown
    | _ => cases called
  · cases called

theorem invocation_clears (fresh : ∀ name macroName,
      expansion.macros.find? name = some macroName → expansion.macros.contains macroName = false)
    {entry : Statement} {call : Expr} (same : state.locals.Matches expansion.macros.contains scope)
    (found : invocation? expansion state.locals entry = some call) :
    Ensures (invoke expansion call) state fun result after =>
      after.locals = state.locals ∧ (entry.replaceTopCall result).isPlain ∧
        Clears expansion scope (entry.replaceTopCall result).nodes state after := by
  obtain ⟨site, isMacro⟩ := invocation?_eq_some found
  obtain ⟨isCall, uses, context, isSite, rfl⟩ := Statement.isSite_of_callSite? site
  refine (invoke_clears fresh same isMacro).mono fun result after holds => ?_
  rw [isSite.replaceTopCall isCall]
  cases isSite with
  | whole place => exact ⟨holds.1, rfl, holds.2⟩

theorem plainStatements_clear (fresh : ∀ name macroName,
      expansion.macros.find? name = some macroName → expansion.macros.contains macroName = false)
    (plain : List Statement) (arePlain : ∀ statement ∈ plain, statement.isPlain)
    (same : state.locals.Matches expansion.macros.contains scope) :
    Ensures (plainStatements expansion plain) state fun results after =>
      after.locals = state.locals ∧ (∀ result ∈ results, result.isPlain) ∧
        (after.stray = none → state.stray = none ∧
          ∀ result ∈ results, Clear expansion scope result.nodes) := by
  induction plain generalizing state with
  | nil => exact .pure ⟨rfl, by simp, fun noStray => ⟨noStray, by simp⟩⟩
  | cons first rest ih =>
    rw [List.forall_mem_cons] at arePlain
    have later {result : Statement} {middle : InvocationState}
        (locals : middle.locals = state.locals) (isPlain : result.isPlain)
        (clears : Clears expansion scope result.nodes state middle) :
        Ensures (plainStatements expansion rest >>= fun results => pure (result :: results)) middle
          fun results after => after.locals = state.locals ∧ (∀ result ∈ results, result.isPlain) ∧
            (after.stray = none → state.stray = none ∧
              ∀ result ∈ results, Clear expansion scope result.nodes) := by
      refine (ih arePlain.2 (locals ▸ same)).bind fun results after holds => ?_
      obtain ⟨laterLocals, allPlain, laterClear⟩ := holds
      refine .pure ⟨laterLocals.trans locals, List.forall_mem_cons.mpr ⟨isPlain, allPlain⟩,
        fun noStray => ?_⟩
      obtain ⟨noneBetween, others⟩ := laterClear noStray
      obtain ⟨noneBefore, clear⟩ := clears noneBetween
      exact ⟨noneBefore, List.forall_mem_cons.mpr ⟨clear, others⟩⟩
    rw [plainStatements]
    refine .bindGet ?_
    cases found : invocation? expansion state.locals first with
    | none =>
      exact (scan_clears first.nodes same).bind fun _ middle holds =>
        later holds.1 arePlain.1 holds.2
    | some call =>
      exact (invocation_clears fresh same found).bind fun result middle holds =>
        later holds.1 holds.2.1 holds.2.2

end Plain

/-! ## All statements -/

/-- A part of a body in which no visible call is left in the statements of blocks, unless one has
been found. -/
def Settles (expansion : Expansion) (state after : InvocationState)
    (standing : List (Bindings × Statement)) : Prop :=
  after.stray = none → state.stray = none ∧
    ∀ site ∈ standing, Clear expansion site.1 site.2.nodes

variable {after : InvocationState}

theorem Settles.nothing {state : InvocationState}
    (stray : after.stray = none → state.stray = none) : Settles expansion state after [] :=
  fun noStray => ⟨stray noStray, fun _ member => absurd member List.not_mem_nil⟩

theorem Settles.append {state middle : InvocationState}
    {first second : List (Bindings × Statement)} (former : Settles expansion state middle first)
    (latter : Settles expansion middle after second) : Settles expansion state after (first ++ second) := by
  intro noStray
  obtain ⟨noneBetween, others⟩ := latter noStray
  obtain ⟨noneBefore, clear⟩ := former noneBetween
  exact ⟨noneBefore, List.forall_mem_append.mpr ⟨clear, others⟩⟩

/-- What making invocations in a statement settles. -/
structure SettlesIn (expansion : Expansion) (scope : Bindings) (entry : Statement)
    (state : InvocationState) (result : Statement) (after : InvocationState) : Prop where
  plain : result.isPlain = entry.isPlain
  locals : after.locals = entry.declared.foldl LocalNames.declare state.locals
  behind : ∀ scope, result.scopeAfter (.bindings expansion.macros.contains) scope =
    entry.scopeAfter (.bindings expansion.macros.contains) scope
  settled : Settles expansion state after
    (result.standing (.bindings expansion.macros.contains) false scope)

theorem SettlesIn.unchanged {scope : Bindings} {entry result : Statement}
    {state : InvocationState} (settled : SettlesIn expansion scope entry state result after)
    (nothing : entry.declared = []) : after.locals = state.locals := by
  rw [settled.locals, nothing]
  rfl

section Statements

variable (fresh : ∀ name macroName, expansion.macros.find? name = some macroName →
  expansion.macros.contains macroName = false)

theorem scan_stray (nodes : List Node) (state : InvocationState) :
    Ensures (scan expansion nodes) state fun _ after =>
      after.locals = state.locals ∧ (after.stray = none → state.stray = none) :=
  ⟨rfl, fun noStray => (Option.or_eq_none_iff.mp noStray).1⟩

theorem declarations_stray (given : List Declaration) (state : InvocationState) :
    Ensures (declarations expansion given) state fun _ after =>
      after.locals = given.foldl LocalNames.declare state.locals ∧
        (after.stray = none → state.stray = none) := by
  induction given generalizing state with
  | nil => exact ⟨rfl, id⟩
  | cons first rest ih =>
    have declared : Ensures (declaration expansion first) state fun _ after =>
        after.locals = state.locals.declare first ∧ (after.stray = none → state.stray = none) :=
      ⟨rfl, fun noStray => (Option.or_eq_none_iff.mp noStray).1⟩
    rw [declarations]
    refine declared.bind fun _ middle holds => ?_
    refine (ih middle).mono fun _ after later => ⟨?_, fun noStray => holds.2 (later.2 noStray)⟩
    rw [later.1, holds.1]
    rfl

variable {entry : Statement}

theorem head_settles (head : entry.IsLoopHead) (state : InvocationState) (scope : Bindings) :
    Ensures (statement expansion entry) state (SettlesIn expansion scope entry state) := by
  cases head with
  | declaration span given =>
    rw [statement]
    refine (declarations_stray given state).bind fun _ after holds => ?_
    exact .pure ⟨rfl, holds.1, fun _ => rfl, .nothing holds.2⟩
  | expression | typeDefinition =>
    rw [statement_of_scanned rfl]
    exact (scan_stray _ state).bind fun _ after holds =>
      .pure ⟨rfl, holds.1, fun _ => rfl, .nothing holds.2⟩

/-- The statements of a block behind the making of invocations. -/
structure SettlesInAll (expansion : Expansion) (scope : Bindings) (state : InvocationState)
    (results : List Statement) (after : InvocationState) : Prop where
  tail : after.locals.frames.tail = state.locals.frames.tail
  settled : Settles expansion state after
    (Statement.listStanding (.bindings expansion.macros.contains) scope results)

/-- A statement of a block behind the making of invocations. -/
structure SettlesEntry (expansion : Expansion) (scope : Bindings) (entry : Statement)
    (state : InvocationState) (result : Statement) (after : InvocationState) : Prop where
  tail : after.locals.frames.tail = state.locals.frames.tail
  locals : after.locals.Matches expansion.macros.contains
    (entry.scopeAfter (.bindings expansion.macros.contains) scope)
  behind : result.scopeAfter (.bindings expansion.macros.contains) scope =
    entry.scopeAfter (.bindings expansion.macros.contains) scope
  settled : Settles expansion state after
    (result.standing (.bindings expansion.macros.contains) true scope)

theorem SettlesEntry.of_plain {scope : Bindings} {result : Statement}
    {state after : InvocationState} (same : state.locals.Matches expansion.macros.contains scope)
    (plain : entry.isPlain) (resultPlain : result.isPlain) (locals : after.locals = state.locals)
    (clears : Clears expansion scope result.nodes state after) :
    SettlesEntry expansion scope entry state result after where
  tail := by rw [locals]
  locals := by
    rw [locals, Statement.scopeAfter_of_plain _ _ plain]
    exact same
  behind := by
    rw [Statement.scopeAfter_of_plain _ _ plain, Statement.scopeAfter_of_plain _ _ resultPlain]
  settled noStray := by
    rw [Statement.standing_of_plain resultPlain]
    exact (clears noStray).imp_right fun clear => List.forall_mem_singleton.mpr clear

include fresh in
theorem kept_settles (braced : entry.Braced) {scope : Bindings}
    (each : ∀ (state : InvocationState), state.locals.Matches expansion.macros.contains scope →
      Ensures (statement expansion entry) state (SettlesIn expansion scope entry state))
    {state : InvocationState} (same : state.locals.Matches expansion.macros.contains scope) :
    Ensures (kept expansion entry) state (SettlesEntry expansion scope entry state) := by
  unfold kept
  refine .bindModify ?_
  rw [LocalNames.declareStatement_eq]
  refine .bindGet ?_
  dsimp only
  cases plain : entry.isPlain with
  | true =>
    rw [Statement.declared_of_plain plain, List.foldl_nil]
    cases found : invocation? expansion state.locals entry with
    | some call =>
      refine Ensures.bind (invocation_clears fresh same found) fun result after holds => ?_
      exact .pure (.of_plain same plain holds.2.1 holds.1 holds.2.2)
    | none =>
      dsimp only
      rw [statement_of_scanned (scanned_of_plain plain)]
      refine Ensures.bind (scan_clears entry.nodes same) fun _ after holds => ?_
      exact .pure (.of_plain same plain plain holds.1 holds.2)
  | false =>
    rw [invocation?_of_not_plain plain]
    let opened : InvocationState :=
      { state with locals := entry.declared.foldl LocalNames.declare state.locals }
    have inside : Ensures (statement expansion entry) opened
        (SettlesIn expansion scope entry opened) := by
      rcases entry.declared_cases with nothing | ⟨span, given, rfl⟩
      · have unchanged : opened = state := by simp [opened, nothing]
        rw [unchanged]
        exact each state same
      · exact head_settles (.declaration span given) opened scope
    refine inside.mono fun result after holds => ⟨?_, ?_, holds.behind scope, ?_⟩
    · rw [holds.locals, LocalNames.tail_foldl_declare]
      exact LocalNames.tail_foldl_declare _ entry.declared
    · rw [holds.locals, braced.scopeAfter_eq]
      exact same.twice entry.declared
    · rw [Statement.standing_of_not_plain (holds.plain.trans plain)]
      exact holds.settled

include fresh in
theorem placed_settle {plain : List Statement} {locals : LocalNames}
    (placed : PlacedAs expansion locals entry plain) {state : InvocationState} {scope : Bindings}
    (same : state.locals.Matches expansion.macros.contains scope) :
    Ensures (plainStatements expansion plain) state fun results after =>
      after.locals = state.locals ∧
        Statement.listScopeAfter (.bindings expansion.macros.contains) scope results = scope ∧
        Settles expansion state after
          (Statement.listStanding (.bindings expansion.macros.contains) scope results) := by
  obtain ⟨position, call, -, -, -, shape⟩ := placed.site
  have arePlain : ∀ statement ∈ plain, statement.isPlain := by
    rcases shape with rfl | rfl <;> simp [Statement.isPlain]
  refine (plainStatements_clear fresh plain arePlain same).mono fun results after holds => ?_
  obtain ⟨sameLocals, allPlain, clear⟩ := holds
  obtain ⟨sameScope, standing⟩ :=
    Statement.listStanding_of_plain (.bindings expansion.macros.contains) allPlain scope
  refine ⟨sameLocals, sameScope, fun noStray => ?_⟩
  rw [standing]
  exact (clear noStray).imp_right fun each => List.forall_mem_map.mpr each

include fresh in
theorem statements_settle {entries : List Statement} (braced : ∀ entry ∈ entries, entry.Braced)
    (each : ∀ entry ∈ entries, ∀ (state : InvocationState) (scope : Bindings),
      state.locals.Matches expansion.macros.contains scope →
      Ensures (statement expansion entry) state (SettlesIn expansion scope entry state))
    {placed : List (Option (List Statement))} {state : InvocationState} {scope : Bindings}
    (places : Places expansion scope entries placed)
    (same : state.locals.Matches expansion.macros.contains scope) :
    Ensures (statements expansion placed entries) state (SettlesInAll expansion scope state) := by
  induction entries generalizing placed state scope with
  | nil =>
    rw [statements]
    exact .pure ⟨rfl, .nothing id⟩
  | cons entry entries ih =>
    rw [List.forall_mem_cons] at braced each
    cases placed with
    | nil => cases places
    | cons option others =>
      obtain ⟨⟨locals, -, isPlaced⟩, rest⟩ := places
      cases option with
      | some plain =>
        cases isPlain : entry.isPlain with
        | false => simp [isPlain] at isPlaced
        | true =>
          rw [isPlain, if_pos rfl] at isPlaced
          rw [Statement.scopeAfter_of_plain _ _ isPlain] at rest
          rw [statements]
          refine (placed_settle fresh (placed?_eq_some isPlaced.symm) same).bind
            fun first middle holds => ?_
          obtain ⟨sameLocals, sameScope, settled⟩ := holds
          refine (ih braced.2 each.2 rest (sameLocals ▸ same)).bind fun results after holds => ?_
          refine .pure ⟨by rw [holds.tail, sameLocals], ?_⟩
          rw [Statement.listStanding_append, sameScope]
          exact settled.append holds.settled
      | none =>
        rw [statements_kept]
        refine (kept_settles fresh braced.1 (each.1 · scope) same).bind fun first middle holds => ?_
        refine (ih braced.2 each.2 rest holds.locals).bind fun results after restHolds => ?_
        refine .pure ⟨restHolds.tail.trans holds.tail, ?_⟩
        rw [Statement.listStanding, holds.behind]
        exact holds.settled.append restHolds.settled

include fresh in
theorem statement_settles (braced : entry.Braced) (state : InvocationState)
    {scope : Bindings} (same : state.locals.Matches expansion.macros.contains scope) :
    Ensures (statement expansion entry) state (SettlesIn expansion scope entry state) := by
  have scanned (nodes : List Node) (state : InvocationState) :
      Ensures (scan expansion nodes) state fun _ after =>
        after.locals = state.locals ∧ (after.stray = none → state.stray = none) :=
    scan_stray nodes state
  induction braced generalizing state scope with
  | expression span value => exact head_settles (.expression span value) state scope
  | declaration span given => exact head_settles (.declaration span given) state scope
  | typeDefinition span type => exact head_settles (.typeDefinition span type) state scope
  | block span entries each ih =>
    rw [statement]
    refine .bindModify (.bindGet ?_)
    let opened : InvocationState := { state with locals := state.locals.enter }
    have inside : Ensures (statements expansion (placements expansion opened.locals entries)
        entries) opened (SettlesInAll expansion
          ((Scoping.bindings expansion.macros.contains).enter scope) opened) :=
      statements_settle fresh each (fun entry member state scope same => ih entry member state same)
        (placements_places each same.enter) same.enter
    refine Ensures.bind inside fun results after holds => ?_
    exact .bindModify (.pure ⟨rfl, LocalNames.leave_of_tail holds.tail, fun _ => rfl,
      holds.settled⟩)
  | ifElse span condition thenBranch elseBranch thenBlock elseBlock thenBraced elseBraced thenIh
      elseIh =>
    rw [statement]
    refine (scanned condition.nodes state).bind fun _ first scans => ?_
    refine (thenIh first (scans.1 ▸ same)).bind fun thenResult middle thenHolds => ?_
    have thenLocals := thenHolds.unchanged (Statement.declared_of_isBlock thenBlock)
    refine (elseIh middle (thenLocals.trans scans.1 ▸ same)).bind fun elseResult after holds => ?_
    have elseLocals := holds.unchanged (Statement.declared_of_isBlock elseBlock)
    refine .pure ⟨rfl, elseLocals.trans (thenLocals.trans scans.1), fun scope => ?_, ?_⟩
    · rw [Statement.scopeAfter, Statement.scopeAfter, thenHolds.behind, holds.behind]
    · rw [Statement.standing, thenHolds.behind, Statement.scopeAfter_of_isBlock _ _ thenBlock]
      exact ((Settles.nothing scans.2).append thenHolds.settled).append holds.settled
  | whileLoop _ _ _ bodyBlock _ ih | bareLoop _ _ _ _ bodyBlock _ ih | switch _ _ _ bodyBlock _ ih =>
    rw [statement]
    refine (scanned _ state).bind fun _ middle scans => ?_
    refine (ih middle (scans.1 ▸ same)).bind fun result after holds => ?_
    have locals := holds.unchanged (Statement.declared_of_isBlock bodyBlock)
    exact .pure ⟨rfl, locals.trans scans.1, holds.behind,
      (Settles.nothing scans.2).append holds.settled⟩
  | caseLabel span value labelled marked _ ih =>
    rw [statement]
    refine (scanned value.nodes state).bind fun _ middle scans => ?_
    refine (ih middle (scans.1 ▸ same)).bind fun result after holds => ?_
    have locals := holds.unchanged (Statement.declared_of_isMarked marked)
    exact .pure ⟨rfl, locals.trans scans.1, holds.behind,
      (Settles.nothing scans.2).append holds.settled⟩
  | forLoop span init condition update body head bodyBlock _ ih =>
    rw [statement]
    refine .bindModify ?_
    let opened : InvocationState := { state with locals := state.locals.enter }
    have openedSame : opened.locals.Matches expansion.macros.contains
        ((Scoping.bindings expansion.macros.contains).enter scope) := same.enter
    refine Ensures.bind (head_settles head opened
      ((Scoping.bindings expansion.macros.contains).enter scope)) fun start first starts => ?_
    have inLoop := openedSame.declareAll init.declared
    rw [← head.braced.scopeAfter_eq, ← starts.locals] at inLoop
    refine (scanned _ first).bind fun _ middle scans => ?_
    refine (ih middle (scans.1 ▸ inLoop)).bind fun result after holds => ?_
    have locals := holds.unchanged (Statement.declared_of_isBlock bodyBlock)
    have closed : after.locals.leave = state.locals := by
      rw [locals, scans.1, starts.locals]
      exact LocalNames.leave_of_tail (LocalNames.tail_foldl_declare _ init.declared)
    refine .bindModify (.pure ⟨rfl, closed, fun _ => rfl, ?_⟩)
    rw [Statement.standing, starts.behind]
    exact starts.settled.append ((Settles.nothing scans.2).append holds.settled)
  | doWhile span body condition bodyBlock _ ih =>
    rw [statement]
    refine (ih state same).bind fun result middle holds => ?_
    have locals := holds.unchanged (Statement.declared_of_isBlock bodyBlock)
    refine (scanned _ middle).bind fun _ after scans => ?_
    refine .pure ⟨rfl, scans.1.trans locals, holds.behind, ?_⟩
    have settled := holds.settled.append (Settles.nothing scans.2)
    rwa [List.append_nil] at settled
  | defaultLabel span labelled marked _ ih | labelled span label labelled marked _ ih =>
    rw [statement]
    refine (ih state same).bind fun result after holds => ?_
    have locals := holds.unchanged (Statement.declared_of_isMarked marked)
    exact .pure ⟨rfl, locals, holds.behind, holds.settled⟩
  | returnStatement | breakStatement | continueStatement | gotoStatement | empty =>
    rw [statement_of_scanned rfl]
    exact (scanned _ state).bind fun _ after holds =>
      .pure ⟨rfl, holds.1, fun _ => rfl, .nothing holds.2⟩

end Statements

end Invoking

/-- If invocations could be made in a function, no call of a macro's function is left in a statement
of a block where the name is visible. -/
theorem Pass.invokeMacros_clear {expansion : Expansion} {function : Function} {registry : Registry}
    (fresh : ∀ name macroName, expansion.macros.find? name = some macroName →
      expansion.macros.contains macroName = false) (braced : function.body.Braced) {work : Work}
    (runs : (Pass.invokeMacros expansion).run ⟨function, registry⟩ = .ok () work) :
    ∀ site ∈ work.function.standing (.bindings expansion.macros.contains),
      Invoking.Clear expansion site.1 site.2.nodes := by
  obtain ⟨same, locals, settled⟩ :=
    Pass.invokeMacros_ensures (Invoking.statement_settles fresh braced _ (.ofFunction function)) runs
  rw [same]
  exact (settled.settled rfl).2

end InlineMacro
