import InlineMacro.Proofs.Pass.InvocationSites

/-!
# Passes behind flattening write statements anew

Returns and calls of macros make way for simple statements. Besides what stood there these have the
names of pointers and macros, the spellings of tokens, and labels.
-/

set_option autoImplicit false

namespace InlineMacro

open Statement (Rewritten DrawsOn RewrittenAll)

variable {new : Word → Prop}

theorem Statement.DrawsOn.refl {statement : Statement} (simple : statement.isSimple) :
    statement.DrawsOn new statement :=
  ⟨simple, fun _ _ own => own⟩

theorem Statement.DrawsOn.trans {first second third : Statement}
    (former : first.DrawsOn new second) (latter : second.DrawsOn new third) :
    first.DrawsOn new third :=
  ⟨latter.simple, fun rule admits own => latter.obeys rule admits (former.obeys rule admits own)⟩

/-! ## Returns -/

def ReturnReplacement.Draws (new : Word → Prop) (replacement : ReturnReplacement) : Prop :=
  ∀ span value statements, replacement span value = some statements →
    ∀ statement ∈ statements,
      (Statement.returnStatement span value).DrawsOn new statement

theorem storeThrough_draws {pointer : String} (isNew : new (.value pointer)) :
    (storeThrough pointer).Draws new := by
  intro span value statements found
  cases value with
  | none => cases found
  | some value =>
    cases found
    refine List.forall_mem_cons.mpr ⟨.of_expression fun rule admits own => ?_,
      List.forall_mem_singleton.mpr ⟨rfl, fun rule _ _ => Statement.obeys_returnNothing span⟩⟩
    exact Expr.obeys_binary.mpr
      ⟨Expr.obeys_unary.mpr (Expr.obeys_ofName admits isNew), Statement.obeys_return.mp own⟩

theorem jumpTo_draws {label : String} (isNew : new (.label label)) : (jumpTo label).Draws new := by
  intro span value statements found
  have jumps : (Statement.returnStatement span value).DrawsOn new (.gotoStatement span label) :=
    ⟨rfl, fun rule admits _ => Statement.obeys_goto admits isNew span⟩
  cases value with
  | none =>
    cases found
    exact List.forall_mem_singleton.mpr jumps
  | some value =>
    cases found
    exact List.forall_mem_cons.mpr ⟨.of_expression fun rule admits own => Statement.obeys_return.mp own,
        List.forall_mem_singleton.mpr jumps⟩

namespace Statement

theorem rewritten_replaceReturns {replacement : ReturnReplacement}
    (draws : replacement.Draws new) (entry : Statement) :
    Rewritten new false entry [entry.replaceReturns replacement] := by
  induction entry with
  | block span entries ih =>
    rw [replaceReturns]
    refine RewrittenAll.block ?_ span
    induction entries with
    | nil => exact .nil
    | cons entry entries listIh =>
      obtain ⟨here, behind⟩ := List.forall_mem_cons.mp ih
      refine .cons ?_ (listIh behind)
      unfold replacedReturn?
      split
      · next returnSpan value =>
        cases found : replacement returnSpan value with
        | none => exact .kept here
        | some statements => exact .replaced rfl (draws returnSpan value statements found)
      · exact .kept here
  | ifThen span condition thenBranch ih =>
    rw [replaceReturns]
    exact .ifThen span condition ih
  | ifElse span condition thenBranch elseBranch thenIh elseIh =>
    rw [replaceReturns]
    exact .ifElse span condition thenIh elseIh
  | whileLoop span condition body ih =>
    rw [replaceReturns]
    exact .whileLoop span condition ih
  | bareLoop span condition update body ih =>
    rw [replaceReturns]
    exact .bareLoop span condition update ih
  | forLoop span init condition update body initIh bodyIh =>
    rw [replaceReturns]
    exact .forLoop span condition update initIh bodyIh
  | doWhile span body condition ih =>
    rw [replaceReturns]
    exact .doWhile span condition ih
  | switch span subject body ih =>
    rw [replaceReturns]
    exact .switch span subject ih
  | caseLabel span value marked ih =>
    rw [replaceReturns]
    exact .caseLabel span value ih
  | defaultLabel span marked ih =>
    rw [replaceReturns]
    exact .defaultLabel span ih
  | labelled span label marked ih =>
    rw [replaceReturns]
    exact .labelled span label ih
  | expression | declaration | typeDefinition | returnStatement | breakStatement
  | continueStatement | gotoStatement | empty => exact .same _

end Statement

/-! ## Invocations -/

namespace Invoking

variable {expansion : Expansion} {old : List String}

/-- What can stand in invocations besides what stood in the calls. -/
structure Makes (expansion : Expansion) (old : List String) (new : Word → Prop) : Prop where
  macros : ∀ name macroName, expansion.macros.find? name = some macroName → new (.value macroName)
  tokens : ∀ number, Registry.numbered "ns" number ∉ old →
    new (.value (expansion.space (Registry.numbered "ns" number)))

variable (makes : Makes expansion old new)

include makes

theorem token_new (state : InvocationState) (older : old ⊆ state.registry.used) :
    Ensures (token expansion) state fun spelling after =>
      new (.value spelling) ∧ old ⊆ after.registry.used := by
  refine (token_ensures state).mono fun spelling after holds => ?_
  obtain ⟨name, rfl, -, -, numbers⟩ := holds
  obtain ⟨number, rfl⟩ := numbers.numbered name List.mem_cons_self
  refine ⟨makes.tokens number fun stands => ?_, fun _ stands => numbers.mem_used (older stands)⟩
  exact numbers.fresh _ List.mem_cons_self (older stands)

omit makes in
theorem scan_registry (nodes : List Node) (state : InvocationState) :
    Ensures (scan expansion nodes) state fun _ after => after.registry = state.registry := rfl

theorem invoke_draws (call : Expr) (state : InvocationState) (older : old ⊆ state.registry.used) :
    Ensures (invoke expansion call) state fun result after => old ⊆ after.registry.used ∧
      ∀ rule : NameRule, rule.Admits new → call.Obeys rule → result.Obeys rule := by
  unfold invoke
  split
  · next span place name arguments =>
    refine (scan_registry _ state).bind fun _ scanned same => ?_
    rw [← same] at older
    split
    · exact .pure ⟨older, fun _ _ own => own⟩
    · next macroName found =>
      refine (token_new makes scanned older).bind fun spelling after holds => ?_
      obtain ⟨isNew, older⟩ := holds
      refine .pure ⟨older, fun rule admits own => ?_⟩
      have parts := Expr.obeys_call.mp own
      have macroNew := makes.macros name macroName found
      refine Expr.obeys_call.mpr ⟨⟨Node.within_cons.mpr ⟨fun _ stands => ?_, Node.within_nil⟩,
        List.forall_mem_singleton.mpr (admits.use (.called macroName) macroNew)⟩,
        List.forall_mem_cons.mpr ⟨Expr.obeys_ofName admits isNew, fun argument member => ?_⟩⟩
      · rw [List.mem_singleton.mp stands]
        exact admits.word _ macroNew
      · obtain ⟨given, among, rfl⟩ := List.mem_map.mp member
        exact Expr.obeys_protectedArgument (parts.2 given among)
  · exact .pure ⟨older, fun _ _ own => own⟩

variable {entry : Statement}

theorem plain_draws (simple : entry.isSimple) (state : InvocationState)
    (older : old ⊆ state.registry.used) {α : Type} {next : Statement → Invoking α}
    {post : α → InvocationState → Prop} (others : ∀ statement after, old ⊆ after.registry.used →
      entry.DrawsOn new statement → Ensures (next statement) after post) : Ensures (do
      let first ← match invocation? expansion state.locals entry with
        | some call => do
          let call ← invoke expansion call
          pure (entry.replaceTopCall call)
        | none => do
          scan expansion entry.nodes
          pure entry
      next first) state post := by
  cases found : invocation? expansion state.locals entry with
  | none => exact others entry _ older (.refl simple)
  | some call =>
    obtain ⟨isCall, uses, context, isSite, rfl⟩ :=
      Statement.isSite_of_callSite? (invocation?_eq_some found).1
    have invoked := invoke_draws makes call state older
    refine others _ _ invoked.1 ?_
    rw [isSite.replaceTopCall isCall]
    exact ⟨isSite.isSimple _, fun rule admits own =>
      (isSite.obeys own).2 _ (invoked.2 rule admits (isSite.obeys own).1)⟩

omit makes in
theorem placements_draw (entries : List Statement) (locals : LocalNames) :
    List.Forall₂ (Statement.Draws new) entries (placements expansion locals entries) := by
  induction entries generalizing locals with
  | nil => exact .nil
  | cons entry entries ih =>
    refine .cons (fun plain found => ?_) (ih _)
    obtain ⟨position, call, site, -, -, shape⟩ := (placed?_eq_some found).site
    obtain ⟨isCall, uses, context, isSite, rfl⟩ := Statement.isSite_of_callSite? site
    have alone : (context call).DrawsOn new (.expression (context call).span call) :=
      .of_expression fun rule _ own => (isSite.obeys own).1
    refine ⟨isSite.isPlain call, ?_⟩
    rcases shape with rfl | rfl
    · exact List.forall_mem_singleton.mpr alone
    · exact List.forall_mem_cons.mpr ⟨alone, List.forall_mem_singleton.mpr
        ⟨rfl, fun rule _ _ => Statement.obeys_returnNothing _⟩⟩

theorem plainStatements_draw (plain : List Statement)
    (drawn : ∀ statement ∈ plain, entry.DrawsOn new statement) (state : InvocationState)
    (older : old ⊆ state.registry.used) : Ensures (plainStatements expansion plain) state fun results after =>
      old ⊆ after.registry.used ∧ ∀ result ∈ results, entry.DrawsOn new result := by
  induction plain generalizing state with
  | nil => exact .pure ⟨older, fun _ member => absurd member List.not_mem_nil⟩
  | cons first rest ih =>
    rw [List.forall_mem_cons] at drawn
    rw [plainStatements]
    refine .bindGet ?_
    refine plain_draws makes drawn.1.simple state older fun statement middle older draws => ?_
    refine (ih drawn.2 middle older).bind fun results after holds => ?_
    exact .pure ⟨holds.1, List.forall_mem_cons.mpr ⟨drawn.1.trans draws, holds.2⟩⟩

theorem kept_rewritten (state : InvocationState) (older : old ⊆ state.registry.used)
    (inside : ∀ state : InvocationState, old ⊆ state.registry.used →
      Ensures (statement expansion entry) state fun result after =>
        old ⊆ after.registry.used ∧ Rewritten new false entry [result]) :
    Ensures (kept expansion entry) state fun result after =>
      old ⊆ after.registry.used ∧ Rewritten new true entry [result] := by
  unfold kept
  refine .bindModify (.bindGet ?_)
  let opened : InvocationState := { state with locals := state.locals.declareStatement entry }
  cases found : invocation? expansion opened.locals entry with
  | none => exact (inside opened older).mono fun _ _ holds => ⟨holds.1, .kept holds.2⟩
  | some call =>
    obtain ⟨isCall, uses, context, isSite, rfl⟩ :=
      Statement.isSite_of_callSite? (invocation?_eq_some found).1
    refine Ensures.bind (invoke_draws makes call opened older) fun result after holds => ?_
    refine .pure ⟨holds.1, .replaced (isSite.isPlain call) (List.forall_mem_singleton.mpr ?_)⟩
    rw [isSite.replaceTopCall isCall]
    exact ⟨isSite.isSimple _, fun rule admits own =>
      (isSite.obeys own).2 _ (holds.2 rule admits (isSite.obeys own).1)⟩

theorem statements_rewritten {entries : List Statement}
    (each : ∀ entry ∈ entries, ∀ state : InvocationState, old ⊆ state.registry.used →
      Ensures (statement expansion entry) state fun result after =>
        old ⊆ after.registry.used ∧ Rewritten new false entry [result])
    {placed : List (Option (List Statement))}
    (drawn : List.Forall₂ (Statement.Draws new) entries placed) (state : InvocationState)
    (older : old ⊆ state.registry.used) :
    Ensures (statements expansion placed entries) state fun results after =>
      old ⊆ after.registry.used ∧ RewrittenAll new entries results := by
  induction drawn generalizing state with
  | nil =>
    rw [statements]
    exact .pure ⟨older, .nil⟩
  | @cons entry option entries others first _ ih =>
    obtain ⟨here, behind⟩ := List.forall_mem_cons.mp each
    cases option with
    | some plain =>
      rw [statements]
      obtain ⟨isPlain, draws⟩ := first plain rfl
      refine (plainStatements_draw makes plain draws state older).bind
        fun results middle holds => ?_
      refine (ih behind middle holds.1).bind fun more after moreHolds => ?_
      exact .pure ⟨moreHolds.1, .cons (.replaced isPlain holds.2) moreHolds.2⟩
    | none =>
      rw [statements_kept]
      refine (kept_rewritten makes state older here).bind fun result middle holds => ?_
      refine (ih behind middle holds.1).bind fun results after moreHolds => ?_
      exact .pure ⟨moreHolds.1, .cons holds.2 moreHolds.2⟩

omit makes in
theorem declarations_registry (given : List Declaration) (state : InvocationState) :
    Ensures (declarations expansion given) state fun _ after =>
      after.registry = state.registry := by
  induction given generalizing state with
  | nil => exact rfl
  | cons first rest ih =>
    rw [declarations, declaration]
    exact .bindModify ((scan_registry _ _).bind fun _ middle same =>
      (ih middle).mono fun _ after later => later.trans same)

theorem statement_rewritten (entry : Statement) (state : InvocationState)
    (older : old ⊆ state.registry.used) :
    Ensures (statement expansion entry) state fun result after =>
      old ⊆ after.registry.used ∧ Rewritten new false entry [result] := by
  have scanned (nodes : List Node) (state : InvocationState) (older : old ⊆ state.registry.used) :
      Ensures (scan expansion nodes) state fun _ after => old ⊆ after.registry.used :=
    (scan_registry nodes state).mono fun _ after same => same ▸ older
  induction entry generalizing state with
  | block span entries ih =>
    rw [statement]
    refine .bindModify (.bindGet ?_)
    let opened : InvocationState := { state with locals := state.locals.enter }
    refine Ensures.bind (statements_rewritten makes ih
      (placements_draw entries opened.locals) opened older) fun results after holds => ?_
    exact .bindModify (.pure ⟨holds.1, holds.2.block span⟩)
  | declaration span given =>
    rw [statement]
    exact (declarations_registry given state).bind fun _ after same =>
      .pure ⟨same ▸ older, .same _⟩
  | ifThen span condition thenBranch ih =>
    rw [statement]
    refine (scanned _ state older).bind fun _ middle older => ?_
    refine (ih middle older).bind fun result after holds => ?_
    exact .pure ⟨holds.1, .ifThen span condition holds.2⟩
  | ifElse span condition thenBranch elseBranch thenIh elseIh =>
    rw [statement]
    refine (scanned _ state older).bind fun _ first older => ?_
    refine (thenIh first older).bind fun thenResult middle thenHolds => ?_
    refine (elseIh middle thenHolds.1).bind fun elseResult after elseHolds => ?_
    exact .pure ⟨elseHolds.1, .ifElse span condition thenHolds.2 elseHolds.2⟩
  | whileLoop span condition body ih =>
    rw [statement]
    refine (scanned _ state older).bind fun _ middle older => ?_
    refine (ih middle older).bind fun result after holds => ?_
    exact .pure ⟨holds.1, .whileLoop span condition holds.2⟩
  | bareLoop span condition update body ih =>
    rw [statement]
    refine (scanned _ state older).bind fun _ middle older => ?_
    refine (ih middle older).bind fun result after holds => ?_
    exact .pure ⟨holds.1, .bareLoop span condition update holds.2⟩
  | forLoop span init condition update body initIh bodyIh =>
    rw [statement]
    refine .bindModify ?_
    refine (initIh { state with locals := state.locals.enter } older).bind
      fun start first startHolds => ?_
    refine (scanned _ first startHolds.1).bind fun _ middle older => ?_
    refine (bodyIh middle older).bind fun result after holds => ?_
    exact .bindModify (.pure ⟨holds.1, .forLoop span condition update startHolds.2 holds.2⟩)
  | doWhile span body condition ih =>
    rw [statement]
    refine (ih state older).bind fun result middle holds => ?_
    refine (scanned _ middle holds.1).bind fun _ after older => ?_
    exact .pure ⟨older, .doWhile span condition holds.2⟩
  | switch span subject body ih =>
    rw [statement]
    refine (scanned _ state older).bind fun _ middle older => ?_
    refine (ih middle older).bind fun result after holds => ?_
    exact .pure ⟨holds.1, .switch span subject holds.2⟩
  | caseLabel span value marked ih =>
    rw [statement]
    refine (scanned _ state older).bind fun _ middle older => ?_
    refine (ih middle older).bind fun result after holds => ?_
    exact .pure ⟨holds.1, .caseLabel span value holds.2⟩
  | defaultLabel span marked ih =>
    rw [statement]
    refine (ih state older).bind fun result after holds => ?_
    exact .pure ⟨holds.1, .defaultLabel span holds.2⟩
  | labelled span label marked ih =>
    rw [statement]
    refine (ih state older).bind fun result after holds => ?_
    exact .pure ⟨holds.1, .labelled span label holds.2⟩
  | expression | typeDefinition | returnStatement | breakStatement | continueStatement
  | gotoStatement | empty =>
    rw [statement_of_scanned rfl]
    exact (scanned _ state older).bind fun _ after older => .pure ⟨older, .same _⟩

end Invoking

theorem Pass.invokeMacros_rewritten {expansion : Expansion} {function : Function}
    {registry : Registry} (makes : Invoking.Makes expansion registry.used new) {work : Work}
    (runs : (Pass.invokeMacros expansion).run ⟨function, registry⟩ = .ok () work) :
    Rewritten new false function.body [work.function.body] := by
  obtain ⟨-, locals, -, rewritten⟩ := Pass.invokeMacros_ensures
    (Invoking.statement_rewritten makes function.body _ (List.Subset.refl _)) runs
  exact rewritten

/-!
## The form behind the making of invocations

Statements written anew leave blocks where they are. So in a body in which branches and the bodies of
loops are blocks they still are behind it, and loops start as they did.
-/

namespace Statement

theorem braced_of_simple {statement : Statement} (simple : statement.isSimple) : statement.Braced := by
  cases statement with
  | expression span value => exact .expression span value
  | returnStatement span value => exact .returnStatement span value
  | gotoStatement span label => exact .gotoStatement span label
  | _ => cases simple

/-- A statement has the form of another one, with branches and the bodies of loops in blocks. -/
structure BracedAs (entry result : Statement) : Prop where
  same : result.SameForm entry
  braced : result.Braced

/-- A statement inside another one has one result, of its form. In a block it can have others, all
of them braced. -/
def BracedIn (inBlock : Bool) (entry : Statement) (results : List Statement) : Prop :=
  ∀ result ∈ results, result.Braced ∧ (inBlock = false → entry.BracedAs result)

theorem BracedIn.one {entry result : Statement} (bracedIn : BracedIn false entry [result]) :
    entry.BracedAs result :=
  (bracedIn result (List.mem_singleton_self _)).2 rfl

theorem BracedIn.shaped {inBlock : Bool} {entry result : Statement}
    (isBlock : result.isBlock = entry.isBlock) (isMarked : result.isMarked = entry.isMarked)
    (noHead : ¬ entry.IsLoopHead) (braced : result.Braced) : BracedIn inBlock entry [result] :=
  List.forall_mem_singleton.mpr
    ⟨braced, fun _ => ⟨⟨isBlock, isMarked, fun head => (noHead head).elim⟩, braced⟩⟩

theorem Rewritten.bracedIn {inBlock : Bool} {entry : Statement} {results : List Statement}
    (rewritten : Rewritten new inBlock entry results) (braced : entry.Braced) :
    BracedIn inBlock entry results := by
  induction rewritten with
  | same statement => exact List.forall_mem_singleton.mpr ⟨braced, fun _ => ⟨.refl _, braced⟩⟩
  | kept _ ih => exact fun result member => ⟨(ih braced result member).1, nofun⟩
  | replaced plain drawn =>
    exact fun result member => ⟨braced_of_simple (drawn result member).simple, nofun⟩
  | block span pieces each ih =>
    cases braced with
    | block _ _ eachBraced =>
      refine .shaped rfl rfl (by rintro ⟨⟩) (.block span _ fun result member => ?_)
      obtain ⟨piece, among, found⟩ := List.mem_flatMap.mp member
      exact (ih piece among (eachBraced _ (List.mem_map_of_mem among)) result found).1
  | ifThen span condition _ _ => cases braced
  | ifElse span condition _ _ thenIh elseIh =>
    cases braced with
    | ifElse _ _ _ _ thenBlock elseBlock thenBraced elseBraced =>
      have former := (thenIh thenBraced).one
      have latter := (elseIh elseBraced).one
      exact .shaped rfl rfl (by rintro ⟨⟩) (.ifElse span condition _ _
        (former.same.isBlock.trans thenBlock) (latter.same.isBlock.trans elseBlock)
        former.braced latter.braced)
  | whileLoop _ _ _ ih | bareLoop _ _ _ _ ih | doWhile _ _ _ ih | switch _ _ _ ih =>
    cases braced
    next bodyBlock bodyBraced =>
      have body := (ih bodyBraced).one
      refine .shaped rfl rfl (by rintro ⟨⟩) ?_
      constructor
      · exact body.same.isBlock.trans bodyBlock
      · exact body.braced
  | forLoop span condition update _ _ headIh ih =>
    cases braced with
    | forLoop _ _ _ _ _ head bodyBlock bodyBraced =>
      have start := (headIh head.braced).one
      have body := (ih bodyBraced).one
      exact .shaped rfl rfl (by rintro ⟨⟩) (.forLoop span _ condition update _
        (start.same.loopHead head) (body.same.isBlock.trans bodyBlock) body.braced)
  | caseLabel _ _ _ ih | defaultLabel _ _ ih | labelled _ _ _ ih =>
    cases braced
    next isMarked markedBraced =>
      have marked := (ih markedBraced).one
      refine .shaped rfl rfl (by rintro ⟨⟩) ?_
      constructor
      · exact marked.same.isMarked.trans isMarked
      · exact marked.braced

end Statement

theorem Invoking.statement_braced {expansion : Expansion} {entry : Statement}
    (braced : entry.Braced) (state : InvocationState) :
    Ensures (statement expansion entry) state fun result _ => entry.BracedAs result := by
  have makes : Makes expansion [] fun _ => True := ⟨fun _ _ _ => trivial, fun _ _ => trivial⟩
  exact (statement_rewritten makes entry state (List.nil_subset _)).mono fun result _ holds =>
    (holds.2.bracedIn braced).one

theorem Pass.invokeMacros_braced {expansion : Expansion} {function : Function}
    {registry : Registry} (braced : function.body.Braced) {work : Work}
    (runs : (Pass.invokeMacros expansion).run ⟨function, registry⟩ = .ok () work) :
    work.function.body.Braced := by
  obtain ⟨-, locals, form⟩ := Pass.invokeMacros_ensures (Invoking.statement_braced braced _) runs
  exact form.braced

end InlineMacro
