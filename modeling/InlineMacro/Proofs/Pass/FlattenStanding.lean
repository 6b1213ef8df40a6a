import InlineMacro.Proofs.Pass.FlattenCalls
import InlineMacro.Proofs.Scope.Recast

/-!
# What a round of flattening makes of the statements in blocks

If each replacement of a round follows a rule, then the round recasts a body by that rule, and what
is made for the statements are the temporaries that the round has made.
-/

set_option autoImplicit false

namespace InlineMacro

namespace Flatten

/-- What a round puts in the places of statements follows a rule, as long as the state has a property
that scopes do not matter for. -/
structure Follows (known : String → Bool) (targets : Association CType) (round : FlattenRound)
    (holds : FlattenState → Prop) (rule : StatementRule Bindings Declaration) : Prop where
  locals : ∀ state locals, holds state → holds { state with locals := locals }
  replaces : ∀ (entry : Statement) (state : FlattenState) (scope : Bindings),
    (entry.isPlain → state.locals.Agrees known scope) → holds state →
    Ensures (replacement targets round entry) state fun replaced after =>
      holds after ∧ ∃ made, after.temporaries = state.temporaries ++ made ∧
        match replaced with
        | none => made = [] ∧ (entry.isPlain → rule scope entry [] [entry])
        | some plain => rule scope entry made plain

/-- The statements of a block and what a round puts in their places. -/
inductive FollowsAll (known : String → Bool) (rule : StatementRule Bindings Declaration) :
    Bindings → List Statement → List (Option (List Statement)) → List Declaration → Prop where
  | nil (scope : Bindings) : FollowsAll known rule scope [] [] []
  | none {scope : Bindings} {entry : Statement} {entries : List Statement}
      {others : List (Option (List Statement))} {made : List Declaration}
      (stays : entry.isPlain → rule scope entry [] [entry])
      (rest : FollowsAll known rule (entry.scopeAfter (.bindings known) scope) entries others made) :
      FollowsAll known rule scope (entry :: entries) (.none :: others) made
  | some {scope : Bindings} {entry : Statement} {entries plain : List Statement}
      {others : List (Option (List Statement))} {own made : List Declaration}
      (isPlain : entry.isPlain) (arePlain : ∀ statement ∈ plain, statement.isPlain)
      (becomes : rule scope entry own plain)
      (rest : FollowsAll known rule scope entries others made) :
      FollowsAll known rule scope (entry :: entries) (.some plain :: others) (own ++ made)

/-- What a round makes of statements: they are recast by the rule, with the temporaries that have been
made meanwhile. -/
def Recasts (known : String → Bool) (holds : FlattenState → Prop)
    (rule : StatementRule Bindings Declaration) (state : FlattenState) (scope : Bindings)
    (entries results : List Statement) (after : FlattenState) : Prop :=
  holds after ∧ ∃ made, after.temporaries.Perm (state.temporaries ++ made) ∧
    Recast (.bindings known) rule scope entries made results

section Round

variable {known : String → Bool} {targets : Association CType} {round : FlattenRound}
  {holds : FlattenState → Prop} {rule : StatementRule Bindings Declaration}

variable {state : FlattenState} {scope : Bindings}

theorem Recasts.append {middle after : FlattenState}
    {first firstResults second secondResults : List Statement}
    (former : Recasts known holds rule state scope first firstResults middle)
    (latter : Recasts known holds rule middle (Statement.listScopeAfter (.bindings known) scope first)
      second secondResults after) :
    Recasts known holds rule state scope (first ++ second) (firstResults ++ secondResults) after := by
  obtain ⟨-, made, temporaries, recast⟩ := former
  obtain ⟨stillHolds, more, temporariesMore, recastMore⟩ := latter
  refine ⟨stillHolds, made ++ more, ?_, recast.append recastMore⟩
  rw [← List.append_assoc]
  exact temporariesMore.trans (temporaries.append_right more)

variable {entry : Statement}

theorem Recasts.around {after : FlattenState} {bodies : List Statement}
    (inside : Recasts known holds rule state (entry.bodyScope (.bindings known) scope) entry.bodies
      bodies after) (notPlain : entry.isPlain = false) (fits : (entry.withBodies bodies).bodies = bodies)
    (sameScope : ∀ scope, (entry.withBodies bodies).scopeAfter (.bindings known) scope =
      entry.scopeAfter (.bindings known) scope) :
    Recasts known holds rule state scope [entry] [entry.withBodies bodies] after := by
  obtain ⟨stillHolds, made, temporaries, recast⟩ := inside
  exact ⟨stillHolds, made, temporaries, .single notPlain recast fits sameScope⟩

theorem Recasts.leaf (before : holds state) (notPlain : entry.isPlain = false) (empty : entry.bodies = []) :
    Recasts known holds rule state scope [entry] [entry] state := by
  have same : entry.withBodies [] = entry := empty ▸ entry.withBodies_bodies
  have inside : Recasts known holds rule state (entry.bodyScope (.bindings known) scope) entry.bodies
      [] state := by
    rw [empty]
    exact ⟨before, [], by simp, .nil _⟩
  have recasts : Recasts known holds rule state scope [entry] [entry.withBodies []] state :=
    inside.around notPlain (by rw [same, empty]) (fun scope => by rw [same])
  rwa [same] at recasts

theorem replacements_follow (sound : Sound known targets round)
    (follows : Follows known targets round holds rule) (entries : List Statement)
    (braced : ∀ entry ∈ entries, entry.Braced) (state : FlattenState) (scope : Bindings)
    (agrees : state.locals.Agrees known scope) (before : holds state) :
    Ensures (replacements targets round entries) state fun replaced after =>
      holds after ∧ ∃ made, after.temporaries = state.temporaries ++ made ∧
        FollowsAll known rule scope entries replaced made := by
  induction entries generalizing state scope with
  | nil => exact ⟨before, [], (List.append_nil _).symm, .nil scope⟩
  | cons entry entries ih =>
    rw [List.forall_mem_cons] at braced
    obtain ⟨entryBraced, others⟩ := braced
    have behind := agrees.declareAll entry.declared
    rw [← entryBraced.scopeAfter_eq (.bindings known)] at behind
    refine Ensures.bindModify ?_
    have inScope : entry.isPlain →
        (state.locals.declareStatement entry).Agrees known scope := by
      intro plain
      simpa [LocalNames.declareStatement_eq, Statement.declared_of_plain plain] using agrees
    refine ((sound entry _ scope inScope).and
      (follows.replaces entry _ scope inScope (follows.locals state _ before))).bind
      fun first middle firstHolds => ?_
    obtain ⟨⟨sameLocals, replaces⟩, stillHolds, made, temporaries, becomes⟩ := firstHolds
    rw [LocalNames.declareStatement_eq] at sameLocals
    change middle.locals = entry.declared.foldl LocalNames.declare state.locals at sameLocals
    refine (ih others middle _ (sameLocals ▸ behind) stillHolds).bind fun rest after restHolds => ?_
    obtain ⟨lastHolds, more, temporariesMore, restFollows⟩ := restHolds
    refine .pure ⟨lastHolds, made ++ more, ?_, ?_⟩
    · rw [temporariesMore, temporaries, List.append_assoc]
    · cases first with
      | none =>
        obtain ⟨rfl, stays⟩ := becomes
        exact .none stays restFollows
      | some plain =>
        obtain ⟨isPlain, arePlain, -⟩ := replaces
        rw [Statement.scopeAfter_of_plain _ _ isPlain] at restFollows
        exact .some isPlain arePlain becomes restFollows

private theorem statements_recast {entries : List Statement}
    {replaced : List (Option (List Statement))} {made : List Declaration}
    (all : FollowsAll known rule scope entries replaced made) (braced : ∀ entry ∈ entries, entry.Braced)
    (each : ∀ entry ∈ entries, ∀ (state : FlattenState) (scope : Bindings),
      state.locals.Agrees known scope → holds state →
        Ensures (statement targets round entry) state fun result after =>
          (Keeps state entry after ∧ Moves known targets round scope entry result) ∧ holds after ∧
            (entry.isPlain → after.temporaries = state.temporaries) ∧ (entry.isPlain = false →
                Recasts known holds rule state scope [entry] [result] after))
    (state : FlattenState) (agrees : state.locals.Agrees known scope) (before : holds state) :
    Ensures (statements targets round replaced entries) state fun results after =>
      holds after ∧ ∃ inside all, after.temporaries.Perm (state.temporaries ++ inside) ∧
        all.Perm (made ++ inside) ∧ Recast (.bindings known) rule scope entries all results := by
  induction all generalizing state with
  | nil scope =>
    rw [statements]
    exact .pure ⟨before, [], [], by simp, by simp, .nil scope⟩
  | @none scope entry entries others names stays rest ih =>
    rw [List.forall_mem_cons] at braced each
    rw [statements]
    · refine (each.1 state scope agrees before).bind fun result middle firstHolds => ?_
      obtain ⟨⟨keeps, moves⟩, stillHolds, unchanged, recasts⟩ := firstHolds
      have behind : middle.locals.Agrees known (entry.scopeAfter (.bindings known) scope) := by
        rw [keeps, braced.1.scopeAfter_eq, braced.1.scopeAfter_eq]
        exact agrees.declareAll entry.declared
      refine (ih braced.2 each.2 middle behind stillHolds).bind fun results after restHolds => ?_
      obtain ⟨lastHolds, inside, all, temporaries, perm, recastRest⟩ := restHolds
      cases plain : entry.isPlain with
      | true =>
        obtain rfl := moves.plain plain
        rw [Statement.scopeAfter_of_plain _ _ plain] at recastRest
        rw [unchanged plain] at temporaries
        exact .pure ⟨lastHolds, inside, all, temporaries, perm,
          .plain plain (stays plain) (by simpa using plain) recastRest⟩
      | false =>
        obtain ⟨-, own, temporariesOwn, recast⟩ := recasts plain
        refine .pure ⟨lastHolds, own ++ inside, own ++ all, ?_, ?_, recast.append recastRest⟩
        · rw [← List.append_assoc]
          exact temporaries.trans (temporariesOwn.append_right inside)
        · exact (perm.append_left own).trans (by
            simpa using (List.perm_append_comm.append_right inside : (own ++ names ++ inside).Perm _))
    · exact fun _ _ impossible => by cases impossible
  | @some scope entry entries plain others own names isPlain arePlain becomes rest ih =>
    rw [List.forall_mem_cons] at braced each
    rw [statements]
    refine (ih braced.2 each.2 state agrees before).bind fun results after restHolds => ?_
    obtain ⟨lastHolds, inside, all, temporaries, perm, recast⟩ := restHolds
    refine .pure ⟨lastHolds, inside, own ++ all, temporaries, ?_, .plain isPlain becomes arePlain recast⟩
    rw [List.append_assoc]
    exact perm.append_left own

theorem statement_recasts (sound : Sound known targets round)
    (follows : Follows known targets round holds rule) (braced : entry.Braced)
    (state : FlattenState) (scope : Bindings) (agrees : state.locals.Agrees known scope)
    (before : holds state) : Ensures (statement targets round entry) state fun result after => holds after ∧
      (entry.isPlain → after.temporaries = state.temporaries) ∧
        (entry.isPlain = false → Recasts known holds rule state scope [entry] [result] after) := by
  induction braced generalizing state scope with
  | expression | returnStatement => exact ⟨before, fun _ => rfl, fun notPlain => by cases notPlain⟩
  | block span entries each ih =>
    have opened := agrees.enter
    rw [statement]
    refine Ensures.bindModify ?_
    refine ((replacements_ensures sound entries each _ _ opened).and (replacements_follow sound
      follows entries each _ _ opened (follows.locals _ _ before))).bind fun replaced middle found => ?_
    obtain ⟨⟨locals, -⟩, stillHolds, made, temporaries, all⟩ := found
    have closed : middle.locals.leave = state.locals :=
      locals ▸ LocalNames.leave_of_tail (Statement.tail_listScopeAfter entries state.locals.enter)
    refine Ensures.bindModify (Ensures.bindModify ?_)
    have inside := fun entry member state scope agrees holds =>
      (statement_ensures sound (each entry member) state scope agrees).and
        (ih entry member state scope agrees holds)
    refine (statements_recast all each inside _ (closed.symm ▸ opened)
      (follows.locals _ _ (follows.locals _ _ stillHolds))).bind fun results after found => ?_
    obtain ⟨lastHolds, inner, total, temporariesInner, perm, recast⟩ := found
    have last := follows.locals _ after.locals.leave lastHolds
    have recasts : Recasts known holds rule state scope [.block span entries] [.block span results]
        { after with locals := after.locals.leave } := by
      refine Recasts.around ⟨last, total, ?_, recast⟩ rfl rfl fun _ => rfl
      have both : after.temporaries.Perm (middle.temporaries ++ inner) := temporariesInner
      rw [temporaries, List.append_assoc] at both
      exact both.trans (perm.symm.append_left _)
    exact .bindModify (.pure ⟨last, fun plain => (by cases plain), fun _ => recasts⟩)
  | declaration | typeDefinition | breakStatement | continueStatement | gotoStatement | empty =>
    exact ⟨follows.locals state _ before, fun _ => rfl,
      fun notPlain => .leaf (follows.locals state _ before) notPlain rfl⟩
  | ifElse span condition thenBranch elseBranch thenBlock elseBlock thenBraced elseBraced thenIh
      elseIh =>
    rw [statement]
    refine ((statement_ensures sound thenBraced state scope agrees).and
      (thenIh state scope agrees before)).bind fun thenResult middle found => ?_
    obtain ⟨⟨keeps, thenMoves⟩, stillHolds, -, thenRecasts⟩ := found
    rw [Keeps, Statement.scopeAfter_of_isBlock _ _ thenBlock] at keeps
    refine ((statement_ensures sound elseBraced middle scope (keeps ▸ agrees)).and
      (elseIh middle scope (keeps ▸ agrees) stillHolds)).bind fun elseResult after found => ?_
    obtain ⟨⟨-, elseMoves⟩, lastHolds, -, elseRecasts⟩ := found
    have first := thenRecasts (Statement.isPlain_of_isBlock thenBlock)
    have second := elseRecasts (Statement.isPlain_of_isBlock elseBlock)
    have sameScope : Statement.listScopeAfter (.bindings known) scope [thenBranch] = scope :=
      Statement.scopeAfter_of_isBlock _ _ thenBlock
    have both := first.append (sameScope.symm ▸ second)
    refine .pure ⟨lastHolds, fun plain => (by cases plain), fun notPlain =>
      both.around notPlain rfl fun around => ?_⟩
    simp only [Statement.withBodies, List.singleton_append, List.headD_cons, List.tail_cons,
      Statement.scopeAfter, thenMoves.scopeAfter thenBraced, elseMoves.scopeAfter elseBraced]
  | forLoop span init condition update body head bodyBlock bodyBraced ih =>
    rw [statement]
    have opened := agrees.enter
    refine Ensures.bindModify ?_
    have initSame : Ensures (statement targets round init)
        { state with locals := state.locals.enter } fun result after => result = init ∧
          after = { state with locals := init.scopeAfter .locals state.locals.enter } := by
      cases head <;> exact ⟨rfl, rfl⟩
    refine initSame.bind fun start middle found => ?_
    obtain ⟨rfl, rfl⟩ := found
    have behind := opened.declareAll start.declared
    rw [← head.braced.scopeAfter_eq (.bindings known)] at behind
    change (start.declared.foldl Scoping.locals.declare state.locals.enter).Agrees _ _ at behind
    rw [← head.braced.scopeAfter_eq .locals] at behind
    refine (ih _ _ behind (follows.locals state _ before)).bind fun result after found => ?_
    obtain ⟨lastHolds, -, recasts⟩ := found
    obtain ⟨-, made, temporaries, recast⟩ := recasts (Statement.isPlain_of_isBlock bodyBlock)
    have last := follows.locals _ after.locals.leave lastHolds
    refine .bindModify (.pure ⟨last, fun plain => (by cases plain), fun notPlain => ?_⟩)
    exact Recasts.around ⟨last, made, temporaries, recast⟩ notPlain rfl fun _ => rfl
  | whileLoop _ _ _ bodyBlock bodyBraced ih | bareLoop _ _ _ _ bodyBlock bodyBraced ih
  | doWhile _ _ _ bodyBlock bodyBraced ih | switch _ _ _ bodyBlock bodyBraced ih =>
    rw [statement]
    refine ((statement_ensures sound bodyBraced state scope agrees).and
      (ih state scope agrees before)).bind fun result after found => ?_
    obtain ⟨⟨-, moves⟩, lastHolds, -, recasts⟩ := found
    exact .pure ⟨lastHolds, fun plain => (by cases plain), fun notPlain =>
      (recasts (Statement.isPlain_of_isBlock bodyBlock)).around notPlain rfl
        fun around => moves.scopeAfter bodyBraced _ around⟩
  | caseLabel _ _ _ marked braced ih | defaultLabel _ _ marked braced ih
  | labelled _ _ _ marked braced ih =>
    rw [statement]
    refine ((statement_ensures sound braced state scope agrees).and
      (ih state scope agrees before)).bind fun result after found => ?_
    obtain ⟨⟨-, moves⟩, lastHolds, -, recasts⟩ := found
    exact .pure ⟨lastHolds, fun plain => (by cases plain), fun notPlain =>
      (recasts (Statement.isPlain_of_isMarked marked)).around notPlain rfl
        fun around => moves.scopeAfter braced _ around⟩

end Round

end Flatten

end InlineMacro
