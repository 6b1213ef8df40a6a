import InlineMacro.Pass.Flatten
import InlineMacro.Proofs.Stateful
import InlineMacro.Proofs.Syntax.CallSite

/-!
# Where flattening moves calls

A round of flattening moves the visible calls of targets from one place of a statement to another
and leaves all other calls of known functions where they are. After all rounds each such call that
stood in a statement of a block, as its call or as an argument of it, is a whole statement.
-/

set_option autoImplicit false

namespace InlineMacro

def FlattenRound.placeFrom : FlattenRound → UsePlace → UsePlace
  | assignResults, .call _ => .call .assigned
  | hoistArguments, .argument => .call .assigned
  | passAddresses, .call .assigned => .call .whole
  | _, place => place

namespace Flatten

def callsTarget (targets : Association CType) (occurrence : Occurrence Bindings) : Bool :=
  match occurrence.use with
  | .called name => targets.contains name && !occurrence.scope.hides name
  | .mentioned _ => false

def moved (targets : Association CType) (round : FlattenRound) (occurrence : Occurrence Bindings) :
    Occurrence Bindings :=
  if occurrence.inBlock && callsTarget targets occurrence then
    { occurrence with place := round.placeFrom occurrence.place }
  else occurrence

section Rounds

variable (known : String → Bool) (targets : Association CType) (round : FlattenRound)

def Replaces (scope : Bindings) (entry : Statement) : Option (List Statement) → Prop
  | none => entry.isPlain → (entry.calls known true scope).Perm
    ((entry.calls known true scope).map (moved targets round))
  | some plain => entry.isPlain ∧ (∀ statement ∈ plain, statement.isPlain) ∧
    (Statement.listCalls known scope plain).Perm
      ((entry.calls known true scope).map (moved targets round))

def ReplacesAll : Bindings → List Statement → List (Option (List Statement)) → Prop
  | _, [], _ => True
  | _, _ :: _, [] => False
  | scope, entry :: entries, replaced :: others =>
    Replaces known targets round scope entry replaced ∧
      ReplacesAll (entry.scopeAfter (.bindings known) scope) entries others

/-- A statement behind a round: it has the calls of the statement before, moved. -/
structure Moves (scope : Bindings) (entry result : Statement) : Prop where
  braced : result.Braced
  sameForm : result.SameForm entry
  declared : result.declared = entry.declared
  plain : entry.isPlain → result = entry
  notPlain : entry.isPlain = false → result.isPlain = false
  calls : (result.calls known false scope).Perm
    ((entry.calls known false scope).map (moved targets round))

end Rounds

variable {known : String → Bool} {targets : Association CType} {round : FlattenRound}

theorem moved_of_outside {occurrence : Occurrence Bindings} (outside : occurrence.inBlock = false) :
    moved targets round occurrence = occurrence := by
  simp [moved, outside]

theorem map_moved_of_outside {occurrences : List (Occurrence Bindings)}
    (outside : ∀ occurrence ∈ occurrences, occurrence.inBlock = false) :
    (Occurrence.callsAmong known occurrences).map (moved targets round) =
      Occurrence.callsAmong known occurrences := by
  refine (List.map_congr_left fun occurrence member => ?_).trans (List.map_id _)
  exact moved_of_outside (outside occurrence (List.mem_filter.mp member).1)

@[simp] theorem map_moved_elsewhereAt (scope : Bindings) (uses : List Use) :
    (Occurrence.callsAmong known (Occurrence.elsewhereAt scope uses)).map (moved targets round) =
      Occurrence.callsAmong known (Occurrence.elsewhereAt scope uses) := by
  refine map_moved_of_outside fun occurrence member => ?_
  obtain ⟨use, -, rfl⟩ := List.mem_map.mp member
  rfl

@[simp] theorem map_moved_placedAt (scope : Bindings) (uses : List (Use × UsePlace)) :
    (Occurrence.callsAmong known (Occurrence.placedAt scope false uses)).map (moved targets round) =
      Occurrence.callsAmong known (Occurrence.placedAt scope false uses) := by
  refine map_moved_of_outside fun occurrence member => ?_
  obtain ⟨use, -, rfl⟩ := List.mem_map.mp member
  rfl

theorem map_moved_declarations (scope : Bindings) (declarations : List Declaration) :
    (Occurrence.callsAmong known (Declaration.listOccurrences (.bindings known) scope declarations)).map
        (moved targets round) = Occurrence.callsAmong known
        (Declaration.listOccurrences (.bindings known) scope declarations) := by
  induction declarations generalizing scope with
  | nil => rfl
  | cons first rest ih =>
    simp only [Declaration.listOccurrences, Declaration.occurrences, Occurrence.callsAmong_append,
      List.map_append, map_moved_elsewhereAt, ih]

variable {entry : Statement}

theorem Moves.leaf {scope : Bindings} (head : entry.IsLoopHead) :
    Moves known targets round scope entry entry where
  braced := head.braced
  sameForm := .refl entry
  declared := rfl
  plain _ := rfl
  notPlain := id
  calls := by
    cases head with
    | expression span value => simp [Statement.calls, Statement.occurrences]
    | declaration span declarations =>
      simp [Statement.calls, Statement.occurrences, map_moved_declarations]
    | typeDefinition span type => simp [Statement.calls, Statement.occurrences]

theorem Moves.returned {scope : Bindings} (span : Span) (value : Option Expr) :
    Moves known targets round scope (.returnStatement span value)
      (.returnStatement span value) where
  braced := .returnStatement span value
  sameForm := .refl _
  declared := rfl
  plain _ := rfl
  notPlain := id
  calls := by simp [Statement.calls, Statement.occurrences]

/-! ## A round over a body -/

def Keeps (state : FlattenState) (entry : Statement) (after : FlattenState) : Prop :=
  after.locals = entry.scopeAfter .locals state.locals

def Sound (known : String → Bool) (targets : Association CType) (round : FlattenRound) : Prop :=
  ∀ (entry : Statement) (state : FlattenState) (scope : Bindings),
    (entry.isPlain → state.locals.Agrees known scope) →
    Ensures (replacement targets round entry) state fun replaced after =>
      after.locals = state.locals ∧ Replaces known targets round scope entry replaced

theorem replacements_ensures (sound : Sound known targets round) (entries : List Statement)
    (braced : ∀ entry ∈ entries, entry.Braced) (state : FlattenState) (scope : Bindings)
    (agrees : state.locals.Agrees known scope) :
    Ensures (replacements targets round entries) state fun replaced after =>
      after.locals = Statement.listScopeAfter .locals state.locals entries ∧
        ReplacesAll known targets round scope entries replaced := by
  induction entries generalizing state scope with
  | nil => exact ⟨rfl, trivial⟩
  | cons entry entries ih =>
    have entryBraced := braced entry (by simp)
    have others : ∀ other ∈ entries, other.Braced := fun other member =>
      braced other (by simp [member])
    have behind := agrees.declareAll entry.declared
    rw [← entryBraced.scopeAfter_eq (.bindings known)] at behind
    refine Ensures.bindModify ?_
    refine (sound entry _ scope ?_).bind fun first middle firstHolds => ?_
    · intro plain
      simpa [LocalNames.declareStatement_eq, Statement.declared_of_plain plain] using agrees
    obtain ⟨sameLocals, replaces⟩ := firstHolds
    rw [LocalNames.declareStatement_eq] at sameLocals
    change middle.locals = entry.declared.foldl LocalNames.declare state.locals at sameLocals
    refine (ih others middle _ (sameLocals ▸ behind)).bind fun rest after restHolds => ?_
    obtain ⟨restLocals, restReplaces⟩ := restHolds
    refine .pure ⟨?_, replaces, restReplaces⟩
    rw [restLocals, sameLocals]
    change _ = Statement.listScopeAfter _ (entry.scopeAfter .locals state.locals) entries
    rw [entryBraced.scopeAfter_eq]
    rfl

variable {result : Statement}

theorem Moves.compound {scope : Bindings} (braced : result.Braced)
    (sameForm : result.SameForm entry) (compound : entry.isCompound) (stillCompound : result.isCompound)
    (calls : (result.calls known false scope).Perm
      ((entry.calls known false scope).map (moved targets round))) :
    Moves known targets round scope entry result where
  braced := braced
  sameForm := sameForm
  declared := by rw [Statement.declared_of_compound compound,
    Statement.declared_of_compound stillCompound]
  plain isPlain := by rw [Statement.not_plain_of_compound compound] at isPlain; cases isPlain
  notPlain _ := Statement.not_plain_of_compound stillCompound
  calls := calls

theorem Moves.scopeAfter {scope : Bindings}
    (moves : Moves known targets round scope entry result) (braced : entry.Braced)
    {σ : Type} (scoping : Scoping σ) (around : σ) :
    result.scopeAfter scoping around = entry.scopeAfter scoping around := by
  rw [moves.braced.scopeAfter_eq, braced.scopeAfter_eq, moves.declared]

theorem Moves.callsInBlock {scope : Bindings} (moves : Moves known targets round scope entry result)
    (kept : Replaces known targets round scope entry none) : (result.calls known true scope).Perm
      ((entry.calls known true scope).map (moved targets round)) := by
  cases plain : entry.isPlain with
  | true =>
    rw [moves.plain plain]
    exact kept plain
  | false =>
    have calls := moves.calls
    rwa [Statement.calls, Statement.calls, ← Statement.occurrences_of_not_plain _ (moves.notPlain plain) true,
      ← Statement.occurrences_of_not_plain _ plain true] at calls

/-- What is known behind a round over the statements of a block. -/
structure MovesAll (known : String → Bool) (targets : Association CType) (round : FlattenRound)
    (scope : Bindings) (entries result : List Statement) : Prop where
  braced : ∀ statement ∈ result, statement.Braced
  calls : (Statement.listCalls known scope result).Perm
    ((Statement.listCalls known scope entries).map (moved targets round))

private theorem foldl_scopeAfter_plain (scope : Bindings) (plain : List Statement)
    (isPlain : ∀ statement ∈ plain, statement.isPlain) :
    plain.foldl (Statement.scopeAfter (.bindings known)) scope = scope := by
  induction plain with
  | nil => rfl
  | cons first rest ih =>
    rw [List.foldl_cons, Statement.scopeAfter_of_plain _ _ (isPlain first (by simp))]
    exact ih fun statement member => isPlain statement (by simp [member])

private theorem statements_ensures {entries : List Statement} (braced : ∀ entry ∈ entries, entry.Braced)
    (each : ∀ entry ∈ entries, ∀ (state : FlattenState) (scope : Bindings),
      state.locals.Agrees known scope → Ensures (statement targets round entry) state
        fun result after => Keeps state entry after ∧ Moves known targets round scope entry result)
    (replaced : List (Option (List Statement))) (state : FlattenState) (scope : Bindings)
    (agrees : state.locals.Agrees known scope)
    (replaces : ReplacesAll known targets round scope entries replaced) :
    Ensures (statements targets round replaced entries) state fun result after =>
      after.locals = Statement.listScopeAfter .locals state.locals entries ∧
        MovesAll known targets round scope entries result := by
  induction entries generalizing replaced state scope with
  | nil =>
    rw [statements]
    exact .pure ⟨rfl, fun _ member => absurd member List.not_mem_nil, .refl _⟩
  | cons entry entries ih =>
    have othersBraced : ∀ other ∈ entries, other.Braced := fun other member =>
      braced other (by simp [member])
    have othersEach := fun other (member : other ∈ entries) => each other (by simp [member])
    have entryBraced := braced entry (by simp)
    cases replaced with
    | nil => cases replaces
    | cons option others =>
      obtain ⟨first, rest⟩ := replaces
      cases option with
      | some plain =>
        obtain ⟨isPlain, arePlain, calls⟩ := first
        rw [Statement.scopeAfter_of_plain _ _ isPlain] at rest
        refine (ih othersBraced othersEach others state scope agrees rest).bind
          fun result after holds => ?_
        obtain ⟨locals, movesAll⟩ := holds
        refine .pure ⟨?_, ?_, ?_⟩
        · rw [locals]
          change _ = Statement.listScopeAfter _ (entry.scopeAfter .locals state.locals) entries
          rw [Statement.scopeAfter_of_plain _ _ isPlain]
        · intro statement member
          rcases List.mem_append.mp member with member | member
          · exact Statement.braced_of_plain (arePlain statement member)
          · exact movesAll.braced statement member
        · rw [Statement.listCalls_append, foldl_scopeAfter_plain scope plain arePlain,
            Statement.listCalls_cons, List.map_append, Statement.scopeAfter_of_plain _ _ isPlain]
          exact calls.append movesAll.calls
      | none =>
        refine (each entry (by simp) state scope agrees).bind fun result middle firstHolds => ?_
        obtain ⟨keeps, moves⟩ := firstHolds
        have behind : middle.locals.Agrees known (entry.scopeAfter (.bindings known) scope) := by
          rw [keeps, entryBraced.scopeAfter_eq, entryBraced.scopeAfter_eq]
          exact agrees.declareAll entry.declared
        refine (ih othersBraced othersEach others middle _ behind rest).bind
          fun results after holds => ?_
        obtain ⟨locals, movesAll⟩ := holds
        refine .pure ⟨?_, ?_, ?_⟩
        · rw [locals, keeps]
          rfl
        · intro statement member
          rcases List.mem_cons.mp member with rfl | member
          · exact moves.braced
          · exact movesAll.braced statement member
        · rw [Statement.listCalls_cons, Statement.listCalls_cons, List.map_append,
            moves.scopeAfter entryBraced]
          exact (moves.callsInBlock first).append movesAll.calls

theorem statement_ensures (sound : Sound known targets round)
    (braced : entry.Braced) (state : FlattenState) (scope : Bindings)
    (agrees : state.locals.Agrees known scope) :
    Ensures (statement targets round entry) state fun result after =>
      Keeps state entry after ∧ Moves known targets round scope entry result := by
  induction braced generalizing state scope with
  | expression span value => exact ⟨rfl, .leaf (.expression span value)⟩
  | block span entries each ih =>
    have opened := agrees.enter
    rw [statement]
    refine Ensures.bindModify ?_
    refine (replacements_ensures sound entries each _ _ opened).bind fun replaced middle holds => ?_
    obtain ⟨locals, replaces⟩ := holds
    have closed : middle.locals.leave = state.locals :=
      locals ▸ LocalNames.leave_of_tail (Statement.tail_listScopeAfter entries state.locals.enter)
    refine Ensures.bindModify (Ensures.bindModify ?_)
    refine (statements_ensures each ih replaced _ _ (closed.symm ▸ opened) replaces).bind
      fun result after holds => ?_
    obtain ⟨locals, movesAll⟩ := holds
    refine .bindModify (.pure ⟨?_, ?_⟩)
    · rw [Keeps, locals, closed]
      exact LocalNames.leave_of_tail (Statement.tail_listScopeAfter entries state.locals.enter)
    · exact .compound (.block span result movesAll.braced) ⟨rfl, rfl, fun head => by cases head⟩
        rfl rfl movesAll.calls
  | declaration span declarations => exact ⟨rfl, .leaf (.declaration span declarations)⟩
  | typeDefinition span type => exact ⟨rfl, .leaf (.typeDefinition span type)⟩
  | ifElse span condition thenBranch elseBranch thenBlock elseBlock thenBraced elseBraced thenIh
      elseIh =>
    rw [statement]
    refine (thenIh state scope agrees).bind fun thenResult middle thenHolds => ?_
    obtain ⟨thenKeeps, thenMoves⟩ := thenHolds
    rw [Keeps, Statement.scopeAfter_of_isBlock _ _ thenBlock] at thenKeeps
    refine (elseIh middle scope (thenKeeps ▸ agrees)).bind fun elseResult after elseHolds => ?_
    obtain ⟨elseKeeps, elseMoves⟩ := elseHolds
    rw [Keeps, Statement.scopeAfter_of_isBlock _ _ elseBlock] at elseKeeps
    have thenStays := thenMoves.sameForm.isBlock.trans thenBlock
    have elseStays := elseMoves.sameForm.isBlock.trans elseBlock
    refine .pure ⟨?_, .compound ?_ ⟨rfl, rfl, fun head => by cases head⟩ rfl rfl ?_⟩
    · simp only [Keeps, Statement.scopeAfter, Statement.scopeAfter_of_isBlock _ _ thenBlock,
        Statement.scopeAfter_of_isBlock _ _ elseBlock, elseKeeps, thenKeeps]
    · exact .ifElse span condition _ _ thenStays elseStays thenMoves.braced elseMoves.braced
    · simp only [Statement.calls, Statement.occurrences, Occurrence.callsAmong_append,
        List.map_append, map_moved_elsewhereAt, Statement.scopeAfter_of_isBlock _ _ thenBlock,
        Statement.scopeAfter_of_isBlock _ _ thenStays]
      exact (thenMoves.calls.append elseMoves.calls).append_left _
  | whileLoop _ _ _ bodyBlock _ ih | bareLoop _ _ _ _ bodyBlock _ ih | switch _ _ _ bodyBlock _ ih =>
    rw [statement]
    refine (ih state scope agrees).bind fun result after holds => ?_
    obtain ⟨keeps, moves⟩ := holds
    have stays := moves.sameForm.isBlock.trans bodyBlock
    refine .pure ⟨keeps, .compound ?_ ⟨rfl, rfl, fun head => by cases head⟩ rfl rfl ?_⟩
    · constructor
      · exact stays
      · exact moves.braced
    · simp only [Statement.calls, Statement.occurrences, Occurrence.callsAmong_append,
        List.map_append, map_moved_elsewhereAt]
      exact moves.calls.append_left _
  | forLoop span init condition update body head bodyBlock bodyBraced ih =>
    rw [statement]
    have opened := agrees.enter
    refine Ensures.bindModify ?_
    have initSame : Ensures (statement targets round init)
        { state with locals := state.locals.enter } fun result after =>
          result = init ∧ after.locals = init.scopeAfter .locals state.locals.enter := by
      cases head <;> exact ⟨rfl, rfl⟩
    refine initSame.bind fun start middle holds => ?_
    obtain ⟨rfl, initLocals⟩ := holds
    have behind := opened.declareAll start.declared
    rw [← head.braced.scopeAfter_eq (.bindings known)] at behind
    change (start.declared.foldl Scoping.locals.declare state.locals.enter).Agrees _ _ at behind
    rw [← head.braced.scopeAfter_eq .locals, ← initLocals] at behind
    refine (ih middle _ behind).bind fun result after holds => ?_
    obtain ⟨keeps, moves⟩ := holds
    have stays := moves.sameForm.isBlock.trans bodyBlock
    refine .bindModify (.pure ⟨?_, .compound ?_ ⟨rfl, rfl, fun head => by cases head⟩ rfl rfl ?_⟩)
    · rw [Keeps, keeps, initLocals, Statement.scopeAfter_of_isBlock _ _ bodyBlock]
      exact LocalNames.leave_of_tail (start.tail_scopeAfter state.locals.enter)
    · exact .forLoop span start condition update result head stays moves.braced
    · have startMoves : Moves known targets round ((Scoping.bindings known).enter scope) start start :=
        .leaf head
      simp only [Statement.calls, Statement.occurrences, Occurrence.callsAmong_append,
        List.map_append, map_moved_elsewhereAt]
      exact startMoves.calls.append (moves.calls.append_left _)
  | doWhile span body condition bodyBlock bodyBraced ih =>
    rw [statement]
    refine (ih state scope agrees).bind fun result after holds => ?_
    obtain ⟨keeps, moves⟩ := holds
    have stays := moves.sameForm.isBlock.trans bodyBlock
    refine .pure ⟨keeps, .compound ?_ ⟨rfl, rfl, fun head => by cases head⟩ rfl rfl ?_⟩
    · exact .doWhile span result condition stays moves.braced
    · simp only [Statement.calls, Statement.occurrences, Occurrence.callsAmong_append,
        List.map_append, map_moved_elsewhereAt, Statement.scopeAfter_of_isBlock _ _ bodyBlock,
        Statement.scopeAfter_of_isBlock _ _ stays]
      exact moves.calls.append_right _
  | caseLabel span value labelled marked labelledBraced ih =>
    rw [statement]
    refine (ih state scope agrees).bind fun result after holds => ?_
    obtain ⟨keeps, moves⟩ := holds
    have stays := moves.sameForm.isMarked.trans marked
    refine .pure ⟨keeps, .compound ?_ ⟨rfl, rfl, fun head => by cases head⟩ rfl rfl ?_⟩
    · exact .caseLabel span value result stays moves.braced
    · simp only [Statement.calls, Statement.occurrences, Occurrence.callsAmong_append,
        List.map_append, map_moved_elsewhereAt]
      exact moves.calls.append_left _
  | defaultLabel span labelled marked labelledBraced ih =>
    rw [statement]
    refine (ih state scope agrees).bind fun result after holds => ?_
    obtain ⟨keeps, moves⟩ := holds
    have stays := moves.sameForm.isMarked.trans marked
    refine .pure ⟨keeps, .compound ?_ ⟨rfl, rfl, fun head => by cases head⟩ rfl rfl ?_⟩
    · exact .defaultLabel span result stays moves.braced
    · exact moves.calls
  | labelled span label labelled marked labelledBraced ih =>
    rw [statement]
    refine (ih state scope agrees).bind fun result after holds => ?_
    obtain ⟨keeps, moves⟩ := holds
    have stays := moves.sameForm.isMarked.trans marked
    refine .pure ⟨keeps, .compound ?_ ⟨rfl, rfl, fun head => by cases head⟩ rfl rfl ?_⟩
    · exact .labelled span label result stays moves.braced
    · exact moves.calls
  | returnStatement span value =>
    exact ⟨rfl, .returned span value⟩
  | breakStatement | continueStatement | gotoStatement | empty =>
    exact ⟨rfl, .compound (by constructor) (.refl _) rfl rfl (.refl _)⟩

/-! ## The uses of a plain statement -/

section Uses

variable (known : String → Bool) (targets : Association CType) (round : FlattenRound)
  (scope : Bindings)

def knownCalls (uses : List (Use × UsePlace)) : List (Use × UsePlace) :=
  uses.filter fun placed => placed.1.isCallOf known

def movedUse (placed : Use × UsePlace) : Use × UsePlace :=
  match placed.1 with
  | .called name =>
    if targets.contains name && !scope.hides name then (placed.1, round.placeFrom placed.2)
    else placed
  | .mentioned _ => placed

end Uses

variable {scope : Bindings}

theorem moved_placed (placed : Use × UsePlace) : moved targets round ⟨placed.1, placed.2, true, scope⟩ =
      ⟨(movedUse targets round scope placed).1, (movedUse targets round scope placed).2, true, scope⟩ := by
  obtain ⟨use, place⟩ := placed
  cases use with
  | mentioned name => simp [moved, callsTarget, movedUse]
  | called name =>
    simp only [moved, callsTarget, movedUse, Bool.true_and]
    split <;> rfl

theorem movedUse_fst (placed : Use × UsePlace) : (movedUse targets round scope placed).1 = placed.1 := by
  unfold movedUse
  split
  · split <;> rfl
  · rfl

theorem knownCalls_map_movedUse (uses : List (Use × UsePlace)) :
    knownCalls known (uses.map (movedUse targets round scope)) =
      (knownCalls known uses).map (movedUse targets round scope) := by
  rw [knownCalls, List.filter_map]
  simp only [Function.comp_def, movedUse_fst]
  rfl

theorem callsAmong_placedAt (inBlock : Bool) (uses : List (Use × UsePlace)) :
    Occurrence.callsAmong known (Occurrence.placedAt scope inBlock uses) =
      Occurrence.placedAt scope inBlock (knownCalls known uses) := by
  rw [Occurrence.callsAmong, Occurrence.placedAt, List.filter_map]
  rfl

theorem map_moved_calls (plain : entry.isPlain) :
    (entry.calls known true scope).map (moved targets round) = Occurrence.placedAt scope true
        ((knownCalls known entry.ownUses).map (movedUse targets round scope)) := by
  rw [Statement.calls, Statement.occurrences_of_plain _ plain, callsAmong_placedAt,
    Occurrence.placedAt, Occurrence.placedAt, List.map_map, List.map_map]
  exact List.map_congr_left fun placed _ => moved_placed placed

theorem listCalls_of_plain (plain : List Statement) (arePlain : ∀ statement ∈ plain, statement.isPlain) :
    Statement.listCalls known scope plain =
      Occurrence.placedAt scope true (knownCalls known (plain.flatMap Statement.ownUses)) := by
  induction plain with
  | nil => rfl
  | cons first rest ih =>
    have isPlain := arePlain first (by simp)
    rw [Statement.listCalls_cons, Statement.scopeAfter_of_plain _ _ isPlain,
      ih fun statement member => arePlain statement (by simp [member]), Statement.calls,
      Statement.occurrences_of_plain _ isPlain, callsAmong_placedAt, List.flatMap_cons]
    simp [Occurrence.placedAt, knownCalls]

theorem Replaces.of_uses {plain : List Statement} (isPlain : entry.isPlain)
    (arePlain : ∀ statement ∈ plain, statement.isPlain)
    (uses : (knownCalls known (plain.flatMap Statement.ownUses)).Perm
      ((knownCalls known entry.ownUses).map (movedUse targets round scope))) :
    Replaces known targets round scope entry (some plain) := by
  refine ⟨isPlain, arePlain, ?_⟩
  rw [map_moved_calls isPlain, listCalls_of_plain plain arePlain]
  exact uses.map _

theorem Replaces.none_of_uses (uses : (knownCalls known entry.ownUses).Perm
      ((knownCalls known entry.ownUses).map (movedUse targets round scope))) :
    Replaces known targets round scope entry none := by
  intro isPlain
  rw [map_moved_calls isPlain, Statement.calls, Statement.occurrences_of_plain _ isPlain, callsAmong_placedAt]
  exact uses.map _

theorem Replaces.stays (unmoved : ∀ placed ∈ entry.ownUses, movedUse targets round scope placed = placed) :
    Replaces known targets round scope entry none := by
  refine .none_of_uses (List.Perm.of_eq ?_)
  refine ((List.map_congr_left fun placed member => ?_).trans (List.map_id _)).symm
  exact unmoved placed (List.mem_filter.mp member).1

/-! ## The first round -/

variable {placed : Use × UsePlace}

theorem movedUse_elsewhere (elsewhere : placed.2 = .elsewhere) :
    movedUse targets round scope placed = placed := by
  obtain ⟨use, place⟩ := placed
  cases elsewhere
  cases use with
  | mentioned name => rfl
  | called name =>
    have same : round.placeFrom .elsewhere = .elsewhere := by cases round <;> rfl
    simp [movedUse, same]

theorem map_movedUse_elsewhere (uses : List Use) :
    (Use.elsewhere uses).map (movedUse targets round scope) = Use.elsewhere uses := by
  refine (List.map_congr_left fun placed member => ?_).trans (List.map_id _)
  obtain ⟨use, -, rfl⟩ := List.mem_map.mp member
  exact movedUse_elsewhere rfl

theorem movedUse_of_place (same : round.placeFrom placed.2 = placed.2) :
    movedUse targets round scope placed = placed := by
  obtain ⟨use, place⟩ := placed
  cases use with
  | mentioned name => rfl
  | called name =>
    simp only at same
    simp [movedUse, same]

theorem movedUse_of_not_target {name : String} {place : UsePlace}
    (notTarget : (targets.contains name && !scope.hides name) = false) :
    movedUse targets round scope (.called name, place) = (.called name, place) := by
  simp only [movedUse, notTarget]
  rfl

theorem targetOf?_eq (covers : ∀ name, targets.contains name → known name) {state : FlattenState}
    (agrees : state.locals.Agrees known scope) (call : Expr) : targetOf? targets state call =
      call.callee?.filter fun name => targets.contains name && !scope.hides name := by
  unfold targetOf?
  cases call.callee? with
  | none => rfl
  | some name =>
    cases isTarget : targets.contains name with
    | false => simp [Option.filter, isTarget]
    | true => simp [Option.filter, isTarget, agrees.contains_eq (covers name isTarget)]

theorem map_movedUse_eq_self {uses : List (Use × UsePlace)}
    (stay : ∀ placed ∈ uses, movedUse targets round scope placed = placed) :
    uses.map (movedUse targets round scope) = uses :=
  (List.map_congr_left stay).trans (List.map_id _)

theorem movedUse_of_argument (same : round.placeFrom .argument = .argument) {arguments : List Expr}
    (member : placed ∈ Expr.listPlacedUses .argument arguments) :
    movedUse targets round scope placed = placed := by
  rcases Expr.place_of_mem_listPlacedUses arguments member with here | here | here
  · exact movedUse_of_place (by rw [here, same])
  · exact movedUse_of_place (by rw [here]; exact same)
  · exact movedUse_elsewhere here

variable {position : CallPosition}

theorem movedUse_of_other_call (same : round.placeFrom .argument = .argument) {value : Expr}
    (other : value.callee?.filter (fun name => targets.contains name && !scope.hides name) = none)
    (member : placed ∈ value.placedUses (.call position)) : movedUse targets round scope placed = placed := by
  cases value with
  | call span function arguments =>
    rw [Expr.placedUses_call, List.mem_append] at member
    rcases member with member | member
    · unfold Expr.placedCalleeUses at member
      cases named : function.identifier? with
      | none =>
        rw [named] at member
        obtain ⟨use, -, rfl⟩ := List.mem_map.mp member
        exact movedUse_elsewhere rfl
      | some name =>
        rw [named, List.mem_singleton] at member
        subst member
        rw [Expr.callee?, named] at other
        exact movedUse_of_not_target (by simpa using other)
    · exact movedUse_of_argument same member
  | _ =>
    rw [Expr.placedUses_of_not_call rfl] at member
    obtain ⟨use, -, rfl⟩ := List.mem_map.mp member
    exact movedUse_elsewhere rfl

theorem temporary_ensures (callee : String) (state : FlattenState) :
    Ensures (temporary targets callee) state fun _ after => after.locals = state.locals := rfl

@[simp] theorem knownCalls_append (first second : List (Use × UsePlace)) :
    knownCalls known (first ++ second) = knownCalls known first ++ knownCalls known second :=
  List.filter_append ..

@[simp] theorem knownCalls_mentioned (name : String) :
    knownCalls known (Use.elsewhere [.mentioned name]) = [] := rfl

variable {call : Expr}

theorem map_movedUse_assignResults {callee : String} (calls : call.callee? = some callee)
    (isTarget : (targets.contains callee && !scope.hides callee) = true) (position : CallPosition) :
    (call.placedUses (.call position)).map (movedUse targets .assignResults scope) =
      call.placedUses (.call .assigned) := by
  obtain ⟨span, function, arguments, rfl, named, placed⟩ := Expr.placedUses_of_callee? calls
  rw [placed, placed, List.map_cons]
  congr 1
  · simp only [movedUse, isTarget, if_true, FlattenRound.placeFrom]
  · exact map_movedUse_eq_self fun use member => movedUse_of_argument rfl member

theorem afterCall_uses (known : String → Bool) {uses : List Use} {context : Expr → Statement}
    (isSite : Statement.IsSite position uses context) (isCall : call.isCall) (name : String) :
    (∀ statement ∈ afterCall name position (context call), statement.isPlain) ∧
      knownCalls known ((afterCall name position (context call)).flatMap Statement.ownUses) =
        knownCalls known (Use.elsewhere uses) := by
  cases position with
  | assigned | returned =>
    have left := isSite.ownUses_ofName (by simp) name
    simp only [afterCall, isSite.replaceTopCall isCall, List.mem_singleton, forall_eq,
      List.flatMap_cons, List.flatMap_nil, List.append_nil, left]
    exact ⟨isSite.isPlain _, by simp⟩
  | whole | thrownAway =>
    rw [isSite.uses_eq_nil (by simp)]
    exact ⟨fun _ member => absurd member List.not_mem_nil, rfl⟩

theorem assignResult_sound (covers : ∀ name, targets.contains name → known name) :
    Sound known targets .assignResults := by
  intro entry state scope agrees
  change Ensures (assignResult targets entry) state _
  unfold assignResult
  refine .bindGet ?_
  cases site : entry.callSite? with
  | none =>
    refine .pure ⟨rfl, .stays ?_⟩
    rintro ⟨use, place⟩ member
    cases use with
    | mentioned name => rfl
    | called name =>
      exact movedUse_elsewhere (Statement.elsewhere_of_callSite?_eq_none site member)
  | some found =>
    obtain ⟨position, call⟩ := found
    obtain ⟨isCall, uses, context, isSite, rfl⟩ := Statement.isSite_of_callSite? site
    simp only [targetOf?_eq covers (agrees (isSite.isPlain call))]
    cases target : call.callee?.filter fun name => targets.contains name && !scope.hides name with
    | none =>
      refine .pure ⟨rfl, .stays fun placed member => ?_⟩
      rw [isSite.ownUses isCall, List.mem_append] at member
      rcases member with member | member
      · obtain ⟨use, -, rfl⟩ := List.mem_map.mp member
        exact movedUse_elsewhere rfl
      · exact movedUse_of_other_call rfl target member
    | some callee =>
      obtain ⟨calls, isTarget⟩ := Option.filter_eq_some_iff.mp target
      obtain ⟨span, function, arguments, rfl, named, placed⟩ := Expr.placedUses_of_callee? calls
      dsimp only
      split
      · next settled =>
        refine .pure ⟨rfl, .stays fun use member => ?_⟩
        rw [isSite.ownUses isCall, placed, List.mem_append, List.mem_cons] at member
        have isAssigned : position = .assigned := by simp_all
        rcases member with member | rfl | member
        · obtain ⟨use, -, rfl⟩ := List.mem_map.mp member
          exact movedUse_elsewhere rfl
        · exact movedUse_of_place (by rw [isAssigned]; rfl)
        · exact movedUse_of_argument rfl member
      · refine (temporary_ensures callee state).bind fun name after sameLocals => ?_
        obtain ⟨leftPlain, leftCalls⟩ :=
          afterCall_uses known isSite isCall name
        refine .pure ⟨sameLocals, .of_uses (isSite.isPlain _) ?_ ?_⟩
        · intro statement member
          rcases List.mem_cons.mp member with rfl | member
          · rfl
          · exact leftPlain statement member
        · rw [List.flatMap_cons, knownCalls_append, leftCalls, ← knownCalls_map_movedUse,
            isSite.ownUses isCall, List.map_append, map_movedUse_elsewhere,
            map_movedUse_assignResults calls isTarget, knownCalls_append]
          refine List.Perm.trans ?_ List.perm_append_comm
          refine List.Perm.append_right _ (List.Perm.of_eq ?_)
          change knownCalls known (Use.elsewhere [.mentioned name] ++ _) = _
          rw [knownCalls_append, knownCalls_mentioned, List.nil_append]

/-! ## The third round -/

theorem movedUse_passAddresses {uses : List (Use × UsePlace)}
    (other : position ≠ .assigned) (isCall : uses = call.placedUses (.call position))
    (member : placed ∈ uses) : movedUse targets .passAddresses scope placed = placed := by
  subst isCall
  rcases call.place_of_mem_placedUses member with here | here | here
  · refine movedUse_of_place ?_
    rw [here]
    cases position <;> first | rfl | exact absurd rfl other
  · exact movedUse_of_place (by rw [here]; rfl)
  · exact movedUse_elsewhere here

theorem passAddress_stays (other : ∀ place span left callSpan function arguments, entry ≠
      .expression place (.binary span .assign left (.call callSpan function arguments)))
    (member : placed ∈ entry.ownUses) : movedUse targets .passAddresses scope placed = placed := by
  cases site : entry.callSite? with
  | none =>
    obtain ⟨use, place⟩ := placed
    cases use with
    | mentioned name => rfl
    | called name =>
      exact movedUse_elsewhere (Statement.elsewhere_of_callSite?_eq_none site member)
  | some found =>
    obtain ⟨position, call⟩ := found
    obtain ⟨isCall, uses, context, isSite, rfl⟩ := Statement.isSite_of_callSite? site
    rw [isSite.ownUses isCall, List.mem_append] at member
    rcases member with member | member
    · obtain ⟨use, -, rfl⟩ := List.mem_map.mp member
      exact movedUse_elsewhere rfl
    · refine movedUse_passAddresses ?_ rfl member
      rintro rfl
      cases isSite with
      | assigned place span left =>
        cases call with
        | call callSpan function arguments =>
          exact other place span left callSpan function arguments rfl
        | _ => cases isCall

theorem passAddress_sound (covers : ∀ name, targets.contains name → known name) :
    Sound known targets .passAddresses := by
  intro entry state scope agrees
  change Ensures (passAddress targets entry) state _
  unfold passAddress
  refine .bindGet ?_
  split
  · next place span left callSpan function arguments =>
    have isSite := Statement.IsSite.assigned place span left
    simp only [targetOf?_eq covers (agrees rfl)]
    cases target : (Expr.call callSpan function arguments).callee?.filter fun name =>
      targets.contains name && !scope.hides name with
    | none =>
      refine .pure ⟨rfl, .stays fun placed member => ?_⟩
      rw [isSite.ownUses rfl, List.mem_append] at member
      rcases member with member | member
      · obtain ⟨use, -, rfl⟩ := List.mem_map.mp member
        exact movedUse_elsewhere rfl
      · exact movedUse_of_other_call rfl target member
    | some callee =>
      obtain ⟨calls, isTarget⟩ := Option.filter_eq_some_iff.mp target
      refine .pure ⟨rfl, .of_uses rfl (by simp [Statement.isPlain]) ?_⟩
      obtain ⟨_, _, _, same, named, placed⟩ := Expr.placedUses_of_callee? calls
      cases same
      have passed : (Statement.expression place
          (.call callSpan function (.addressOf left :: arguments))).ownUses =
          (.called callee, .call .whole) ::
            (Use.elsewhere left.uses ++ Expr.listPlacedUses .argument arguments) := by
        change (Expr.call callSpan function (.addressOf left :: arguments)).placedUses _ = _
        rw [Expr.placedUses_call, Expr.placedCalleeUses, named]
        rfl
      have moves : movedUse targets .passAddresses scope (.called callee, .call .assigned) =
          (.called callee, .call .whole) := by
        simp only [movedUse, isTarget, if_true, FlattenRound.placeFrom]
      have stay : (Expr.listPlacedUses (UsePlace.ofArguments (.call .assigned)) arguments).map
          (movedUse targets .passAddresses scope) = Expr.listPlacedUses .argument arguments :=
        map_movedUse_eq_self fun use member => movedUse_of_argument rfl member
      rw [List.flatMap_singleton, passed, ← knownCalls_map_movedUse, isSite.ownUses rfl, placed,
        List.map_append, map_movedUse_elsewhere, List.map_cons, moves, stay]
      exact (List.perm_middle).symm.filter _
  · next other =>
    exact .pure ⟨rfl, .stays fun placed member => passAddress_stays other member⟩

/-! ## The second round -/

/-- What the second round makes of an argument or of several: statements that are moved in front of
it, and what is left. -/
structure Hoists (known : String → Bool) (targets : Association CType) (scope : Bindings)
    (before : List (Use × UsePlace)) (hoisted : List Statement)
    (left : List (Use × UsePlace)) : Prop where
  plain : ∀ statement ∈ hoisted, statement.isPlain
  uses : (knownCalls known (hoisted.flatMap Statement.ownUses ++ left)).Perm
    ((knownCalls known before).map (movedUse targets .hoistArguments scope))

theorem Hoists.nothing (uses : List Use) :
    Hoists known targets scope (Use.elsewhere uses) [] (Use.elsewhere uses) where
  plain _ member := absurd member List.not_mem_nil
  uses := by
    rw [← knownCalls_map_movedUse, map_movedUse_elsewhere]
    exact .refl _

variable {before left : List (Use × UsePlace)} {hoisted : List Statement}

theorem Hoists.append {before' left' : List (Use × UsePlace)}
    {hoisted' : List Statement} (first : Hoists known targets scope before hoisted left)
    (others : Hoists known targets scope before' hoisted' left') :
    Hoists known targets scope (before ++ before') (hoisted ++ hoisted') (left ++ left') where
  plain statement member := by
    rcases List.mem_append.mp member with member | member
    · exact first.plain statement member
    · exact others.plain statement member
  uses := by
    have both := first.uses.append others.uses
    simp only [List.flatMap_append, knownCalls_append, List.map_append] at both ⊢
    refine List.Perm.trans ?_ both
    simp only [List.append_assoc]
    refine List.Perm.append_left _ ?_
    simp only [← List.append_assoc]
    exact List.Perm.append_right _ List.perm_append_comm

theorem Hoists.underCall
    (arguments : Hoists known targets scope before hoisted left) {callee : List (Use × UsePlace)}
    (stays : callee.map (movedUse targets .hoistArguments scope) = callee) :
    Hoists known targets scope (callee ++ before) hoisted (callee ++ left) where
  plain := arguments.plain
  uses := by
    have calls := arguments.uses
    simp only [knownCalls_append, List.map_append] at calls ⊢
    rw [← knownCalls_map_movedUse, stays]
    refine List.Perm.trans ?_ (calls.append_left _)
    simp only [← List.append_assoc]
    exact List.Perm.append_right _ List.perm_append_comm

theorem Hoists.beside (call : Hoists known targets scope before hoisted left) (uses : List Use) :
    Hoists known targets scope (Use.elsewhere uses ++ before) hoisted (Use.elsewhere uses ++ left) :=
  call.underCall (map_movedUse_elsewhere uses)

theorem Hoists.ofTarget (arguments : Hoists known targets scope before hoisted left) {callee name : String}
    (isTarget : (targets.contains callee && !scope.hides callee) = true) {assignment : Statement}
    (plain : assignment.isPlain) (uses : assignment.ownUses =
      Use.elsewhere [.mentioned name] ++ ((.called callee, .call .assigned) :: left)) :
    Hoists known targets scope ((.called callee, .argument) :: before) (hoisted ++ [assignment])
      (Use.elsewhere [.mentioned name]) where
  plain statement member := by
    rcases List.mem_append.mp member with member | member
    · exact arguments.plain statement member
    · rw [List.mem_singleton.mp member]
      exact plain
  uses := by
    have moves : movedUse targets .hoistArguments scope (.called callee, .argument) =
        (.called callee, .call .assigned) := by
      simp only [movedUse, isTarget, if_true, FlattenRound.placeFrom]
    have calls := arguments.uses
    rw [← knownCalls_map_movedUse, knownCalls_append] at calls
    have apart : ∀ others : List (Use × UsePlace),
        knownCalls known ((.called callee, .call .assigned) :: others) =
          knownCalls known [(.called callee, .call .assigned)] ++ knownCalls known others :=
      fun others => knownCalls_append [_] others
    simp only [← knownCalls_map_movedUse, List.map_cons, moves, List.flatMap_append,
      List.flatMap_singleton, uses, knownCalls_append, knownCalls_mentioned, List.append_nil,
      List.nil_append]
    rw [apart left, apart (before.map _)]
    exact (List.perm_append_comm_assoc _ _ _).trans (calls.append_left _)

mutual

theorem hoistFrom_ensures (covers : ∀ name, targets.contains name → known name) :
    ∀ (argument : Expr) (state : FlattenState), state.locals.Agrees known scope →
      Ensures (hoistFrom targets argument) state fun result after =>
        after.locals = state.locals ∧ (result.1 = [] → result.2 = argument) ∧
          Hoists known targets scope (argument.placedUses .argument) result.1 (result.2.placedUses .argument)
  | .call span function arguments => by
    intro state agrees
    rw [hoistFrom]
    refine .bindGet ?_
    rw [targetOf?_eq covers agrees]
    cases target : (Expr.call span function arguments).callee?.filter fun name =>
      targets.contains name && !scope.hides name with
    | none =>
      refine (hoistFromList_ensures covers arguments state agrees).bind fun result after holds => ?_
      obtain ⟨sameLocals, unchanged, hoists⟩ := holds
      refine .pure ⟨sameLocals, fun nothing => by rw [unchanged nothing], ?_⟩
      rw [Expr.placedUses_call, Expr.placedUses_call]
      refine hoists.underCall (map_movedUse_eq_self fun placed member => ?_)
      unfold Expr.placedCalleeUses at member
      cases named : function.identifier? with
      | none =>
        rw [named] at member
        obtain ⟨use, -, rfl⟩ := List.mem_map.mp member
        exact movedUse_elsewhere rfl
      | some name =>
        rw [named, List.mem_singleton] at member
        subst member
        rw [Expr.callee?, named] at target
        exact movedUse_of_not_target (by simpa using target)
    | some callee =>
      obtain ⟨calls, isTarget⟩ := Option.filter_eq_some_iff.mp target
      refine (temporary_ensures callee state).bind fun name middle temporaryLocals => ?_
      refine (hoistFromList_ensures covers arguments middle (temporaryLocals ▸ agrees)).bind
        fun result after holds => ?_
      obtain ⟨sameLocals, unchanged, hoists⟩ := holds
      refine .pure ⟨sameLocals.trans temporaryLocals, fun nothing => by simp at nothing, ?_⟩
      have named : function.identifier? = some callee := calls
      rw [Expr.placedUses_call, Expr.placedCalleeUses, named]
      refine hoists.ofTarget isTarget rfl ?_
      change Use.elsewhere [.mentioned name] ++
        (Expr.call span function result.2).placedUses (.call .assigned) = _
      rw [Expr.placedUses_call, Expr.placedCalleeUses, named]
      rfl
  | .intLiteral .. | .floatLiteral .. | .charLiteral .. | .stringLiteral .. | .identifier ..
  | .binary .. | .unary .. | .member .. | .conditional .. | .cast .. | .sizeofExpr ..
  | .sizeofType .. | .compoundLiteral .. | .comma .. | .typeArgument .. =>
    fun state _ => ⟨rfl, fun _ => rfl, .nothing _⟩

theorem hoistFromList_ensures (covers : ∀ name, targets.contains name → known name) :
    ∀ (arguments : List Expr) (state : FlattenState), state.locals.Agrees known scope →
      Ensures (hoistFromList targets arguments) state fun result after =>
        after.locals = state.locals ∧ (result.1 = [] → result.2 = arguments) ∧
          Hoists known targets scope (Expr.listPlacedUses .argument arguments) result.1
            (Expr.listPlacedUses .argument result.2)
  | [] => fun state _ => ⟨rfl, fun _ => rfl, fun _ member => absurd member List.not_mem_nil, .refl _⟩
  | argument :: arguments => by
    intro state agrees
    rw [hoistFromList]
    refine (hoistFrom_ensures covers argument state agrees).bind fun first middle holds => ?_
    obtain ⟨firstLocals, firstSame, firstHoists⟩ := holds
    refine (hoistFromList_ensures covers arguments middle (firstLocals ▸ agrees)).bind
      fun others after holds => ?_
    obtain ⟨othersLocals, othersSame, othersHoists⟩ := holds
    refine .pure ⟨othersLocals.trans firstLocals, ?_, ?_⟩
    · intro nothing
      obtain ⟨firstNothing, othersNothing⟩ := List.append_eq_nil_iff.mp nothing
      rw [firstSame firstNothing, othersSame othersNothing]
    · exact firstHoists.append othersHoists

end

theorem hoistArguments_sound (covers : ∀ name, targets.contains name → known name) :
    Sound known targets .hoistArguments := by
  intro entry state scope agrees
  change Ensures (hoistArguments targets entry) state _
  unfold hoistArguments
  cases site : entry.callSite? with
  | none =>
    simp only [Statement.topCall?, site, Option.map_none]
    refine .pure ⟨rfl, .stays ?_⟩
    rintro ⟨use, place⟩ member
    cases use with
    | mentioned name => rfl
    | called name =>
      exact movedUse_elsewhere (Statement.elsewhere_of_callSite?_eq_none site member)
  | some found =>
    obtain ⟨position, call⟩ := found
    obtain ⟨isCall, uses, context, isSite, rfl⟩ := Statement.isSite_of_callSite? site
    cases call with
    | call span function arguments =>
      simp only [Statement.topCall?, site, Option.map_some]
      refine (hoistFromList_ensures covers arguments state (agrees (isSite.isPlain _))).bind
        fun result after holds => ?_
      obtain ⟨sameLocals, unchanged, hoists⟩ := holds
      -- The call itself stays, only its arguments change.
      have callee : ((function.placedCalleeUses (.call position)).map
          (movedUse targets .hoistArguments scope)) =
          function.placedCalleeUses (.call position) := by
        refine map_movedUse_eq_self fun placed member => ?_
        unfold Expr.placedCalleeUses at member
        cases named : function.identifier? with
        | none =>
          rw [named] at member
          obtain ⟨use, -, rfl⟩ := List.mem_map.mp member
          exact movedUse_elsewhere rfl
        | some name =>
          rw [named, List.mem_singleton] at member
          subst member
          exact movedUse_of_place rfl
      have ownUses : ∀ others, (context (.call span function others)).ownUses =
          Use.elsewhere uses ++ (function.placedCalleeUses (.call position) ++
            Expr.listPlacedUses .argument others) := by
        intro others
        rw [isSite.ownUses rfl, Expr.placedUses_call]
        rfl
      have whole := (hoists.underCall callee).beside uses
      rw [← ownUses, ← ownUses] at whole
      split
      · next nothing =>
        have empty := List.isEmpty_iff.mp nothing
        rw [empty, unchanged empty] at whole
        exact .pure ⟨sameLocals, .none_of_uses whole.uses⟩
      · refine .pure ⟨sameLocals, .of_uses (isSite.isPlain _) ?_ ?_⟩
        · intro statement member
          rcases List.mem_append.mp member with member | member
          · exact whole.plain statement member
          · rw [List.mem_singleton.mp member, isSite.replaceTopCall isCall]
            exact isSite.isPlain _
        · rw [isSite.replaceTopCall isCall, List.flatMap_append, List.flatMap_singleton]
          exact whole.uses
    | _ => cases isCall

end Flatten

end InlineMacro
