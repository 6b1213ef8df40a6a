import InlineMacro.Proofs.Pass.FlattenStanding
import InlineMacro.Proofs.Pass.HoistingLoop
import InlineMacro.Proofs.Run.Success

/-!
# Calls before and after flattening

What becomes of each call of a target: the statement that stands for it behind all rounds passes the
address of a temporary and, behind that, the old arguments, in which further calls of targets have
given way to their temporaries.
-/

set_option autoImplicit false

namespace InlineMacro

def Expr.resultObject (targets : Association CType) (call : Expr) (name : String) : Declaration :=
  .ofVariable name (((call.callee?.bind targets.find?).map CType.valueType).getD (.basic .int))

/-- A call of a target, the temporary for its result, and what is left of its arguments. -/
structure FlattenedCall where
  scope : Bindings
  span : Span
  function : Expr
  arguments : List Expr
  temporary : String
  passed : List Expr

namespace FlattenedCall

def before (call : FlattenedCall) : Expr := .call call.span call.function call.arguments

def assigned (call : FlattenedCall) : Expr :=
  .assignment (.ofName call.temporary) (.call call.span call.function call.passed)

def after (call : FlattenedCall) : Expr :=
  .call call.span call.function (.addressOf (.ofName call.temporary) :: call.passed)

def object (targets : Association CType) (call : FlattenedCall) : Declaration :=
  call.before.resultObject targets call.temporary

end FlattenedCall

namespace Flatten

variable (targets : Association CType)

def reaches (scope : Bindings) (call : Expr) : Bool :=
  call.callee?.any fun name => targets.contains name && !scope.hides name

def reachedCalls (standing : List (Bindings × Statement)) : List (Bindings × Expr) :=
  standing.flatMap fun site =>
    (site.2.positionedCalls.filter (reaches targets site.1)).map (Prod.mk site.1)

def callStatements (standing : List (Bindings × Statement)) : List (Bindings × Expr) :=
  standing.filterMap fun site =>
    match site.2 with
    | .expression _ call => if reaches targets site.1 call then some (site.1, call) else none
    | _ => none

end Flatten

open Flatten (reaches reachedCalls callStatements)

/-- An argument and what is left of it: a visible call of a target has given way to the temporary
that takes its result, and other calls have such arguments. -/
inductive Expr.Lowered (targets : Association CType) (scope : Bindings)
    (taken : Expr → String → Prop) : Expr → Expr → Prop where
  | temporary {call : Expr} {name : String} (isTarget : reaches targets scope call)
      (isTaken : taken call name) : Lowered targets scope taken call (.ofName name)
  | call (span : Span) (function : Expr) (arguments : List (Expr × Expr))
      (other : reaches targets scope (.call span function (arguments.map Prod.fst)) = false)
      (each : ∀ argument ∈ arguments, Lowered targets scope taken argument.1 argument.2) :
      Lowered targets scope taken (.call span function (arguments.map Prod.fst))
        (.call span function (arguments.map Prod.snd))
  | other {argument : Expr} (noCall : argument.isCall = false) :
      Lowered targets scope taken argument argument

namespace Flatten

variable {targets : Association CType} {known : String → Bool} {scope : Bindings} {state : FlattenState}

theorem targetOf?_isSome (covers : ∀ name, targets.contains name → known name)
    (agrees : state.locals.Agrees known scope) (call : Expr) :
    (targetOf? targets state call).isSome = reaches targets scope call := by
  rw [targetOf?_eq covers agrees, reaches]
  cases call.callee? with
  | none => rfl
  | some name =>
    simp only [Option.filter, Option.any_some]
    split <;> simp_all

theorem isCall_of_reaches {call : Expr} (isTarget : reaches targets scope call) : call.isCall := by
  cases call with
  | call => rfl
  | _ => cases isTarget

/-! ## The rules of the rounds -/

def AssignsNew (new : String → Prop) (statement : Statement) : Prop :=
  ∃ place span nameSpan name right, new name ∧ statement =
    .expression place (.binary span .assign (.identifier nameSpan name) right)

/-- In the first round the visible call of a target is assigned to a temporary. -/
inductive AssignsResult (targets : Association CType) (new : String → Prop) :
    StatementRule Bindings Declaration where
  | stays {scope : Bindings} {entry : Statement}
      (settled : ∀ position call, entry.callSite? = some (position, call) →
        reaches targets scope call → AssignsNew new entry) :
      AssignsResult targets new scope entry [] [entry]
  | assigned {scope : Bindings} {position : CallPosition} {uses : List Use}
      {context : Expr → Statement} (site : Statement.IsSite position uses context) {call : Expr}
      (isTarget : reaches targets scope call) (name : String) :
      AssignsResult targets new scope (context call) [call.resultObject targets name]
        (.expression (context call).span (.assignment (.ofName name) call) ::
          afterCall name position (context call))

/-- What an argument is left as, and the calls that have been taken out of it, those in the
arguments of a call before the call. -/
inductive Lowers (targets : Association CType) (scope : Bindings) :
    Expr → List FlattenedCall → Expr → Prop where
  | target (span : Span) (function : Expr) (pieces : List (Expr × List FlattenedCall × Expr))
      (temporary : String)
      (isTarget : reaches targets scope (.call span function (pieces.map (·.1))))
      (each : ∀ piece ∈ pieces, Lowers targets scope piece.1 piece.2.1 piece.2.2) :
      Lowers targets scope (.call span function (pieces.map (·.1)))
        (pieces.flatMap (·.2.1) ++
          [⟨scope, span, function, pieces.map (·.1), temporary, pieces.map (·.2.2)⟩])
        (.ofName temporary)
  | call (span : Span) (function : Expr) (pieces : List (Expr × List FlattenedCall × Expr))
      (other : reaches targets scope (.call span function (pieces.map (·.1))) = false)
      (each : ∀ piece ∈ pieces, Lowers targets scope piece.1 piece.2.1 piece.2.2) :
      Lowers targets scope (.call span function (pieces.map (·.1))) (pieces.flatMap (·.2.1))
        (.call span function (pieces.map (·.2.2)))
  | other {argument : Expr} (noCall : argument.isCall = false) :
      Lowers targets scope argument [] argument

def LowersAll (targets : Association CType) (scope : Bindings) (arguments : List Expr)
    (lowered : List FlattenedCall) (passed : List Expr) : Prop :=
  ∃ pieces : List (Expr × List FlattenedCall × Expr), pieces.map (·.1) = arguments ∧
    pieces.flatMap (·.2.1) = lowered ∧ pieces.map (·.2.2) = passed ∧
      ∀ piece ∈ pieces, Lowers targets scope piece.1 piece.2.1 piece.2.2

/-- In the second round the calls among the arguments are moved to the front. -/
inductive HoistsArguments (targets : Association CType) : StatementRule Bindings Declaration where
  | stays {scope : Bindings} {entry : Statement} (noCall : entry.callSite? = none) :
      HoistsArguments targets scope entry [] [entry]
  | hoisted {scope : Bindings} {position : CallPosition} {uses : List Use}
      {context : Expr → Statement} (site : Statement.IsSite position uses context) (span : Span)
      (function : Expr) {arguments passed : List Expr} {lowered : List FlattenedCall}
      {made : List Declaration} (temporaries : made.Perm (lowered.map (FlattenedCall.object targets)))
      (lowers : LowersAll targets scope arguments lowered passed) :
      HoistsArguments targets scope (context (.call span function arguments)) made
        (lowered.map (fun call => .ofExpr call.assigned) ++ [context (.call span function passed)])

/-- In the third round an assigned call of a target passes the address of what is assigned. -/
inductive PassesAddress (targets : Association CType) : StatementRule Bindings Declaration where
  | stays {scope : Bindings} {entry : Statement}
      (other : ∀ place span left call, entry = .expression place (.binary span .assign left call) →
        reaches targets scope call = false) :
      PassesAddress targets scope entry [] [entry]
  | passed {scope : Bindings} (place span : Span) (left : Expr) (callSpan : Span)
      (function : Expr) (arguments : List Expr)
      (isTarget : reaches targets scope (.call callSpan function arguments)) :
      PassesAddress targets scope
        (.expression place (.binary span .assign left (.call callSpan function arguments))) []
        [.expression place (.call callSpan function (.addressOf left :: arguments))]

/-! ## The rounds follow their rules -/

theorem callee?_of_targetOf? {call : Expr} {callee : String}
    (target : targetOf? targets state call = some callee) : call.callee? = some callee :=
  (Option.filter_eq_some_iff.mp target).1

theorem temporary_made {registry : Registry} {callee : String} {call : Expr}
    (target : targetOf? targets state call = some callee) (before : Temporaries targets registry state) :
    Ensures (temporary targets callee) state fun name after =>
      after.locals = state.locals ∧ Temporaries targets registry after ∧
        after.temporaries = state.temporaries ++ [call.resultObject targets name] := by
  refine ⟨rfl, (temporaries_invariant targets registry).temporary state callee
    (contains_of_targetOf? target) before, ?_⟩
  unfold Expr.resultObject
  rw [callee?_of_targetOf? target]
  rfl

variable {entry : Statement}

theorem assignsNew_of_assignsTemporary {registry : Registry} (before : Temporaries targets registry state)
    (assigns : assignsTemporary state entry) : AssignsNew (· ∉ registry.used) entry := by
  unfold assignsTemporary at assigns
  split at assigns
  · next place span left right =>
    cases left with
    | identifier nameSpan name =>
      obtain ⟨temporary, member, same⟩ := List.any_eq_true.mp assigns
      rw [beq_iff_eq] at same
      refine ⟨place, span, nameSpan, name, right, ?_, rfl⟩
      exact before.issues.fresh name (same ▸ List.mem_map_of_mem member)
    | _ => cases assigns
  · cases assigns

theorem assignResult_follows (covers : ∀ name, targets.contains name → known name)
    (registry : Registry) :
    Follows known targets .assignResults (Temporaries targets registry)
      (AssignsResult targets (· ∉ registry.used)) where
  locals := (temporaries_invariant targets registry).locals
  replaces := by
    intro entry state scope agrees before
    change Ensures (assignResult targets entry) state _
    unfold assignResult
    refine .bindGet ?_
    cases site : entry.callSite? with
    | none =>
      refine .pure ⟨before, [], (List.append_nil _).symm, rfl, fun _ => .stays ?_⟩
      intro position call found
      rw [site] at found
      cases found
    | some found =>
      obtain ⟨position, call⟩ := found
      obtain ⟨isCall, uses, context, isSite, rfl⟩ := Statement.isSite_of_callSite? site
      have reached := targetOf?_isSome covers (agrees (isSite.isPlain call)) call
      dsimp only
      cases target : targetOf? targets state call with
      | none =>
        refine .pure ⟨before, [], (List.append_nil _).symm, rfl, fun _ => .stays ?_⟩
        intro position other found isTarget
        rw [site] at found
        cases found
        rw [isTarget, target] at reached
        cases reached
      | some callee =>
        dsimp only
        split
        · next settled =>
          refine .pure ⟨before, [], (List.append_nil _).symm, rfl, fun _ => .stays ?_⟩
          intro _ _ _ _
          rw [Bool.and_eq_true] at settled
          exact assignsNew_of_assignsTemporary before settled.2
        · refine (temporary_made target before).bind
            fun name after found => ?_
          obtain ⟨-, still, made⟩ := found
          refine .pure ⟨still, _, made, .assigned isSite ?_ name⟩
          rw [← reached, target]
          rfl

/-! ### The second round -/

section Lowers

theorem LowersAll.nil : LowersAll targets scope [] [] [] :=
  ⟨[], rfl, rfl, rfl, fun _ member => absurd member List.not_mem_nil⟩

variable {arguments passed : List Expr} {lowered : List FlattenedCall}

theorem LowersAll.cons {argument left : Expr}
    {others : List FlattenedCall} (first : Lowers targets scope argument lowered left)
    (rest : LowersAll targets scope arguments others passed) :
    LowersAll targets scope (argument :: arguments) (lowered ++ others) (left :: passed) := by
  obtain ⟨pieces, rfl, rfl, rfl, each⟩ := rest
  exact ⟨(argument, lowered, left) :: pieces, rfl, rfl, rfl, List.forall_mem_cons.mpr ⟨first, each⟩⟩

theorem LowersAll.target {span : Span} {function : Expr}
    (all : LowersAll targets scope arguments lowered passed)
    (isTarget : reaches targets scope (.call span function arguments)) (temporary : String) :
    Lowers targets scope (.call span function arguments)
      (lowered ++ [⟨scope, span, function, arguments, temporary, passed⟩]) (.ofName temporary) := by
  obtain ⟨pieces, rfl, rfl, rfl, each⟩ := all
  exact .target span function pieces temporary isTarget each

theorem LowersAll.call {span : Span} {function : Expr}
    (all : LowersAll targets scope arguments lowered passed)
    (other : reaches targets scope (.call span function arguments) = false) :
    Lowers targets scope (.call span function arguments) lowered (.call span function passed) := by
  obtain ⟨pieces, rfl, rfl, rfl, each⟩ := all
  exact .call span function pieces other each

end Lowers

/-- What the second round makes of arguments: the calls that have been taken out are assigned to the
temporaries that have been made. -/
def HoistsCalls {α : Type} (targets : Association CType) (registry : Registry)
    (lowers : List FlattenedCall → α → Prop) (state : FlattenState)
    (result : List Statement × α) (after : FlattenState) : Prop :=
  after.locals = state.locals ∧ Temporaries targets registry after ∧
    ∃ lowered made, after.temporaries = state.temporaries ++ made ∧
      made.Perm (lowered.map (FlattenedCall.object targets)) ∧
        result.1 = lowered.map (fun call => .ofExpr call.assigned) ∧ lowers lowered result.2

mutual

theorem hoistFrom_hoists (covers : ∀ name, targets.contains name → known name)
    (registry : Registry) : ∀ (argument : Expr) (state : FlattenState),
      state.locals.Agrees known scope → Temporaries targets registry state →
        Ensures (hoistFrom targets argument) state
          (HoistsCalls targets registry (Lowers targets scope argument) state)
  | .call span function arguments => by
    intro state agrees before
    rw [hoistFrom]
    refine .bindGet ?_
    have reached := targetOf?_isSome covers agrees (.call span function arguments)
    cases target : targetOf? targets state (.call span function arguments) with
    | none =>
      rw [target] at reached
      refine (hoistFromList_hoists covers registry arguments state agrees before).bind
        fun result after found => ?_
      obtain ⟨locals, still, lowered, own, made, perm, same, all⟩ := found
      exact .pure ⟨locals, still, lowered, own, made, perm, same, all.call reached.symm⟩
    | some callee =>
      rw [target] at reached
      refine (temporary_made target before).bind fun name middle found => ?_
      obtain ⟨firstLocals, still, made⟩ := found
      refine (hoistFromList_hoists covers registry arguments middle (firstLocals ▸ agrees) still).bind
        fun result after found => ?_
      obtain ⟨locals, last, lowered, own, madeMore, perm, same, all⟩ := found
      refine .pure ⟨locals.trans firstLocals, last, _,
        (Expr.call span function arguments).resultObject targets name :: own, ?_, ?_, ?_,
        all.target reached.symm name⟩
      · rw [madeMore, made, List.append_assoc]
        rfl
      · rw [List.map_append]
        exact (perm.cons _).trans (List.perm_append_singleton _ _).symm
      · rw [List.map_append, same]
        rfl
  | .intLiteral .. | .floatLiteral .. | .charLiteral .. | .stringLiteral .. | .identifier ..
  | .binary .. | .unary .. | .member .. | .conditional .. | .cast .. | .sizeofExpr ..
  | .sizeofType .. | .compoundLiteral .. | .comma .. | .typeArgument .. =>
    fun _ _ before => ⟨rfl, before, [], [], (List.append_nil _).symm, .refl _, rfl, .other rfl⟩

theorem hoistFromList_hoists (covers : ∀ name, targets.contains name → known name)
    (registry : Registry) : ∀ (arguments : List Expr) (state : FlattenState),
      state.locals.Agrees known scope → Temporaries targets registry state →
        Ensures (hoistFromList targets arguments) state
          (HoistsCalls targets registry (LowersAll targets scope arguments) state)
  | [] => fun _ _ before =>
    ⟨rfl, before, [], [], (List.append_nil _).symm, .refl _, rfl, .nil⟩
  | argument :: arguments => by
    intro state agrees before
    rw [hoistFromList]
    refine (hoistFrom_hoists covers registry argument state agrees before).bind
      fun first middle found => ?_
    obtain ⟨firstLocals, still, lowered, own, made, perm, same, one⟩ := found
    refine (hoistFromList_hoists covers registry arguments middle (firstLocals ▸ agrees) still).bind
      fun rest after found => ?_
    obtain ⟨locals, last, others, more, madeMore, permMore, sameMore, all⟩ := found
    refine .pure ⟨locals.trans firstLocals, last, _, own ++ more, ?_, ?_, ?_, .cons one all⟩
    · rw [madeMore, made, List.append_assoc]
    · rw [List.map_append]
      exact perm.append permMore
    · rw [List.map_append, same, sameMore]

end

theorem hoistArguments_follows (covers : ∀ name, targets.contains name → known name)
    (registry : Registry) :
    Follows known targets .hoistArguments (Temporaries targets registry)
      (HoistsArguments targets) where
  locals := (temporaries_invariant targets registry).locals
  replaces := by
    intro entry state scope agrees before
    change Ensures (hoistArguments targets entry) state _
    unfold hoistArguments
    cases site : entry.callSite? with
    | none =>
      have noCall : entry.topCall? = none := by rw [Statement.topCall?, site]; rfl
      rw [noCall]
      exact .pure ⟨before, [], (List.append_nil _).symm, rfl, fun _ => .stays site⟩
    | some found =>
      obtain ⟨position, call⟩ := found
      obtain ⟨isCall, uses, context, isSite, rfl⟩ := Statement.isSite_of_callSite? site
      cases call with
      | call span function arguments =>
        rw [topCall?_site isSite]
        refine ((hoistFromList_hoists covers registry arguments state (agrees (isSite.isPlain _))
          before).and (hoistFromList_locals arguments state)).bind fun result after found => ?_
        obtain ⟨⟨-, still, lowered, own, made, perm, same, all⟩, -, unchanged⟩ := found
        have hoists := HoistsArguments.hoisted isSite span function perm all
        dsimp only
        split
        · next nothing =>
          have empty := List.isEmpty_iff.mp nothing
          have none : lowered = [] := by simpa [empty] using same
          subst none
          obtain rfl := perm.eq_nil
          rw [unchanged empty] at hoists
          exact .pure ⟨still, [], made, rfl, fun _ => hoists⟩
        · refine .pure ⟨still, own, made, ?_⟩
          rw [isSite.replaceTopCall rfl, same]
          exact hoists
      | _ => cases isCall

/-! ### The third round -/

theorem passAddress_follows (covers : ∀ name, targets.contains name → known name)
    (registry : Registry) :
    Follows known targets .passAddresses (Temporaries targets registry) (PassesAddress targets) where
  locals := (temporaries_invariant targets registry).locals
  replaces := by
    intro entry state scope agrees before
    change Ensures (passAddress targets entry) state _
    unfold passAddress
    refine .bindGet ?_
    split
    · next place span left callSpan function arguments =>
      have reached := targetOf?_isSome covers (agrees rfl) (.call callSpan function arguments)
      cases target : targetOf? targets state (.call callSpan function arguments) with
      | none =>
        rw [target] at reached
        refine .pure ⟨before, [], (List.append_nil _).symm, rfl, fun _ => .stays ?_⟩
        intro _ _ _ _ same
        cases same
        exact reached.symm
      | some callee =>
        rw [target] at reached
        exact .pure ⟨before, [], (List.append_nil _).symm,
          .passed place span left callSpan function arguments reached.symm⟩
    · next other =>
      refine .pure ⟨before, [], (List.append_nil _).symm, rfl, fun _ => .stays ?_⟩
      intro place span left call same
      cases call with
      | call callSpan function arguments => exact absurd same (other _ _ _ _ _ _)
      | _ => rfl

/-! ## All rounds -/

def allRounds (targets : Association CType) (new : String → Prop) :
    StatementRule Bindings Declaration :=
  (AssignsResult targets new).andThen ((HoistsArguments targets).andThen (PassesAddress targets))

theorem body_recast (covers : ∀ name, targets.contains name → known name) (registry : Registry)
    {whole : Statement} (braced : whole.Braced) (isBlock : whole.isBlock) (state : FlattenState)
    (scope : Bindings) (agrees : state.locals.Agrees known scope)
    (before : Temporaries targets registry state) : Ensures (body targets whole) state fun result after =>
      ∃ made, after.temporaries.Perm (state.temporaries ++ made) ∧
        Recast (.bindings known) (allRounds targets (· ∉ registry.used)) scope [whole] made
          [result] := by
  have assigns : Sound known targets .assignResults := assignResult_sound covers
  have hoists : Sound known targets .hoistArguments := hoistArguments_sound covers
  refine ((statement_ensures assigns braced state scope agrees).and (statement_recasts assigns
    (assignResult_follows covers registry) braced state scope agrees before)).bind
    fun first second found => ?_
  obtain ⟨⟨keeps, firstMoves⟩, still, -, firstRecasts⟩ := found
  obtain ⟨-, made, temporaries, firstRecast⟩ := firstRecasts (Statement.isPlain_of_isBlock isBlock)
  rw [Keeps, Statement.scopeAfter_of_isBlock _ _ isBlock] at keeps
  have firstBlock := firstMoves.sameForm.isBlock.trans isBlock
  refine ((statement_ensures hoists firstMoves.braced second scope (keeps ▸ agrees)).and
    (statement_recasts hoists (hoistArguments_follows covers registry) firstMoves.braced second
      scope (keeps ▸ agrees) still)).bind fun middle third found => ?_
  obtain ⟨⟨keepsAgain, middleMoves⟩, again, -, middleRecasts⟩ := found
  obtain ⟨-, more, temporariesMore, middleRecast⟩ :=
    middleRecasts (Statement.isPlain_of_isBlock firstBlock)
  rw [Keeps, Statement.scopeAfter_of_isBlock _ _ firstBlock] at keepsAgain
  have middleBlock := middleMoves.sameForm.isBlock.trans firstBlock
  refine (statement_recasts (passAddress_sound covers) (passAddress_follows covers registry)
    middleMoves.braced third scope ((keepsAgain.trans keeps) ▸ agrees) again).mono
    fun result after found => ?_
  obtain ⟨-, -, lastRecasts⟩ := found
  obtain ⟨-, last, temporariesLast, lastRecast⟩ :=
    lastRecasts (Statement.isPlain_of_isBlock middleBlock)
  obtain ⟨later, laterPerm, laterRecast⟩ := middleRecast.andThen lastRecast
  obtain ⟨all, allPerm, recast⟩ := firstRecast.andThen laterRecast
  refine ⟨all, ?_, recast⟩
  have inOrder := temporariesLast.trans
    ((temporariesMore.trans (temporaries.append_right more)).append_right last)
  rw [List.append_assoc, List.append_assoc] at inOrder
  refine inOrder.trans (List.Perm.append_left _ ?_)
  exact (laterPerm.symm.append_left made).trans allPerm.symm

/-! ## Arguments and what is left of them -/

def TakenBy (calls : List FlattenedCall) (inner : Expr) (name : String) : Prop :=
  ∃ other ∈ calls, other.before = inner ∧ other.temporary = name

/-- What is known of the calls that have been taken out of arguments. -/
structure Lowering (targets : Association CType) (scope : Bindings) (direct : List Expr)
    (lowered : List FlattenedCall) : Prop where
  before : (lowered.map FlattenedCall.before).Perm (direct.filter (reaches targets scope))
  reached : ∀ call ∈ lowered, call.scope = scope ∧ reaches targets scope call.before
  arguments : ∀ calls, lowered ⊆ calls → ∀ call ∈ lowered,
    List.Forall₂ (Expr.Lowered targets call.scope (TakenBy calls)) call.arguments call.passed

variable {pieces : List (Expr × List FlattenedCall × Expr)}

theorem lowering_pieces (each : ∀ piece ∈ pieces, Lowering targets scope piece.1.directCalls piece.2.1) :
    Lowering targets scope (Expr.listDirectCalls (pieces.map (·.1))) (pieces.flatMap (·.2.1)) := by
  induction pieces with
  | nil => exact ⟨.refl _, by simp, by simp⟩
  | cons piece pieces ih =>
    rw [List.forall_mem_cons] at each
    have others := ih each.2
    constructor
    · rw [List.flatMap_cons, List.map_append, List.map_cons, Expr.listDirectCalls,
        List.filter_append]
      exact each.1.before.append others.before
    · exact List.forall_mem_append.mpr ⟨each.1.reached, others.reached⟩
    · intro calls among
      obtain ⟨first, rest⟩ := List.append_subset.mp among
      exact List.forall_mem_append.mpr ⟨each.1.arguments calls first, others.arguments calls rest⟩

theorem lowered_arguments {taken : Expr → String → Prop}
    (each : ∀ piece ∈ pieces, Expr.Lowered targets scope taken piece.1 piece.2.2) :
    List.Forall₂ (Expr.Lowered targets scope taken) (pieces.map (·.1)) (pieces.map (·.2.2)) := by
  rw [List.forall₂_map_left_iff, List.forall₂_map_right_iff, List.forall₂_same]
  exact each

variable {span : Span} {function : Expr}

theorem lowered_call {taken : Expr → String → Prop}
    (other : reaches targets scope (.call span function (pieces.map (·.1))) = false)
    (each : ∀ piece ∈ pieces, Expr.Lowered targets scope taken piece.1 piece.2.2) :
    Expr.Lowered targets scope taken (.call span function (pieces.map (·.1)))
      (.call span function (pieces.map (·.2.2))) := by
  let pairs := pieces.map fun piece => (piece.1, piece.2.2)
  have whole : Expr.Lowered targets scope taken (.call span function (pairs.map Prod.fst))
      (.call span function (pairs.map Prod.snd)) :=
    .call span function pairs (by simpa [pairs, Function.comp_def] using other) (by
      intro argument member
      obtain ⟨piece, among, rfl⟩ := List.mem_map.mp member
      exact each piece among)
  simpa [pairs, Function.comp_def] using whole

variable {arguments : List Expr} {lowered : List FlattenedCall}

theorem Lowering.target {passed : List Expr}
    (inside : Lowering targets scope (Expr.listDirectCalls arguments) lowered)
    (isTarget : reaches targets scope (.call span function arguments)) (temporary : String)
    (left : ∀ calls, lowered ⊆ calls →
      List.Forall₂ (Expr.Lowered targets scope (TakenBy calls)) arguments passed) :
    Lowering targets scope (Expr.call span function arguments).directCalls
      (lowered ++ [⟨scope, span, function, arguments, temporary, passed⟩]) where
  before := by
    rw [List.map_append, Expr.directCalls, List.filter_cons_of_pos isTarget]
    exact List.perm_append_comm.trans (inside.before.cons _)
  reached := List.forall_mem_append.mpr
    ⟨inside.reached, List.forall_mem_singleton.mpr ⟨rfl, isTarget⟩⟩
  arguments := by
    intro calls among
    have inner := (List.append_subset.mp among).1
    exact List.forall_mem_append.mpr ⟨inside.arguments calls inner,
      List.forall_mem_singleton.mpr (left calls inner)⟩

theorem Lowering.call (inside : Lowering targets scope (Expr.listDirectCalls arguments) lowered)
    (other : reaches targets scope (.call span function arguments) = false) :
    Lowering targets scope (Expr.call span function arguments).directCalls lowered := by
  refine ⟨?_, inside.reached, inside.arguments⟩
  rw [Expr.directCalls, List.filter_cons_of_neg (by simp [other])]
  exact inside.before

theorem Lowers.lowering {argument left : Expr} (lowers : Lowers targets scope argument lowered left) :
    Lowering targets scope argument.directCalls lowered ∧ ∀ calls, lowered ⊆ calls →
      Expr.Lowered targets scope (TakenBy calls) argument left := by
  induction lowers with
  | target span function pieces temporary isTarget each ih =>
    have inside := lowering_pieces fun piece member => (ih piece member).1
    refine ⟨inside.target isTarget temporary fun calls among => ?_, fun calls among => ?_⟩
    · refine lowered_arguments fun piece member => (ih piece member).2 calls fun call found => ?_
      exact among (List.mem_flatMap.mpr ⟨piece, member, found⟩)
    · refine .temporary isTarget ⟨_, among (List.mem_append_right _ (List.mem_singleton_self _)), ?_⟩
      exact ⟨rfl, rfl⟩
  | call span function pieces other each ih =>
    have inside := lowering_pieces fun piece member => (ih piece member).1
    refine ⟨inside.call other, ?_⟩
    · intro calls among
      refine lowered_call other fun piece member => (ih piece member).2 calls fun call found => ?_
      exact among (List.mem_flatMap.mpr ⟨piece, member, found⟩)
  | other noCall =>
    refine ⟨⟨?_, by simp, by simp⟩, fun _ _ => .other noCall⟩
    rw [Expr.directCalls_of_not_call noCall]
    exact .refl _

theorem LowersAll.lowering {passed : List Expr} (all : LowersAll targets scope arguments lowered passed) :
    Lowering targets scope (Expr.listDirectCalls arguments) lowered ∧ ∀ calls, lowered ⊆ calls →
      List.Forall₂ (Expr.Lowered targets scope (TakenBy calls)) arguments passed := by
  obtain ⟨pieces, rfl, rfl, rfl, each⟩ := all
  refine ⟨lowering_pieces fun piece member => (each piece member).lowering.1, fun calls among => ?_⟩
  refine lowered_arguments fun piece member =>
    (each piece member).lowering.2 calls fun call found => ?_
  exact among (List.mem_flatMap.mpr ⟨piece, member, found⟩)

/-! ## One statement -/

mutual

theorem Lowers.refl (nowhere : ∀ call, reaches targets scope call = false) :
    ∀ argument : Expr, Lowers targets scope argument [] argument
  | .call _ _ arguments => (LowersAll.refl nowhere arguments).call (nowhere _)
  | .intLiteral .. | .floatLiteral .. | .charLiteral .. | .stringLiteral .. | .identifier ..
  | .binary .. | .unary .. | .member .. | .conditional .. | .cast .. | .sizeofExpr ..
  | .sizeofType .. | .compoundLiteral .. | .comma .. | .typeArgument .. => .other rfl

theorem LowersAll.refl (nowhere : ∀ call, reaches targets scope call = false) :
    ∀ arguments : List Expr, LowersAll targets scope arguments [] arguments
  | [] => .nil
  | argument :: arguments => .cons (Lowers.refl nowhere argument) (LowersAll.refl nowhere arguments)

end

/-- What all rounds make of a statement: the calls taken out of it stand in front of what is left of
it. If the statement stands for a visible call of a target, then that call is the last one. -/
inductive TakesApart (targets : Association CType) : StatementRule Bindings FlattenedCall where
  | stays {scope : Bindings} {entry : Statement} (noCall : entry.callSite? = none) :
      TakesApart targets scope entry [] [entry]
  | beside {scope : Bindings} {position : CallPosition} {uses : List Use}
      {context : Expr → Statement} (site : Statement.IsSite position uses context) (span : Span)
      (function : Expr) {arguments passed : List Expr} {lowered : List FlattenedCall}
      (other : reaches targets scope (.call span function arguments) = false)
      (lowers : LowersAll targets scope arguments lowered passed) :
      TakesApart targets scope (context (.call span function arguments)) lowered
        (lowered.map (fun call => .ofExpr call.after) ++ [context (.call span function passed)])
  | taken {scope : Bindings} {position : CallPosition} {uses : List Use}
      {context : Expr → Statement} (site : Statement.IsSite position uses context) (span : Span)
      (function : Expr) {arguments passed : List Expr} {lowered : List FlattenedCall}
      (isTarget : reaches targets scope (.call span function arguments))
      (lowers : LowersAll targets scope arguments lowered passed) (temporary : String) :
      TakesApart targets scope (context (.call span function arguments))
        (lowered ++ [⟨scope, span, function, arguments, temporary, passed⟩])
        (lowered.map (fun call => .ofExpr call.after) ++
          .expression (context (.call span function arguments)).span
              (.call span function (.addressOf (.ofName temporary) :: passed)) ::
            afterCall temporary position (context (.call span function arguments)))

theorem becomes_assigned {made : List Declaration}
    {results : List (Bindings × Statement)} (reached : ∀ call ∈ lowered, reaches targets scope call.before)
    (becomes : Becomes (PassesAddress targets)
      ((lowered.map fun call => Statement.ofExpr call.assigned).map (Prod.mk scope)) made results) :
    made = [] ∧ results = (lowered.map fun call => Statement.ofExpr call.after).map (Prod.mk scope) := by
  induction lowered generalizing made results with
  | nil =>
    cases becomes
    exact ⟨rfl, rfl⟩
  | cons call lowered ih =>
    rw [List.forall_mem_cons] at reached
    rw [List.map_cons, List.map_cons] at becomes
    cases becomes with
    | cons first rest =>
      obtain ⟨rfl, rfl⟩ := ih reached.2 rest
      cases first with
      | stays other =>
        have never := other _ _ _ _ rfl
        exact absurd reached.1 (Bool.eq_false_iff.mp never)
      | passed => exact ⟨rfl, rfl⟩

theorem map_scope_injective {first second : List Statement}
    (same : first.map (Prod.mk scope) = second.map (Prod.mk scope)) : first = second :=
  List.map_injective_iff.mpr (fun _ _ same => (Prod.mk.inj same).2) same

theorem Becomes.ofSingle {α : Type} {rule : StatementRule Bindings α}
    {made : List α} {results : List Statement}
    (becomes : Becomes rule [(scope, entry)] made (results.map (Prod.mk scope))) :
    rule scope entry made results := by
  generalize standing : results.map (Prod.mk scope) = result at becomes
  cases becomes with
  | cons first rest =>
    cases rest
    rw [List.append_nil] at standing ⊢
    exact map_scope_injective standing ▸ first

theorem PassesAddress.single {made : List Declaration} {results : List Statement}
    (passes : PassesAddress targets scope entry made results) : made = [] ∧ ∃ last, results = [last] := by
  cases passes with
  | stays => exact ⟨rfl, _, rfl⟩
  | passed => exact ⟨rfl, _, rfl⟩

theorem PassesAddress.eq_self {made : List Declaration} {results : List Statement}
    (passes : PassesAddress targets scope entry made results)
    (other : ∀ place span left call, entry = .expression place (.binary span .assign left call) →
      reaches targets scope call = false) : results = [entry] := by
  cases passes with
  | stays => rfl
  | passed place span left callSpan function arguments isTarget =>
    exact absurd isTarget (Bool.eq_false_iff.mp (other _ _ _ _ rfl))

theorem PassesAddress.eq_passed {place callSpan : Span} {left : Expr}
    {made : List Declaration} {results : List Statement} (passes : PassesAddress targets scope
      (.expression place (.binary span .assign left (.call callSpan function arguments))) made results)
    (isTarget : reaches targets scope (.call callSpan function arguments)) :
    results = [.expression place (.call callSpan function (.addressOf left :: arguments))] := by
  cases passes with
  | stays other => exact absurd isTarget (Bool.eq_false_iff.mp (other _ _ _ _ rfl))
  | passed => rfl

section LaterRounds

variable {made : List Declaration} {results : List Statement}

theorem hoistedThenPassed_of_no_call {entry : Statement} (noCall : entry.callSite? = none)
    (rules : (HoistsArguments targets).andThen (PassesAddress targets) scope entry made results) :
    made = [] ∧ results = [entry] := by
  obtain ⟨own, middle, more, hoists, passes, rfl⟩ := rules
  cases hoists with
  | stays =>
    cases Becomes.ofSingle passes with
    | stays => exact ⟨rfl, rfl⟩
    | passed => cases noCall
  | hoisted site =>
    rw [site.callSite? rfl] at noCall
    cases noCall

variable {position : CallPosition} {uses : List Use} {context : Expr → Statement}

theorem hoistedThenPassed
    (site : Statement.IsSite position uses context) {span : Span} {function : Expr} {arguments : List Expr}
    (rules : (HoistsArguments targets).andThen (PassesAddress targets) scope
      (context (.call span function arguments)) made results) :
    ∃ lowered passed last, LowersAll targets scope arguments lowered passed ∧
      made.Perm (lowered.map (FlattenedCall.object targets)) ∧
        results = lowered.map (fun call => Statement.ofExpr call.after) ++ [last] ∧
          PassesAddress targets scope (context (.call span function passed)) [] [last] := by
  obtain ⟨own, middle, more, hoists, passes, rfl⟩ := rules
  have isCall : (Expr.call span function arguments).isCall := rfl
  have found := site.callSite? isCall
  have replaced := site.replaceTopCall isCall
  generalize context (.call span function arguments) = entry at hoists found replaced
  cases hoists with
  | stays noCall =>
    rw [noCall] at found
    cases found
  | @hoisted _ position uses context isSite span function arguments passed lowered made perm all =>
    rw [isSite.callSite? rfl] at found
    cases found
    rw [List.map_append] at passes
    generalize inScope : results.map (Prod.mk scope) = standing at passes
    obtain ⟨firstMade, lastMade, first, last, rfl, rfl, before, behind⟩ := passes.split
    obtain ⟨rfl, rfl⟩ := becomes_assigned (fun call member => (all.lowering.1.reached call member).2) before
    cases behind with
    | cons rule rest =>
      cases rest
      obtain ⟨rfl, final, rfl⟩ := rule.single
      refine ⟨lowered, passed, final, all, by simpa using perm, ?_, ?_⟩
      · rw [List.append_nil, ← List.map_append] at inScope
        exact map_scope_injective inScope
      · rw [← replaced, isSite.replaceTopCall rfl]
        exact rule

theorem becomes_afterCall (site : Statement.IsSite position uses context) {call : Expr} (isCall : call.isCall)
    (name : String) {result : List (Bindings × Statement)}
    (becomes : Becomes ((HoistsArguments targets).andThen (PassesAddress targets))
      ((afterCall name position (context call)).map (Prod.mk scope)) made result) :
    made = [] ∧ result = (afterCall name position (context call)).map (Prod.mk scope) := by
  have left (noCall : (context (.ofName name)).callSite? = none)
      (becomes : Becomes ((HoistsArguments targets).andThen (PassesAddress targets))
        [(scope, context (.ofName name))] made result) :
      made = [] ∧ result = [(scope, context (.ofName name))] := by
    cases becomes with
    | cons rule rest =>
      cases rest
      obtain ⟨rfl, rfl⟩ := hoistedThenPassed_of_no_call noCall rule
      exact ⟨rfl, rfl⟩
  cases site with
  | assigned place span target =>
    rw [afterCall, (Statement.IsSite.assigned place span target).replaceTopCall isCall] at becomes ⊢
    exact left rfl becomes
  | returned place =>
    rw [afterCall, (Statement.IsSite.returned place).replaceTopCall isCall] at becomes ⊢
    exact left rfl becomes
  | whole | thrownAway =>
    cases becomes
    exact ⟨rfl, rfl⟩

theorem takesApart_of_other {entry : Statement} {call : Expr}
    (site : entry.callSite? = some (position, call)) (other : reaches targets scope call = false)
    (rules : (HoistsArguments targets).andThen (PassesAddress targets) scope entry made results) :
    ∃ lowered, TakesApart targets scope entry lowered results ∧
      made.Perm (lowered.map (FlattenedCall.object targets)) := by
  obtain ⟨isCall, uses, context, isSite, rfl⟩ := Statement.isSite_of_callSite? site
  cases call with
  | call span function arguments =>
    obtain ⟨lowered, passed, last, all, perm, rfl, passes⟩ := hoistedThenPassed isSite rules
    have stays : last = context (.call span function passed) := by
      refine List.singleton_inj.mp (passes.eq_self fun place assignSpan left value same => ?_)
      cases isSite <;> cases same
      exact other
    exact ⟨lowered, stays ▸ .beside isSite span function other all, perm⟩
  | _ => cases isCall

/-- A statement whose call is one of a visible target gives way to the calls among the arguments, the
call, and what is left behind it. -/
theorem takesApart_of_target (site : Statement.IsSite position uses context) {call : Expr}
    (isTarget : reaches targets scope call) (name : String)
    (becomes : Becomes ((HoistsArguments targets).andThen (PassesAddress targets))
      ((.expression (context call).span (.assignment (.ofName name) call) ::
        afterCall name position (context call)).map (Prod.mk scope)) made (results.map (Prod.mk scope))) :
    ∃ lowered, TakesApart targets scope (context call) lowered results ∧
      (call.resultObject targets name :: made).Perm (lowered.map (FlattenedCall.object targets)) := by
  have isCall := isCall_of_reaches isTarget
  cases call with
  | call span function arguments =>
    rw [List.map_cons] at becomes
    generalize inScope : results.map (Prod.mk scope) = standing at becomes
    cases becomes with
    | cons first rest =>
      obtain ⟨rfl, rfl⟩ := becomes_afterCall site isCall name rest
      obtain ⟨lowered, passed, last, all, perm, rfl, passes⟩ := hoistedThenPassed
        (.assigned (context (.call span function arguments)).span .synthetic (.ofName name)) first
      have reached : reaches targets scope (.call span function passed) := isTarget
      obtain rfl := List.singleton_inj.mp (passes.eq_passed reached)
      rw [← List.map_append] at inScope
      obtain rfl := map_scope_injective inScope
      refine ⟨lowered ++ [⟨scope, span, function, arguments, name, passed⟩], ?_, ?_⟩
      · rw [List.append_assoc]
        exact .taken site span function isTarget all name
      · rw [List.append_nil, List.map_append]
        exact (perm.cons _).trans (List.perm_append_singleton _ _).symm
  | _ => cases isCall

end LaterRounds

theorem takesApart {new : String → Prop} {made : List Declaration}
    {results : List Statement} (rules : allRounds targets new scope entry made results)
    (notNew : ¬ AssignsNew new entry) : ∃ lowered, TakesApart targets scope entry lowered results ∧
      made.Perm (lowered.map (FlattenedCall.object targets)) := by
  obtain ⟨own, middle, more, assigns, rest, rfl⟩ := rules
  cases assigns with
  | stays settled =>
    have rule := Becomes.ofSingle rest
    cases site : entry.callSite? with
    | none =>
      obtain ⟨rfl, rfl⟩ := hoistedThenPassed_of_no_call site rule
      exact ⟨[], .stays site, .refl _⟩
    | some found =>
      obtain ⟨position, call⟩ := found
      refine takesApart_of_other site ?_ rule
      exact Bool.eq_false_iff.mpr fun reached => notNew (settled position call site reached)
  | assigned site isTarget name => exact takesApart_of_target site isTarget name rest

theorem TakesApart.refl (nowhere : ∀ call, reaches targets scope call = false) (entry : Statement) :
    TakesApart targets scope entry [] [entry] := by
  cases site : entry.callSite? with
  | none => exact .stays site
  | some found =>
    obtain ⟨position, call⟩ := found
    obtain ⟨isCall, uses, context, isSite, rfl⟩ := Statement.isSite_of_callSite? site
    cases call with
    | call span function arguments =>
      exact .beside isSite span function (nowhere _) (.refl nowhere arguments)
    | _ => cases isCall

/-! ## Calls of targets in one statement -/

theorem callStatements_append (first second : List (Bindings × Statement)) :
    callStatements targets (first ++ second) =
      callStatements targets first ++ callStatements targets second :=
  List.filterMap_append ..

theorem callStatements_after
    (reached : ∀ call ∈ lowered, call.scope = scope ∧ reaches targets scope call.before) :
    callStatements targets ((lowered.map fun call => Statement.ofExpr call.after).map (Prod.mk scope)) =
      lowered.map fun call => (call.scope, call.after) := by
  induction lowered with
  | nil => rfl
  | cons call lowered ih =>
    rw [List.forall_mem_cons] at reached
    obtain ⟨⟨rfl, isTarget⟩, others⟩ := reached
    rw [List.map_cons, List.map_cons, List.map_cons, ← ih others]
    exact List.filterMap_cons_some (if_pos isTarget)

theorem callStatements_eq_nil
    (other : ∀ place call, entry = .expression place call → reaches targets scope call = false) :
    callStatements targets [(scope, entry)] = [] := by
  cases entry with
  | expression place call => simp [callStatements, other place call rfl]
  | _ => rfl

theorem callStatements_of_no_call (noCall : entry.callSite? = none) :
    callStatements targets [(scope, entry)] = [] := by
  refine callStatements_eq_nil fun place call stands => ?_
  cases reached : reaches targets scope call with
  | false => rfl
  | true =>
    rw [stands, (Statement.IsSite.whole place).callSite? (isCall_of_reaches reached)] at noCall
    cases noCall

theorem callStatements_afterCall {position : CallPosition} {uses : List Use}
    {context : Expr → Statement} (site : Statement.IsSite position uses context) {call : Expr}
    (isCall : call.isCall) (name : String) :
    callStatements targets ((afterCall name position (context call)).map (Prod.mk scope)) = [] := by
  cases site with
  | assigned place span target =>
    rw [afterCall, (Statement.IsSite.assigned place span target).replaceTopCall isCall]
    exact callStatements_of_no_call rfl
  | returned place =>
    rw [afterCall, (Statement.IsSite.returned place).replaceTopCall isCall]
    exact callStatements_of_no_call rfl
  | whole | thrownAway => rfl

theorem positionedCalls_of_site {position : CallPosition} {call : Expr}
    (site : entry.callSite? = some (position, call)) : entry.positionedCalls = call.directCalls := by
  rw [Statement.positionedCalls, Statement.topCall?, site]
  rfl

theorem TakesApart.lowering {results : List Statement}
    (apart : TakesApart targets scope entry lowered results) :
    Lowering targets scope entry.positionedCalls lowered := by
  cases apart with
  | stays noCall =>
    have nothing : entry.positionedCalls = [] := by
      rw [Statement.positionedCalls, Statement.topCall?, noCall]
      rfl
    rw [nothing]
    exact ⟨.refl _, by simp, by simp⟩
  | beside site span function other all =>
    rw [positionedCalls_of_site (site.callSite? rfl)]
    exact all.lowering.1.call other
  | taken site span function isTarget all name =>
    rw [positionedCalls_of_site (site.callSite? rfl)]
    exact all.lowering.1.target isTarget name all.lowering.2

theorem TakesApart.callStatements {results : List Statement}
    (apart : TakesApart targets scope entry lowered results) :
    callStatements targets (results.map (Prod.mk scope)) =
      lowered.map fun call => (call.scope, call.after) := by
  cases apart with
  | stays noCall => exact callStatements_of_no_call noCall
  | beside site span function other all =>
    rw [List.map_append, callStatements_append, callStatements_after all.lowering.1.reached]
    refine (congrArg (_ ++ ·) (callStatements_eq_nil fun place value same => ?_)).trans (List.append_nil _)
    cases site <;> cases same
    · exact other
    · rfl
    · rfl
  | taken site span function isTarget all name =>
    rw [List.map_append, callStatements_append, callStatements_after all.lowering.1.reached, List.map_append]
    refine congrArg (_ ++ ·) ?_
    rw [List.map_cons, ← List.singleton_append, callStatements_append,
      callStatements_afterCall site rfl, List.append_nil]
    exact List.filterMap_cons_some (if_pos isTarget)

/-! ## All statements -/

/-- The calls of targets before and behind all rounds: the statements on the one side have the calls
on the other side, one for one. -/
structure FlattensAll (targets : Association CType) (standing results : List (Bindings × Statement))
    (calls : List FlattenedCall) : Prop where
  before : (calls.map fun call => (call.scope, call.before)).Perm (reachedCalls targets standing)
  after : callStatements targets results = calls.map fun call => (call.scope, call.after)
  arguments : ∀ all, calls ⊆ all → ∀ call ∈ calls,
    List.Forall₂ (Expr.Lowered targets call.scope (TakenBy all)) call.arguments call.passed

theorem Lowering.sites {direct : List Expr} (lowering : Lowering targets scope direct lowered) :
    (lowered.map fun call => (call.scope, call.before)).Perm
      ((direct.filter (reaches targets scope)).map (Prod.mk scope)) := by
  have inScope : (lowered.map fun call => (call.scope, call.before)) =
      (lowered.map FlattenedCall.before).map (Prod.mk scope) := by
    rw [List.map_map]
    refine List.map_congr_left fun call member => ?_
    rw [(lowering.reached call member).1]
    rfl
  rw [inScope]
  exact lowering.before.map _

theorem flattensAll {standing results : List (Bindings × Statement)} {calls : List FlattenedCall}
    (becomes : Becomes (TakesApart targets) standing calls results) :
    FlattensAll targets standing results calls := by
  induction becomes with
  | nil => exact ⟨.refl _, rfl, by simp⟩
  | @cons scope entry own results others calls behind apart rest all =>
    refine ⟨?_, ?_, ?_⟩
    · rw [List.map_append]
      exact apart.lowering.sites.append all.before
    · rw [callStatements_append, apart.callStatements, all.after, List.map_append]
    · intro wider among
      obtain ⟨ownAmong, callsAmong⟩ := List.append_subset.mp among
      exact List.forall_mem_append.mpr ⟨apart.lowering.arguments wider ownAmong,
        all.arguments wider callsAmong⟩

end Flatten

end InlineMacro
