import InlineMacro.Proofs.Pass.FlattenCalls
import InlineMacro.Proofs.Registry
import InlineMacro.Proofs.Syntax.Rewritten

/-!
# Flattening writes statements anew

A round of flattening puts simple statements in the places of plain ones. They are made of what
stood there and of the names of temporaries, which were not in use.
-/

set_option autoImplicit false

namespace InlineMacro

open Statement (Rewritten)

open Statement (Draws RewrittenAll)

/-! ## Flattening -/

/-- All names in use stay so, and a property holds if the names in use behind are within a limit. -/
structure Registry.Reaches (limit : List String) (before after : Registry) (reached : Prop) :
    Prop where
  grows : before.used ⊆ after.used
  reached : after.used ⊆ limit → reached

namespace Registry.Reaches

variable {limit : List String} {first second third : Registry} {reached others : Prop}

theorem stay (holds : reached) : Reaches limit first first reached :=
  ⟨List.Subset.refl _, fun _ => holds⟩

theorem and (former : Reaches limit first second reached)
    (latter : Reaches limit second third others) : Reaches limit first third (reached ∧ others) :=
  ⟨List.Subset.trans former.grows latter.grows, fun within =>
    ⟨former.reached (List.Subset.trans latter.grows within), latter.reached within⟩⟩

theorem imp (reaches : Reaches limit first second reached) (implies : reached → others) :
    Reaches limit first second others :=
  ⟨reaches.grows, fun within => implies (reaches.reached within)⟩

end Registry.Reaches

namespace Flatten

set_option linter.unusedSectionVars false

def Supplies (targets : Association CType) (old limit : List String) (new : Word → Prop) : Prop :=
  ∀ callee (registry : Registry), targets.contains callee → old ⊆ registry.used →
    (registry.fresh (callee ++ "_ret")).1 ∈ limit → new (.value (registry.fresh (callee ++ "_ret")).1)

open Registry (Reaches)

theorem contains_of_targetOf? {targets : Association CType} {state : FlattenState} {call : Expr}
    {callee : String} (target : targetOf? targets state call = some callee) : targets.contains callee := by
  have isTarget := (Option.filter_eq_some_iff.mp target).2
  rw [Bool.and_eq_true] at isTarget
  exact isTarget.1

variable {targets : Association CType} {round : FlattenRound} {old limit : List String}
  {new : Word → Prop} (supplies : Supplies targets old limit new)

include supplies

theorem temporary_new {callee : String} (isTarget : targets.contains callee) (state : FlattenState)
    (older : old ⊆ state.registry.used) : Ensures (temporary targets callee) state fun name after =>
      Reaches limit state.registry after.registry (new (.value name)) := by
  have issues := Registry.fresh_issues (callee ++ "_ret") state.registry
  refine .bindGet (.bindSet (.pure ⟨fun _ => issues.mem_used, fun within => ?_⟩))
  exact supplies callee state.registry isTarget older (within ((issues.used _).mpr (.inl List.mem_cons_self)))

theorem assignResult_draws (entry : Statement) (state : FlattenState) (older : old ⊆ state.registry.used) :
    Ensures (assignResult targets entry) state fun replaced after =>
      Reaches limit state.registry after.registry (Draws new entry replaced) := by
  unfold assignResult
  refine .bindGet ?_
  split
  · exact .pure (.stay fun _ none => by cases none)
  · next position call site =>
    obtain ⟨isCall, uses, context, isSite, rfl⟩ := Statement.isSite_of_callSite? site
    split
    · exact .pure (.stay fun _ none => by cases none)
    · next callee target =>
      split
      · exact .pure (.stay fun _ none => by cases none)
      · refine (temporary_new supplies (contains_of_targetOf? target) state older).bind
          fun name after made => ?_
        refine .pure (made.imp fun isNew statements found => ?_)
        cases found
        refine ⟨isSite.isPlain call, List.forall_mem_cons.mpr ⟨?_, fun statement member => ?_⟩⟩
        · refine .of_expression fun rule admits own => ?_
          exact Expr.obeys_binary.mpr ⟨Expr.obeys_ofName admits isNew, (isSite.obeys own).1⟩
        · have left : statement = context (.ofName name) := by
            unfold afterCall at member
            split at member
            · rw [List.mem_singleton.mp member, isSite.replaceTopCall isCall]
            · rw [List.mem_singleton.mp member, isSite.replaceTopCall isCall]
            · cases member
            · cases member
          subst left
          exact ⟨isSite.isSimple _, fun rule admits own =>
            (isSite.obeys own).2 _ (Expr.obeys_ofName admits isNew)⟩

mutual

theorem hoistFrom_draws : ∀ (argument : Expr) (state : FlattenState), old ⊆ state.registry.used →
    Ensures (hoistFrom targets argument) state fun result after =>
      Reaches limit state.registry after.registry ((∀ statement ∈ result.1, statement.isSimple) ∧
        ∀ rule : NameRule, rule.Admits new → argument.Obeys rule →
          (∀ statement ∈ result.1, statement.Obeys rule) ∧ result.2.Obeys rule)
  | .call span function arguments => by
    intro state older
    rw [hoistFrom]
    refine .bindGet ?_
    split
    · next callee target =>
      refine (temporary_new supplies (contains_of_targetOf? target) state older).bind
        fun name middle made => ?_
      refine (hoistFromList_draws arguments middle (List.Subset.trans older made.grows)).bind
        fun result after inside => .pure ((made.and inside).imp fun ⟨isNew, simple, drawn⟩ => ?_)
      refine ⟨List.forall_mem_append.mpr ⟨simple, List.forall_mem_singleton.mpr rfl⟩,
        fun rule admits own => ?_⟩
      have parts := Expr.obeys_call.mp own
      have inside := drawn rule admits parts.2
      refine ⟨List.forall_mem_append.mpr ⟨inside.1, List.forall_mem_singleton.mpr ?_⟩,
        Expr.obeys_ofName admits isNew⟩
      exact Statement.obeys_expression.mpr (Expr.obeys_binary.mpr
        ⟨Expr.obeys_ofName admits isNew, Expr.obeys_call.mpr ⟨parts.1, inside.2⟩⟩)
    · refine (hoistFromList_draws arguments state older).bind fun result after inside =>
        .pure (inside.imp fun ⟨simple, drawn⟩ => ⟨simple, fun rule admits own => ?_⟩)
      have parts := Expr.obeys_call.mp own
      have inside := drawn rule admits parts.2
      exact ⟨inside.1, Expr.obeys_call.mpr ⟨parts.1, inside.2⟩⟩
  | .intLiteral .. | .floatLiteral .. | .charLiteral .. | .stringLiteral .. | .identifier ..
  | .binary .. | .unary .. | .member .. | .conditional .. | .cast .. | .sizeofExpr ..
  | .sizeofType .. | .compoundLiteral .. | .comma .. | .typeArgument .. => fun _ _ =>
    .stay ⟨fun _ member => absurd member List.not_mem_nil,
      fun _ _ own => ⟨fun _ member => absurd member List.not_mem_nil, own⟩⟩

theorem hoistFromList_draws : ∀ (arguments : List Expr) (state : FlattenState), old ⊆ state.registry.used →
    Ensures (hoistFromList targets arguments) state fun result after =>
      Reaches limit state.registry after.registry ((∀ statement ∈ result.1, statement.isSimple) ∧
        ∀ rule : NameRule, rule.Admits new → Expr.ListObeys rule arguments →
          (∀ statement ∈ result.1, statement.Obeys rule) ∧ Expr.ListObeys rule result.2)
  | [] => fun _ _ => .stay ⟨fun _ member => absurd member List.not_mem_nil,
    fun _ _ own => ⟨fun _ member => absurd member List.not_mem_nil, own⟩⟩
  | argument :: arguments => by
    intro state older
    rw [hoistFromList]
    refine (hoistFrom_draws argument state older).bind fun first middle here => ?_
    refine (hoistFromList_draws arguments middle (List.Subset.trans older here.grows)).bind
      fun others after behind => .pure ((here.and behind).imp ?_)
    rintro ⟨⟨simple, drawn⟩, othersSimple, othersDrawn⟩
    refine ⟨List.forall_mem_append.mpr ⟨simple, othersSimple⟩, fun rule admits own => ?_⟩
    have parts := List.forall_mem_cons.mp own
    have former := drawn rule admits parts.1
    have latter := othersDrawn rule admits parts.2
    exact ⟨List.forall_mem_append.mpr ⟨former.1, latter.1⟩, List.forall_mem_cons.mpr ⟨former.2, latter.2⟩⟩

end

theorem hoistArguments_draws (entry : Statement) (state : FlattenState) (older : old ⊆ state.registry.used) :
    Ensures (hoistArguments targets entry) state fun replaced after =>
      Reaches limit state.registry after.registry (Draws new entry replaced) := by
  unfold hoistArguments
  split
  · next span function arguments top =>
    obtain ⟨⟨position, call⟩, site, rfl⟩ := Option.map_eq_some_iff.mp top
    obtain ⟨isCall, uses, context, isSite, rfl⟩ := Statement.isSite_of_callSite? site
    refine (hoistFromList_draws supplies arguments state older).bind
      fun result after hoists => ?_
    dsimp only
    split
    · exact .pure (hoists.imp fun _ _ none => by cases none)
    · refine .pure (hoists.imp fun ⟨simple, drawn⟩ statements found => ?_)
      cases found
      have inside (rule : NameRule) (admits : rule.Admits new)
          (own : (context (.call span function arguments)).Obeys rule) :=
        drawn rule admits (Expr.obeys_call.mp (isSite.obeys own).1).2
      refine ⟨isSite.isPlain _, List.forall_mem_append.mpr ⟨fun statement member => ?_,
        List.forall_mem_singleton.mpr ?_⟩⟩
      · exact ⟨simple statement member, fun rule admits own =>
          (inside rule admits own).1 statement member⟩
      · rw [isSite.replaceTopCall isCall]
        refine ⟨isSite.isSimple _, fun rule admits own => (isSite.obeys own).2 _ ?_⟩
        exact Expr.obeys_call.mpr ⟨(Expr.obeys_call.mp (isSite.obeys own).1).1, (inside rule admits own).2⟩
  · exact .pure (.stay fun _ none => by cases none)

omit supplies in
theorem passAddress_draws (entry : Statement) (state : FlattenState) :
    Ensures (passAddress targets entry) state fun replaced after =>
      Reaches limit state.registry after.registry (Draws new entry replaced) := by
  unfold passAddress
  refine .bindGet ?_
  split
  · next place assignSpan left span function arguments =>
    split
    · exact .pure (.stay fun _ none => by cases none)
    · refine .pure (.stay fun statements found => ?_)
      cases found
      refine ⟨rfl, List.forall_mem_singleton.mpr (.of_expression fun rule admits own => ?_)⟩
      have parts := Expr.obeys_binary.mp (Statement.obeys_expression.mp own)
      have call := Expr.obeys_call.mp parts.2
      exact Expr.obeys_call.mpr ⟨call.1, List.forall_mem_cons.mpr ⟨Expr.obeys_unary.mpr parts.1, call.2⟩⟩
  · exact .pure (.stay fun _ none => by cases none)

theorem replacement_draws (entry : Statement) (state : FlattenState) (older : old ⊆ state.registry.used) :
    Ensures (replacement targets round entry) state fun replaced after =>
      Reaches limit state.registry after.registry (Draws new entry replaced) := by
  cases round with
  | assignResults => exact assignResult_draws supplies entry state older
  | hoistArguments => exact hoistArguments_draws supplies entry state older
  | passAddresses => exact passAddress_draws entry state

theorem replacements_draw (entries : List Statement) (state : FlattenState)
    (older : old ⊆ state.registry.used) :
    Ensures (replacements targets round entries) state fun replaced after =>
      Reaches limit state.registry after.registry
        (List.Forall₂ (Draws new) entries replaced) := by
  induction entries generalizing state with
  | nil => exact .stay .nil
  | cons entry entries ih =>
    rw [replacements, declareStatement]
    refine .bindModify ?_
    let declared : FlattenState := { state with locals := state.locals.declareStatement entry }
    refine (replacement_draws supplies entry declared older).bind
      fun first middle here => ?_
    refine (ih middle (List.Subset.trans older here.grows)).bind fun others after behind => ?_
    exact .pure ((here.and behind).imp fun both => .cons both.1 both.2)

omit supplies in
theorem statements_rewritten {entries : List Statement}
    (each : ∀ entry ∈ entries, ∀ state : FlattenState, old ⊆ state.registry.used →
      Ensures (statement targets round entry) state fun result after =>
        Reaches limit state.registry after.registry (Rewritten new false entry [result]))
    (replaced : List (Option (List Statement))) (state : FlattenState)
    (older : old ⊆ state.registry.used) :
    Ensures (statements targets round replaced entries) state fun results after =>
      Reaches limit state.registry after.registry
        (List.Forall₂ (Draws new) entries replaced →
          RewrittenAll new entries results) := by
  induction entries generalizing state replaced with
  | nil =>
    rw [statements]
    exact .pure (.stay fun _ => .nil)
  | cons entry entries ih =>
    obtain ⟨here, behind⟩ := List.forall_mem_cons.mp each
    have kept : Ensures (do
        let first ← statement targets round entry
        return first :: (← statements targets round replaced.tail entries)) state
        fun results after => Reaches limit state.registry after.registry
          (List.Forall₂ (Draws new) (entry :: entries) replaced →
            RewrittenAll new (entry :: entries) results) := by
      refine (here state older).bind fun result middle first => ?_
      refine (ih behind _ middle (List.Subset.trans older first.grows)).bind
        fun results after rest => .pure ((first.and rest).imp fun both drawn => ?_)
      cases drawn with
      | cons _ drawn => exact .cons (.kept both.1) (both.2 drawn)
    cases replaced with
    | nil => exact kept
    | cons option others =>
      cases option with
      | none => exact kept
      | some plain =>
        rw [statements]
        refine (ih behind others state older).bind fun results after rest =>
          .pure (rest.imp fun all drawn => ?_)
        cases drawn with
        | cons first drawn =>
          obtain ⟨isPlain, draws⟩ := first plain rfl
          exact .cons (.replaced isPlain draws) (all drawn)

theorem statement_rewritten (entry : Statement) (state : FlattenState)
    (older : old ⊆ state.registry.used) :
    Ensures (statement targets round entry) state fun result after =>
      Reaches limit state.registry after.registry (Rewritten new false entry [result]) := by
  induction entry generalizing state with
  | block span entries ih =>
    rw [statement, enter, leave]
    refine .bindModify ?_
    let opened : FlattenState := { state with locals := state.locals.enter }
    refine (replacements_draw supplies entries opened older).bind
      fun replaced middle first => ?_
    refine .bindModify (.bindModify ?_)
    let again : FlattenState := { middle with locals := middle.locals.leave.enter }
    refine (statements_rewritten  ih replaced again
      (List.Subset.trans older first.grows)).bind fun results after rest => ?_
    exact .bindModify (.pure ((first.and rest).imp fun both => (both.2 both.1).block span))
  | ifThen span condition thenBranch ih =>
    rw [statement]
    refine (ih state older).bind fun result after inside => ?_
    exact .pure (inside.imp (.ifThen span condition))
  | ifElse span condition thenBranch elseBranch thenIh elseIh =>
    rw [statement]
    refine (thenIh state older).bind fun thenResult middle first => ?_
    refine (elseIh middle (List.Subset.trans older first.grows)).bind fun elseResult after rest => ?_
    exact .pure ((first.and rest).imp fun both => .ifElse span condition both.1 both.2)
  | whileLoop span condition body ih =>
    rw [statement]
    refine (ih state older).bind fun result after inside => ?_
    exact .pure (inside.imp (.whileLoop span condition))
  | bareLoop span condition update body ih =>
    rw [statement]
    refine (ih state older).bind fun result after inside => ?_
    exact .pure (inside.imp (.bareLoop span condition update))
  | forLoop span init condition update body initIh bodyIh =>
    rw [statement, enter, leave]
    refine .bindModify ?_
    let opened : FlattenState := { state with locals := state.locals.enter }
    refine Ensures.bind (initIh opened older) fun start middle first => ?_
    refine (bodyIh middle (List.Subset.trans older first.grows)).bind fun result after rest => ?_
    exact .bindModify (.pure ((first.and rest).imp fun both =>
      .forLoop span condition update both.1 both.2))
  | doWhile span body condition ih =>
    rw [statement]
    refine (ih state older).bind fun result after inside => ?_
    exact .pure (inside.imp (.doWhile span condition))
  | switch span subject body ih =>
    rw [statement]
    refine (ih state older).bind fun result after inside => ?_
    exact .pure (inside.imp (.switch span subject))
  | caseLabel span value labelled ih =>
    rw [statement]
    refine (ih state older).bind fun result after inside => ?_
    exact .pure (inside.imp (.caseLabel span value))
  | defaultLabel span labelled ih =>
    rw [statement]
    refine (ih state older).bind fun result after inside => ?_
    exact .pure (inside.imp (.defaultLabel span))
  | labelled span label labelled ih =>
    rw [statement]
    refine (ih state older).bind fun result after inside => ?_
    exact .pure (inside.imp (.labelled span label))
  | declaration | expression | typeDefinition | returnStatement | breakStatement
  | continueStatement | gotoStatement | empty => exact .stay (.same _)

theorem body_rewrites (whole : Statement) (state : FlattenState) (older : old ⊆ state.registry.used) :
    Ensures (body targets whole) state fun result after =>
      Reaches limit state.registry after.registry
        (Statement.Rewrites new whole result) := by
  refine (statement_rewritten supplies whole state older).bind fun first second start => ?_
  have older := List.Subset.trans older start.grows
  refine (statement_rewritten supplies first second older).bind fun middle third next => ?_
  have older := List.Subset.trans older next.grows
  refine (statement_rewritten supplies middle third older).mono fun result after last => ?_
  refine ((start.and next).and last).imp fun ⟨⟨firstRound, secondRound⟩, thirdRound⟩ => ?_
  exact ((Relation.ReflTransGen.single firstRound).tail secondRound).tail thirdRound

end Flatten

/-!
## Flattening a function

What all rounds together do to a function: where its calls go, and which temporaries are declared
at the start of its body.
-/

namespace Flatten

variable {targets : Association CType} {round : FlattenRound}

/-! ### What making temporaries preserves -/

/-- A property of states that scopes do not matter for and that a new temporary preserves. -/
structure Invariant (targets : Association CType) (holds : FlattenState → Prop) : Prop where
  locals : ∀ state locals, holds state → holds { state with locals := locals }
  temporary : ∀ state callee, targets.contains callee → holds state →
    Ensures (temporary targets callee) state fun _ after => holds after

namespace Invariant

variable {holds : FlattenState → Prop}

theorem assignResult (invariant : Invariant targets holds) (statement : Statement) (state : FlattenState) (before : holds state) :
    Ensures (Flatten.assignResult targets statement) state fun _ after => holds after := by
  unfold Flatten.assignResult
  refine .bindGet ?_
  split
  · exact .pure before
  · split
    · exact .pure before
    · next callee target =>
      split
      · exact .pure before
      · refine (invariant.temporary state callee (contains_of_targetOf? target) before).bind
          fun name after holds => ?_
        exact .pure holds

mutual

theorem hoistFrom (invariant : Invariant targets holds) : ∀ (argument : Expr) (state : FlattenState), holds state →
    Ensures (Flatten.hoistFrom targets argument) state fun _ after => holds after
  | .call span function arguments => by
    intro state before
    rw [Flatten.hoistFrom]
    refine .bindGet ?_
    split
    · next callee target =>
      refine (invariant.temporary state callee (contains_of_targetOf? target) before).bind
        fun name middle holds => ?_
      exact (hoistFromList invariant arguments middle holds).bind fun result after holds => .pure holds
    · exact (hoistFromList invariant arguments state before).bind fun result after holds => .pure holds
  | .intLiteral .. | .floatLiteral .. | .charLiteral .. | .stringLiteral .. | .identifier ..
  | .binary .. | .unary .. | .member .. | .conditional .. | .cast .. | .sizeofExpr ..
  | .sizeofType .. | .compoundLiteral .. | .comma .. | .typeArgument .. => fun _ before => before

theorem hoistFromList (invariant : Invariant targets holds) : ∀ (arguments : List Expr) (state : FlattenState), holds state →
    Ensures (Flatten.hoistFromList targets arguments) state fun _ after => holds after
  | [] => fun _ before => before
  | argument :: arguments => by
    intro state before
    rw [Flatten.hoistFromList]
    refine (hoistFrom invariant argument state before).bind fun first middle holds => ?_
    exact (hoistFromList invariant arguments middle holds).bind fun others after holds => .pure holds

end

theorem hoistArguments (invariant : Invariant targets holds) (statement : Statement) (state : FlattenState) (before : holds state) :
    Ensures (Flatten.hoistArguments targets statement) state fun _ after => holds after := by
  unfold Flatten.hoistArguments
  split
  · refine (invariant.hoistFromList _ state before).bind fun result after holds => ?_
    dsimp only
    split
    · exact .pure holds
    · exact .pure holds
  · exact .pure before

theorem passAddress (statement : Statement) (state : FlattenState) (before : holds state) :
    Ensures (Flatten.passAddress targets statement) state fun _ after => holds after := by
  unfold Flatten.passAddress
  refine .bindGet ?_
  split
  · split
    · exact .pure before
    · exact .pure before
  · exact .pure before

theorem replacement (invariant : Invariant targets holds) (statement : Statement) (state : FlattenState) (before : holds state) :
    Ensures (Flatten.replacement targets round statement) state fun _ after => holds after := by
  cases round with
  | assignResults => exact invariant.assignResult statement state before
  | hoistArguments => exact invariant.hoistArguments statement state before
  | passAddresses => exact passAddress statement state before

theorem replacements (invariant : Invariant targets holds) (statements : List Statement) (state : FlattenState) (before : holds state) :
    Ensures (Flatten.replacements targets round statements) state fun _ after => holds after := by
  induction statements generalizing state with
  | nil => exact before
  | cons statement statements ih =>
    refine .bindModify ?_
    refine (invariant.replacement statement _ (invariant.locals state _ before)).bind
      fun first middle holds => ?_
    exact (ih middle holds).bind fun others after holds => .pure holds

theorem statements (entries : List Statement)
    (each : ∀ entry ∈ entries, ∀ state, holds state →
      Ensures (Flatten.statement targets round entry) state fun _ after => holds after)
    (replaced : List (Option (List Statement))) (state : FlattenState) (before : holds state) :
    Ensures (Flatten.statements targets round replaced entries) state fun _ after =>
      holds after := by
  induction entries generalizing replaced state with
  | nil =>
    rw [Flatten.statements]
    exact .pure before
  | cons entry entries ih =>
    have others := fun other (member : other ∈ entries) => each other (by simp [member])
    have kept : Ensures (do
        let first ← Flatten.statement targets round entry
        return first :: (← Flatten.statements targets round replaced.tail entries)) state
        fun _ after => holds after := by
      refine (each entry (by simp) state before).bind fun first middle holds => ?_
      exact (ih others replaced.tail middle holds).bind fun rest after holds => .pure holds
    cases replaced with
    | nil => exact kept
    | cons option rest =>
      cases option with
      | none => exact kept
      | some plain =>
        exact (ih others rest state before).bind fun result after holds => .pure holds

theorem statement (invariant : Invariant targets holds) (entry : Statement) (state : FlattenState) (before : holds state) :
    Ensures (Flatten.statement targets round entry) state fun _ after => holds after := by
  induction entry generalizing state with
  | block span entries each =>
    rw [Flatten.statement]
    refine .bindModify ?_
    refine (invariant.replacements entries _ (invariant.locals state _ before)).bind
      fun replaced middle holds => ?_
    refine .bindModify (.bindModify ?_)
    have opened := invariant.locals _ middle.locals.leave.enter holds
    refine (statements entries each replaced _ opened).bind fun result after holds => ?_
    exact .bindModify (.pure (invariant.locals after _ holds))
  | declaration span declarations => exact invariant.locals state _ before
  | ifElse span condition thenBranch elseBranch thenIh elseIh =>
    rw [Flatten.statement]
    refine (thenIh state before).bind fun first middle holds => ?_
    exact (elseIh middle holds).bind fun second after holds => .pure holds
  | forLoop span init condition update body initIh bodyIh =>
    rw [Flatten.statement]
    refine .bindModify ?_
    refine (initIh _ (invariant.locals state _ before)).bind fun start middle holds => ?_
    refine (bodyIh middle holds).bind fun result after holds => ?_
    exact .bindModify (.pure (invariant.locals after _ holds))
  | ifThen _ _ _ ih | whileLoop _ _ _ ih | bareLoop _ _ _ _ ih | doWhile _ _ _ ih
  | switch _ _ _ ih | caseLabel _ _ _ ih | defaultLabel _ _ ih | labelled _ _ _ ih =>
    rw [Flatten.statement]
    exact (ih state before).bind fun result after holds => .pure holds
  | _ => exact before

theorem body (invariant : Invariant targets holds) (whole : Statement) (state : FlattenState) (before : holds state) :
    Ensures (Flatten.body targets whole) state fun _ after => holds after := by
  refine (invariant.statement whole state before).bind fun first middle holds => ?_
  refine (invariant.statement first middle holds).bind fun second after holds => ?_
  exact invariant.statement second after holds

end Invariant

/-- The temporaries that have been made since the registry was in a state: their names came from
it, and each takes what a target returns. -/
structure Temporaries (targets : Association CType) (registry : Registry) (state : FlattenState) :
    Prop where
  issues : Registry.Issues registry state.registry (state.temporaries.map Declaration.name)
  made : ∀ temporary ∈ state.temporaries, ∃ callee result, targets.find? callee = some result ∧
    temporary = .ofVariable temporary.name result.valueType
  named : ∀ temporary ∈ state.temporaries, ∃ callee number, targets.contains callee ∧
    temporary.name = Registry.numbered (callee ++ "_ret") number

theorem temporaries_invariant (targets : Association CType) (registry : Registry) :
    Invariant targets (Temporaries targets registry) where
  locals _ _ before := ⟨before.issues, before.made, before.named⟩
  temporary state callee isTarget before := by
    obtain ⟨result, found⟩ := Option.isSome_iff_exists.mp isTarget
    refine .bindGet (.bindSet (.pure ⟨?_, ?_, List.forall_mem_append.mpr
      ⟨before.named, List.forall_mem_singleton.mpr ⟨callee, _, isTarget, rfl⟩⟩⟩))
    · rw [List.map_append]
      exact before.issues.trans (Registry.fresh_issues _ state.registry)
    · intro made member
      rcases List.mem_append.mp member with member | member
      · exact before.made made member
      · refine ⟨callee, result, found, ?_⟩
        rw [List.mem_singleton.mp member, found]
        rfl

/-! ### All rounds -/

def flattened (targets : Association CType) (occurrence : Occurrence Bindings) :
    Occurrence Bindings :=
  if occurrence.isPositioned && callsTarget targets occurrence then
    { occurrence with place := .call .whole }
  else occurrence

theorem moved_all (occurrence : Occurrence Bindings) :
    moved targets .passAddresses (moved targets .hoistArguments
      (moved targets .assignResults occurrence)) = flattened targets occurrence := by
  obtain ⟨use, place, inBlock, scope⟩ := occurrence
  cases inBlock with
  | false => simp [moved, flattened, Occurrence.isPositioned]
  | true =>
    cases isTarget : callsTarget targets ⟨use, place, true, scope⟩ with
    | false => simp [moved, flattened, isTarget]
    | true =>
      have anywhere : ∀ place, callsTarget targets ⟨use, place, true, scope⟩ = true :=
        fun _ => isTarget
      cases place <;>
        simp [moved, flattened, anywhere, Occurrence.isPositioned, FlattenRound.placeFrom]

variable {known : String → Bool}

/-- A body behind all rounds. -/
structure Flattens (known : String → Bool) (targets : Association CType) (scope : Bindings)
    (whole result : Statement) : Prop where
  braced : result.Braced
  isBlock : result.isBlock
  calls : (result.calls known false scope).Perm
    ((whole.calls known false scope).map (flattened targets))

theorem body_ensures (covers : ∀ name, targets.contains name → known name) {whole : Statement}
    (braced : whole.Braced) (isBlock : whole.isBlock) (state : FlattenState) (scope : Bindings)
    (agrees : state.locals.Agrees known scope) :
    Ensures (body targets whole) state fun result _ => Flattens known targets scope whole result := by
  refine (statement_ensures (assignResult_sound covers) braced state scope agrees).bind
    fun first second holds => ?_
  obtain ⟨keeps, firstMoves⟩ := holds
  rw [Keeps, Statement.scopeAfter_of_isBlock _ _ isBlock] at keeps
  have firstBlock := firstMoves.sameForm.isBlock.trans isBlock
  refine (statement_ensures (hoistArguments_sound covers) firstMoves.braced second scope
    (keeps ▸ agrees)).bind fun middle third holds => ?_
  obtain ⟨keepsAgain, middleMoves⟩ := holds
  rw [Keeps, Statement.scopeAfter_of_isBlock _ _ firstBlock] at keepsAgain
  have middleBlock := middleMoves.sameForm.isBlock.trans firstBlock
  refine (statement_ensures (passAddress_sound covers) middleMoves.braced third scope
    ((keepsAgain.trans keeps) ▸ agrees)).mono fun result after holds => ?_
  obtain ⟨-, lastMoves⟩ := holds
  refine ⟨lastMoves.braced, lastMoves.sameForm.isBlock.trans middleBlock, ?_⟩
  refine lastMoves.calls.trans ((middleMoves.calls.map _).trans ?_)
  rw [List.map_map]
  refine (firstMoves.calls.map _).trans (List.Perm.of_eq ?_)
  rw [List.map_map]
  exact List.map_congr_left fun occurrence _ => moved_all occurrence

end Flatten

/-! ### The types of temporaries -/

theorem CType.uses_withoutBodies_subset : ∀ type : CType, type.withoutBodies.uses ⊆ type.uses
  | .record _ (some _) fields => by simp [withoutBodies, uses]
  | .enumeration (some _) enumerators => by simp [withoutBodies, uses]
  | .pointer _ target => target.uses_withoutBodies_subset
  | .array element none => element.uses_withoutBodies_subset
  | .array element (some size) => by
    have inner := element.uses_withoutBodies_subset
    refine List.append_subset.mpr ⟨?_, List.subset_append_right _ _⟩
    exact List.subset_append_of_subset_left _ inner
  | .function result parameters _ => by
    have inner := result.uses_withoutBodies_subset
    refine List.append_subset.mpr ⟨?_, List.subset_append_right _ _⟩
    exact List.subset_append_of_subset_left _ inner
  | .qualified _ inner => inner.uses_withoutBodies_subset
  | .record _ none _ | .enumeration none _ | .basic _ | .named _ => List.Subset.refl _

theorem CType.uses_valueType_subset (result : CType) : result.valueType.uses ⊆ result.uses := by
  rw [← result.uses_unqualified]
  unfold CType.valueType
  split
  · next pointed => rw [pointed]; exact List.Subset.refl _
  · exact CType.uses_withoutBodies_subset _

def CallFree (known : String → Bool) (uses : List Use) : Prop :=
  ∀ name, .called name ∈ uses → known name = false

theorem Occurrence.callsAmong_elsewhereAt_of_callFree {known : String → Bool} {uses : List Use}
    (callFree : CallFree known uses) {σ : Type} (scope : σ) :
    callsAmong known (elsewhereAt scope uses) = [] := by
  unfold callsAmong
  rw [List.filter_eq_nil_iff]
  intro occurrence member
  obtain ⟨use, found, rfl⟩ := List.mem_map.mp member
  cases use with
  | mentioned name => simp [Use.isCallOf]
  | called name => simp [Use.isCallOf, callFree name found]

/-- Objects with unknown names can be declared at the start of a block: the calls in their
declarations are in no statement of the block. -/
theorem Statement.exists_listCalls_objects {known : String → Bool} (objects : List Declaration)
    (unknown : ∀ declared ∈ objects, known declared.name = false) (scope : Bindings)
    (statements : List Statement) : ∃ inside, (∀ occurrence ∈ inside, occurrence.inBlock = false) ∧
      Statement.listCalls known scope (objects.map Statement.ofDeclaration ++ statements) =
        inside ++ Statement.listCalls known scope statements := by
  induction objects with
  | nil => exact ⟨[], fun _ member => absurd member List.not_mem_nil, rfl⟩
  | cons first rest ih =>
    obtain ⟨inside, outside, same⟩ := ih fun declared member => unknown declared (by simp [member])
    have sameScope : (Statement.ofDeclaration first).scopeAfter (.bindings known) scope = scope := by
      simp [Statement.ofDeclaration, Statement.scopeAfter, Scoping.bindings, unknown first]
    refine ⟨(Statement.ofDeclaration first).calls known true scope ++ inside, ?_, ?_⟩
    · intro occurrence member
      rcases List.mem_append.mp member with member | member
      · simp only [Statement.ofDeclaration, Statement.calls, Statement.occurrences,
          Declaration.listOccurrences, Declaration.occurrences, Occurrence.callsAmong_append,
          List.append_nil, List.mem_append] at member
        rcases member with member | member <;>
          obtain ⟨use, -, rfl⟩ := List.mem_map.mp (List.mem_filter.mp member).1 <;> rfl
      · exact outside occurrence member
    · rw [List.map_cons, List.cons_append, Statement.listCalls_cons, sameScope, same,
        List.append_assoc]

theorem Statement.listCalls_objects {known : String → Bool} (objects : List Declaration)
    (unknown : ∀ declared ∈ objects, known declared.name = false)
    (callFree : ∀ declared ∈ objects, CallFree known declared.type.uses) (initialized : ∀ declared ∈ objects,
      CallFree known (optionalUses Initializer.uses declared.initializer))
    (scope : Bindings) (statements : List Statement) :
    Statement.listCalls known scope (objects.map Statement.ofDeclaration ++ statements) =
      Statement.listCalls known scope statements := by
  induction objects with
  | nil => rfl
  | cons first rest ih =>
    have sameScope : (Statement.ofDeclaration first).scopeAfter (.bindings known) scope = scope := by
      simp [Statement.ofDeclaration, Statement.scopeAfter, Scoping.bindings, unknown first]
    have noCalls : (Statement.ofDeclaration first).calls known true scope = [] := by
      simp only [Statement.ofDeclaration, Statement.calls, Statement.occurrences,
        Declaration.listOccurrences, Declaration.occurrences, Occurrence.callsAmong_append,
        Occurrence.callsAmong_elsewhereAt_of_callFree (callFree first (by simp)),
        Occurrence.callsAmong_elsewhereAt_of_callFree (initialized first (by simp))]
      rfl
    rw [List.map_cons, List.cons_append, Statement.listCalls_cons, noCalls, sameScope, List.nil_append]
    exact ih (fun declared member => unknown declared (by simp [member]))
      (fun declared member => callFree declared (by simp [member]))
      (fun declared member => initialized declared (by simp [member]))

/-! ### The function -/

/-- How flattening changes a function: temporaries at the start of another body. -/
structure Function.Flattening (targets : Association CType) (function : Function)
    (registry : Registry) (result : Function) (after : Registry) (temporaries : List Declaration)
    (body : Statement) : Prop where
  result : result = { function with
    body := body.precededBy (temporaries.map Statement.ofDeclaration) }
  issues : Registry.Issues registry after (temporaries.map Declaration.name)
  made : ∀ temporary ∈ temporaries, ∃ callee type, targets.find? callee = some type ∧
    temporary = .ofVariable temporary.name type.valueType
  named : ∀ temporary ∈ temporaries, ∃ callee number, targets.contains callee ∧
    temporary.name = Registry.numbered (callee ++ "_ret") number
  flattens : ∀ known : String → Bool, (∀ name, targets.contains name → known name) →
    function.body.Braced → function.body.isBlock →
      Flatten.Flattens known targets ((Scoping.bindings known).ofFunction function)
        function.body body
  rewrites : ∀ new : Word → Prop, Flatten.Supplies targets registry.used after.used new →
    function.body.Rewrites new body

theorem Statement.precededBy_nil (statement : Statement) : statement.precededBy [] = statement := by
  cases statement <;> rfl

def Function.temporaries (targets : Association CType) (function : Function)
    (registry : Registry) : List Declaration :=
  if targets.isEmpty then []
  else
    ((Flatten.body targets function.body).run ⟨.ofFunction function, registry, []⟩).2.temporaries

theorem Function.flattenCalls_flattening_temporaries (targets : Association CType)
    (function : Function) (registry : Registry) : ∃ body, function.Flattening targets registry
      (function.flattenCalls targets registry).1 (function.flattenCalls targets registry).2
      (function.temporaries targets registry) body := by
  unfold flattenCalls temporaries
  split
  · next noTargets =>
    refine ⟨function.body, ?_, .nothing registry, by simp, by simp, ?_, fun _ _ => .refl⟩
    · rw [List.map_nil, Statement.precededBy_nil]
    · intro known covers braced isBlock
      have unchanged : ∀ occurrence, Flatten.flattened targets occurrence = occurrence := by
        intro occurrence
        rw [List.isEmpty_iff.mp noTargets]
        unfold Flatten.flattened Flatten.callsTarget
        cases occurrence.use <;> simp [Association.contains, Association.find?]
      refine ⟨braced, isBlock, List.Perm.of_eq ?_⟩
      rw [funext unchanged, List.map_id']
  · let start : FlattenState := ⟨.ofFunction function, registry, []⟩
    have made := (Flatten.temporaries_invariant targets registry).body
      function.body start ⟨.nothing registry, by simp [start], by simp [start]⟩
    refine ⟨_, rfl, made.issues, made.made, made.named, ?_, fun new supplies =>
      (Flatten.body_rewrites supplies function.body start
        (List.Subset.refl _)).reached (List.Subset.refl _)⟩
    intro known covers braced isBlock
    exact Flatten.body_ensures covers braced isBlock start _ (.ofFunction function)

theorem Function.flattenCalls_flattening (targets : Association CType) (function : Function)
    (registry : Registry) : ∃ temporaries body, function.Flattening targets registry
      (function.flattenCalls targets registry).1 (function.flattenCalls targets registry).2
      temporaries body :=
  ⟨_, function.flattenCalls_flattening_temporaries targets registry⟩

namespace Function.Flattening

variable {targets : Association CType} {function result : Function} {registry after : Registry}
  {temporaries : List Declaration} {body : Statement}

theorem form (flattening : function.Flattening targets registry result after temporaries body)
    (braced : function.body.Braced) (isBlock : function.body.isBlock) :
    result.body.Braced ∧ result.body.isBlock := by
  have flattens := flattening.flattens (fun _ => true) (fun _ _ => rfl) braced isBlock
  rw [flattening.result]
  cases body with
  | block span statements =>
    have bodyBraced := flattens.braced
    cases bodyBraced with
    | block _ _ each =>
      refine ⟨.block span _ fun statement member => ?_, rfl⟩
      rcases List.mem_append.mp member with member | member
      · obtain ⟨temporary, -, rfl⟩ := List.mem_map.mp member
        exact .declaration _ _
      · exact each statement member
  | _ => cases flattens.isBlock

theorem calls_body (flattening : function.Flattening targets registry result after temporaries body)
    {known : String → Bool} (isBlock : body.isBlock) (old : ∀ name, known name → name ∈ registry.used)
    (callFree : ∀ callee type, targets.find? callee = some type → CallFree known type.uses) :
    result.calls known = Function.calls known { function with body := body } := by
  rw [flattening.result]
  cases body with
  | block span statements =>
    have typed : ∀ temporary ∈ temporaries, CallFree known temporary.type.uses ∧
        temporary.initializer = none := by
      intro temporary member
      obtain ⟨callee, type, found, same⟩ := flattening.made temporary member
      rw [same]
      exact ⟨fun name called => callFree callee type found name (type.uses_valueType_subset called),
        rfl⟩
    refine Statement.listCalls_objects temporaries ?_ (fun temporary member =>
      (typed temporary member).1) ?_ _ statements
    · intro temporary member
      have new := flattening.issues.fresh _ (List.mem_map_of_mem member)
      exact Bool.eq_false_iff.mpr fun isKnown => new (old _ isKnown)
    · intro temporary member
      rw [(typed temporary member).2]
      exact fun _ called => absurd called List.not_mem_nil
  | _ => cases isBlock

theorem sites_body (flattening : function.Flattening targets registry result after temporaries body)
    {known : String → Bool} (isBlock : body.isBlock) (old : ∀ name, known name → name ∈ registry.used) :
    (result.calls known).filter (·.inBlock) =
      (Function.calls known { function with body := body }).filter (·.inBlock) := by
  rw [flattening.result]
  cases body with
  | block span statements =>
    obtain ⟨inside, outside, same⟩ := Statement.exists_listCalls_objects temporaries
      (fun temporary member => Bool.eq_false_iff.mpr fun isKnown =>
        flattening.issues.fresh _ (List.mem_map_of_mem member) (old _ isKnown))
      ((Scoping.bindings known).enter ((Scoping.bindings known).ofFunction function)) statements
    have none : inside.filter (·.inBlock) = [] :=
      List.filter_eq_nil_iff.mpr fun occurrence member => by simp [outside occurrence member]
    refine (congrArg (List.filter (·.inBlock)) same).trans ?_
    rw [List.filter_append, none]
    rfl
  | _ => cases isBlock

theorem calls (flattening : function.Flattening targets registry result after temporaries body)
    {known : String → Bool} (covers : ∀ name, targets.contains name → known name)
    (braced : function.body.Braced) (isBlock : function.body.isBlock)
    (old : ∀ name, known name → name ∈ registry.used)
    (callFree : ∀ callee type, targets.find? callee = some type → CallFree known type.uses) :
    (result.calls known).Perm ((function.calls known).map (Flatten.flattened targets)) := by
  have flattens := flattening.flattens known covers braced isBlock
  rw [flattening.calls_body flattens.isBlock old callFree]
  exact flattens.calls

end Function.Flattening

end InlineMacro
