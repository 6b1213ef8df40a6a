import InlineMacro.Proofs.Registry
import InlineMacro.Proofs.Scope.Calls
import InlineMacro.Proofs.Syntax.Parts
import InlineMacro.Proofs.Syntax.Traverse
import Mathlib.Data.List.Forall2

/-!
# Calls behind the replacement of returns

In a braced body every return is a statement of a block, so none is misplaced. What takes the place
of returns has the calls of known functions in the same order and in the same scopes; only a call
that is returned itself gets another position.
-/

set_option autoImplicit false

namespace InlineMacro

/-- An occurrence behind a replacement of returns that gives returned calls another position. What
stands elsewhere may stand in any place then. -/
structure Occurrence.Restated {σ : Type} (position : CallPosition) (result entry : Occurrence σ) :
    Prop where
  use : result.use = entry.use
  inBlock : result.inBlock = entry.inBlock
  scope : result.scope = entry.scope
  place : entry.place = .elsewhere ∨ result.place = entry.place ∨
    (entry.place = .call .returned ∧ result.place = .call position)

theorem Occurrence.Restated.refl {σ : Type} (position : CallPosition) (occurrence : Occurrence σ) :
    Occurrence.Restated position occurrence occurrence :=
  ⟨rfl, rfl, rfl, .inr (.inl rfl)⟩

abbrev Occurrence.AllRestated (position : CallPosition) (results entries : List (Occurrence Bindings)) :
    Prop :=
  List.Forall₂ (Occurrence.Restated position) results entries

namespace Occurrence.AllRestated

variable {position : CallPosition}

theorem refl (occurrences : List (Occurrence Bindings)) : AllRestated position occurrences occurrences :=
  List.forall₂_same.mpr fun occurrence _ => .refl position occurrence

theorem append {first first' second second' : List (Occurrence Bindings)}
    (former : AllRestated position first first') (latter : AllRestated position second second') :
    AllRestated position (first ++ second) (first' ++ second') :=
  List.rel_append former latter

theorem exists_of_mem {results entries : List (Occurrence Bindings)}
    (restated : AllRestated position results entries) :
    ∀ result ∈ results, ∃ entry ∈ entries, Occurrence.Restated position result entry := by
  induction restated with
  | nil => exact fun _ member => absurd member List.not_mem_nil
  | cons first _ ih =>
    intro result member
    rcases List.mem_cons.mp member with rfl | member
    · exact ⟨_, List.mem_cons_self, first⟩
    · obtain ⟨entry, found, same⟩ := ih result member
      exact ⟨entry, List.mem_cons_of_mem _ found, same⟩

end Occurrence.AllRestated

namespace Statement

def isReturn : Statement → Bool
  | .returnStatement .. => true
  | _ => false

variable {known : String → Bool} {replacement : ReturnReplacement} {position : CallPosition}

def ReplacesReturns (known : String → Bool) (replacement : ReturnReplacement)
    (position : CallPosition) : Prop :=
  ∀ span value plain, replacement span value = some plain →
    (∀ statement ∈ plain, statement.Braced ∧ statement.declared = []) ∧
    ∀ scope, Occurrence.AllRestated position (listCalls known scope plain)
      ((Statement.returnStatement span value).calls known true scope)

/-! ## Misplaced returns -/

theorem listHasMisplacedReturn_eq_false {statements : List Statement}
    (each : ∀ statement ∈ statements, statement.isReturn = false →
      statement.hasMisplacedReturn replacement = false) :
    listHasMisplacedReturn replacement statements = false := by
  induction statements with
  | nil => rw [listHasMisplacedReturn]
  | cons statement statements ih =>
    rw [listHasMisplacedReturn, ih fun other member => each other (by simp [member])]
    cases isReturn : statement.isReturn with
    | false => rw [each statement (by simp) isReturn, Bool.and_false, Bool.or_false]
    | true =>
      cases statement with
      | returnStatement span value =>
        rw [replacedReturn?, hasMisplacedReturn]
        cases replacement span value <;> rfl
      | _ => cases isReturn

variable {statement : Statement}

theorem not_isReturn_of_isBlock (isBlock : statement.isBlock) : statement.isReturn = false := by
  cases statement with
  | block => rfl
  | _ => cases isBlock

theorem not_isReturn_of_isMarked (marked : statement.isMarked) : statement.isReturn = false := by
  cases statement with
  | returnStatement => cases marked
  | _ => rfl

theorem IsLoopHead.hasMisplacedReturn (head : statement.IsLoopHead) :
    statement.hasMisplacedReturn replacement = false := by
  cases head <;> rw [Statement.hasMisplacedReturn] <;> simp

theorem Braced.hasMisplacedReturn (braced : statement.Braced)
    (replacement : ReturnReplacement) (notReturn : statement.isReturn = false) :
    statement.hasMisplacedReturn replacement = false := by
  induction braced with
  | block span statements each ih =>
    rw [Statement.hasMisplacedReturn]
    exact listHasMisplacedReturn_eq_false ih
  | ifElse span condition thenBranch elseBranch thenBlock elseBlock _ _ thenIh elseIh =>
    rw [Statement.hasMisplacedReturn, thenIh (not_isReturn_of_isBlock thenBlock),
      elseIh (not_isReturn_of_isBlock elseBlock)]
    rfl
  | forLoop span init condition update body head bodyBlock _ ih =>
    rw [Statement.hasMisplacedReturn, head.hasMisplacedReturn, ih (not_isReturn_of_isBlock bodyBlock)]
    rfl
  | whileLoop _ _ _ bodyBlock _ ih | bareLoop _ _ _ _ bodyBlock _ ih
  | doWhile _ _ _ bodyBlock _ ih | switch _ _ _ bodyBlock _ ih =>
    rw [Statement.hasMisplacedReturn, ih (not_isReturn_of_isBlock bodyBlock)]
  | caseLabel _ _ _ marked _ ih | defaultLabel _ _ marked _ ih | labelled _ _ _ marked _ ih =>
    rw [Statement.hasMisplacedReturn, ih (not_isReturn_of_isMarked marked)]
  | returnStatement => cases notReturn
  | _ => simp [Statement.hasMisplacedReturn]

/-! ## Replacing returns -/

/-- A statement behind a replacement of returns. -/
structure Returns (known : String → Bool) (position : CallPosition) (entry result : Statement) :
    Prop where
  braced : result.Braced
  sameForm : result.SameForm entry
  declared : result.declared = entry.declared
  isPlain : result.isPlain = entry.isPlain
  calls : ∀ scope, Occurrence.AllRestated position (result.calls known false scope)
    (entry.calls known false scope)

variable {entry : Statement}

theorem Returns.refl (braced : entry.Braced) : Returns known position entry entry :=
  ⟨braced, .refl entry, rfl, rfl, fun _ => .refl _⟩

theorem Returns.scopeAfter {result : Statement} (returns : Returns known position entry result)
    (braced : entry.Braced) {σ : Type} (scoping : Scoping σ) (scope : σ) :
    result.scopeAfter scoping scope = entry.scopeAfter scoping scope := by
  rw [returns.braced.scopeAfter_eq, braced.scopeAfter_eq, returns.declared]

theorem replaceReturns_of_head (head : entry.IsLoopHead) : entry.replaceReturns replacement = entry := by
  cases head <;> simp [replaceReturns]

theorem replaceReturns_of_plain (isPlain : entry.isPlain) : entry.replaceReturns replacement = entry := by
  cases entry with
  | expression | returnStatement => simp [replaceReturns]
  | _ => cases isPlain

theorem foldl_scopeAfter_of_declared {σ : Type} (scoping : Scoping σ) (scope : σ)
    {statements : List Statement}
    (nothing : ∀ statement ∈ statements, statement.Braced ∧ statement.declared = []) :
    statements.foldl (Statement.scopeAfter scoping) scope = scope := by
  induction statements with
  | nil => rfl
  | cons first rest ih =>
    obtain ⟨braced, declared⟩ := nothing first (by simp)
    rw [List.foldl_cons, braced.scopeAfter_eq, declared]
    exact ih fun statement member => nothing statement (by simp [member])

theorem replaceReturnsList_calls (sound : ReplacesReturns known replacement position)
    {entries : List Statement} (each : ∀ entry ∈ entries, entry.Braced ∧
      Returns known position entry (entry.replaceReturns replacement)) :
    (∀ statement ∈ replaceReturnsList replacement entries, statement.Braced) ∧
    ∀ scope, Occurrence.AllRestated position (listCalls known scope (replaceReturnsList replacement entries))
      (listCalls known scope entries) := by
  induction entries with
  | nil =>
    rw [replaceReturnsList]
    exact ⟨fun _ member => absurd member List.not_mem_nil, fun _ => .nil⟩
  | cons entry entries ih =>
    obtain ⟨othersBraced, othersCalls⟩ := ih fun other member => each other (by simp [member])
    obtain ⟨braced, returns⟩ := each entry (by simp)
    rw [replaceReturnsList]
    cases replaced : entry.replacedReturn? replacement with
    | none =>
      refine ⟨?_, fun scope => ?_⟩
      · intro statement member
        rcases List.mem_cons.mp member with rfl | member
        · exact returns.braced
        · exact othersBraced statement member
      · change Occurrence.AllRestated position
          (listCalls known scope (entry.replaceReturns replacement :: _)) _
        rw [listCalls_cons, listCalls_cons, returns.scopeAfter braced]
        refine .append ?_ (othersCalls _)
        cases isPlain : entry.isPlain with
        | true =>
          rw [replaceReturns_of_plain isPlain]
          exact .refl _
        | false =>
          have stays := returns.calls scope
          rwa [Statement.calls, Statement.calls,
            ← occurrences_of_not_plain _ (returns.isPlain.trans isPlain) true,
            ← occurrences_of_not_plain _ isPlain true] at stays
    | some result =>
      cases entry with
      | returnStatement span value =>
        obtain ⟨nothing, calls⟩ := sound span value result replaced
        refine ⟨?_, fun scope => ?_⟩
        · intro statement member
          rcases List.mem_append.mp member with member | member
          · exact (nothing statement member).1
          · exact othersBraced statement member
        · rw [Option.getD_some, listCalls_append, listCalls_cons,
            foldl_scopeAfter_of_declared _ _ nothing]
          exact (calls scope).append (othersCalls scope)
      | _ => cases replaced

theorem Returns.compound {result : Statement} (braced : result.Braced)
    (sameForm : result.SameForm entry) (compound : entry.isCompound) (stillCompound : result.isCompound)
    (calls : ∀ scope, Occurrence.AllRestated position (result.calls known false scope)
      (entry.calls known false scope)) : Returns known position entry result where
  braced := braced
  sameForm := sameForm
  declared := by rw [declared_of_compound compound, declared_of_compound stillCompound]
  isPlain := by rw [not_plain_of_compound compound, not_plain_of_compound stillCompound]
  calls := calls

theorem replaceReturns_returns (sound : ReplacesReturns known replacement position) (braced : entry.Braced) :
    Returns known position entry (entry.replaceReturns replacement) := by
  induction braced with
  | block span entries each ih =>
    obtain ⟨resultBraced, calls⟩ := replaceReturnsList_calls sound fun entry member =>
      ⟨each entry member, ih entry member⟩
    rw [replaceReturns]
    exact .compound (.block span _ resultBraced) ⟨rfl, rfl, fun head => by cases head⟩ rfl rfl
      fun scope => calls _
  | ifElse span condition thenBranch elseBranch thenBlock elseBlock thenBraced elseBraced thenIh
      elseIh =>
    have thenStays := thenIh.sameForm.isBlock.trans thenBlock
    have elseStays := elseIh.sameForm.isBlock.trans elseBlock
    rw [replaceReturns]
    refine .compound (.ifElse span condition _ _ thenStays elseStays thenIh.braced elseIh.braced)
      ⟨rfl, rfl, fun head => by cases head⟩ rfl rfl fun scope => ?_
    simp only [Statement.calls, occurrences, Occurrence.callsAmong_append,
      scopeAfter_of_isBlock _ _ thenBlock, scopeAfter_of_isBlock _ _ thenStays]
    exact .append (.refl _) (.append (thenIh.calls scope) (elseIh.calls scope))
  | whileLoop _ _ _ bodyBlock _ ih | bareLoop _ _ _ _ bodyBlock _ ih | switch _ _ _ bodyBlock _ ih =>
    rw [replaceReturns]
    refine .compound ?_ ⟨rfl, rfl, fun head => by cases head⟩ rfl rfl fun scope => ?_
    · constructor
      · exact ih.sameForm.isBlock.trans bodyBlock
      · exact ih.braced
    · simp only [Statement.calls, occurrences, Occurrence.callsAmong_append]
      exact .append (.refl _) (ih.calls scope)
  | forLoop span init condition update body head bodyBlock bodyBraced ih =>
    have stays := ih.sameForm.isBlock.trans bodyBlock
    rw [replaceReturns, replaceReturns_of_head head]
    refine .compound (.forLoop span init condition update _ head stays ih.braced)
      ⟨rfl, rfl, fun head => by cases head⟩ rfl rfl fun scope => ?_
    simp only [Statement.calls, occurrences, Occurrence.callsAmong_append]
    exact .append (.refl _) (.append (.refl _) (ih.calls _))
  | doWhile span body condition bodyBlock bodyBraced ih =>
    have stays := ih.sameForm.isBlock.trans bodyBlock
    rw [replaceReturns]
    refine .compound (.doWhile span _ condition stays ih.braced)
      ⟨rfl, rfl, fun head => by cases head⟩ rfl rfl fun scope => ?_
    simp only [Statement.calls, occurrences, Occurrence.callsAmong_append,
      scopeAfter_of_isBlock _ _ bodyBlock, scopeAfter_of_isBlock _ _ stays]
    exact .append (ih.calls scope) (.refl _)
  | caseLabel span value statement marked statementBraced ih =>
    have stays := ih.sameForm.isMarked.trans marked
    rw [replaceReturns]
    refine .compound (.caseLabel span value _ stays ih.braced)
      ⟨rfl, rfl, fun head => by cases head⟩ rfl rfl fun scope => ?_
    simp only [Statement.calls, occurrences, Occurrence.callsAmong_append]
    exact .append (.refl _) (ih.calls scope)
  | defaultLabel _ _ marked _ ih | labelled _ _ _ marked _ ih =>
    rw [replaceReturns]
    refine .compound ?_ ⟨rfl, rfl, fun head => by cases head⟩ rfl rfl ih.calls
    constructor
    · exact ih.sameForm.isMarked.trans marked
    · exact ih.braced
  | expression | returnStatement =>
    rw [replaceReturns_of_plain rfl]
    exact .refl (by constructor)
  | declaration span declarations =>
    rw [replaceReturns_of_head (.declaration span declarations)]
    exact .refl (.declaration span declarations)
  | typeDefinition span type =>
    rw [replaceReturns_of_head (.typeDefinition span type)]
    exact .refl (.typeDefinition span type)
  | breakStatement | continueStatement | gotoStatement | empty => exact .refl (by constructor)

end Statement

/-! ## The two replacements -/

/-- Two uses with their places, of which the first stands in another position if the second is the
returned call. -/
structure Use.Restated (position : CallPosition) (result entry : Use × UsePlace) : Prop where
  use : result.1 = entry.1
  place : entry.2 = .elsewhere ∨ result.2 = entry.2 ∨
    (entry.2 = .call .returned ∧ result.2 = .call position)

variable {known : String → Bool} {position : CallPosition}

theorem Occurrence.allRestated_placedAt (known : String → Bool) {results entries : List (Use × UsePlace)}
    (restated : List.Forall₂ (Use.Restated position) results entries) (scope : Bindings) (inBlock : Bool) :
    AllRestated position (callsAmong known (placedAt scope inBlock results))
      (callsAmong known (placedAt scope inBlock entries)) := by
  refine List.rel_filter ?_ ?_
  · intro result entry same
    simp only [same.use]
  · rw [placedAt, placedAt, List.forall₂_map_left_iff, List.forall₂_map_right_iff]
    exact restated.imp fun result entry same => ⟨same.use, rfl, rfl, same.place⟩

theorem Use.restated_elsewhere (results : List (Use × UsePlace)) :
    List.Forall₂ (Use.Restated position) results (Use.elsewhere (results.map Prod.fst)) := by
  unfold Use.elsewhere
  rw [List.forall₂_map_right_iff, List.forall₂_map_right_iff, List.forall₂_same]
  exact fun placed _ => ⟨rfl, .inl rfl⟩

theorem Use.restated_refl (uses : List (Use × UsePlace)) : List.Forall₂ (Use.Restated position) uses uses :=
  List.forall₂_same.mpr fun _ _ => ⟨rfl, .inr (.inl rfl)⟩

theorem Expr.restated_placedUses (position : CallPosition) (value : Expr) :
    List.Forall₂ (Use.Restated position) (value.placedUses (.call position))
      (value.placedUses (.call .returned)) := by
  cases value with
  | call span function arguments =>
    rw [placedUses_call, placedUses_call]
    refine List.rel_append ?_ (Use.restated_refl _)
    unfold placedCalleeUses
    cases function.identifier? with
    | none => exact Use.restated_refl _
    | some name => exact .cons ⟨rfl, .inr (.inr ⟨rfl, rfl⟩)⟩ .nil
  | _ => exact Use.restated_refl _

theorem Expr.restated_statementUses (value : Expr) : List.Forall₂ (Use.Restated .whole) value.statementUses
      (value.placedUses (.call .returned)) := by
  cases isCall : value.isCall with
  | true =>
    cases value with
    | call span function arguments => exact Expr.restated_placedUses .whole (.call span function arguments)
    | _ => cases isCall
  | false =>
    rw [placedUses_of_not_call isCall, ← map_fst_statementUses]
    exact Use.restated_elsewhere _

theorem storeThrough_replaces (known : String → Bool) (pointer : String) :
    Statement.ReplacesReturns known (storeThrough pointer) .assigned := by
  intro span value plain replaced
  cases value with
  | none => cases replaced
  | some value =>
    cases replaced
    refine ⟨?_, fun scope => ?_⟩
    · intro statement member
      rcases List.mem_cons.mp member with rfl | member
      · exact ⟨.expression _ _, rfl⟩
      · obtain rfl := List.mem_singleton.mp member
        exact ⟨.returnStatement _ _, rfl⟩
    · have stored := Occurrence.allRestated_placedAt known
        (value.restated_placedUses .assigned) scope true
      simpa [Statement.listCalls_cons, Statement.calls, Statement.occurrences, Expr.assignment,
        Expr.statementUses, Expr.dereference, Expr.ofName, Expr.uses, Use.elsewhere,
        Occurrence.placedAt, Occurrence.callsAmong, Use.isCallOf] using stored

theorem jumpTo_replaces (known : String → Bool) (label : String) :
    Statement.ReplacesReturns known (jumpTo label) .whole := by
  intro span value plain replaced
  cases value with
  | none =>
    cases replaced
    refine ⟨?_, fun scope => .nil⟩
    intro statement member
    obtain rfl := List.mem_singleton.mp member
    exact ⟨.gotoStatement _ _, rfl⟩
  | some value =>
    cases replaced
    refine ⟨?_, fun scope => ?_⟩
    · intro statement member
      rcases List.mem_cons.mp member with rfl | member
      · exact ⟨.expression _ _, rfl⟩
      · obtain rfl := List.mem_singleton.mp member
        exact ⟨.gotoStatement _ _, rfl⟩
    · have restated := Occurrence.allRestated_placedAt known
        (Expr.restated_statementUses value) scope true
      simpa [Statement.listCalls_cons, Statement.calls, Statement.occurrences] using restated

/-! ## The passes -/

theorem Pass.replaceReturns_run (replacement : ReturnReplacement) (work : Work)
    (braced : work.function.body.Braced) (isBlock : work.function.body.isBlock) :
    (Pass.replaceReturns replacement).run work = .ok () { work with
      function := { work.function with body := work.function.body.replaceReturns replacement } } := by
  have placed := braced.hasMisplacedReturn replacement
    (Statement.not_isReturn_of_isBlock isBlock)
  simp [Pass.replaceReturns, Pass.update, placed]

def Function.throughPointer (pointer : String) (function : Function) : Function :=
  { function with
    parameters := ⟨some pointer, .pointerTo function.result.valueType, function.span⟩ ::
      (if function.hasNoParameters then [] else function.parameters)
    result := .basic .void
    body := function.body.replaceReturns (storeThrough pointer) }

theorem Pass.fresh_run (stem : String) (work : Work) :
    (Pass.fresh stem).run work = .ok (work.registry.fresh stem).1
      { work with registry := (work.registry.fresh stem).2 } := rfl

theorem Pass.returnThroughPointer_run (function : Function) (registry : Registry)
    (braced : function.body.Braced) (isBlock : function.body.isBlock) :
    Pass.returnThroughPointer.run ⟨function, registry⟩ = .ok (registry.fresh "retval").1
        ⟨function.throughPointer (registry.fresh "retval").1, (registry.fresh "retval").2⟩ := by
  simp [-bind_pure_comp, Pass.returnThroughPointer, Pass.update, Pass.fresh_run, Pass.replaceReturns_run, braced,
    isBlock, Function.throughPointer]

theorem Statement.isBlock_replaceReturns (replacement : ReturnReplacement) {statement : Statement}
    (isBlock : statement.isBlock) : (statement.replaceReturns replacement).isBlock := by
  cases statement with
  | block span statements =>
    rw [replaceReturns]
    rfl
  | _ => cases isBlock

def Function.jumpingTo (exit : String) (function : Function) : Function :=
  { function with
    body := (function.body.replaceReturns (jumpTo exit)).followedBy
      [.labelled .synthetic exit (.empty .synthetic)] }

theorem Pass.linearize_run (function : Function) (registry : Registry)
    (braced : function.body.Braced) (isBlock : function.body.isBlock) :
    Pass.linearize.run ⟨function, registry⟩ = if function.body.hasReturn then
        .ok (some (registry.fresh "exit").1)
          ⟨function.jumpingTo (registry.fresh "exit").1, (registry.fresh "exit").2⟩
      else .ok none ⟨function, registry⟩ := by
  cases returns : function.body.hasReturn with
  | false => simp [Pass.linearize, returns]
  | true =>
    simp [-bind_pure_comp, Pass.linearize, returns, Pass.update, Pass.fresh_run, Pass.replaceReturns_run, braced,
      isBlock, Statement.isBlock_replaceReturns, Function.jumpingTo]

/-! ## Functions behind the passes -/

/-- A function behind a pass that puts calls in another position but moves none. -/
structure Function.RestatedFrom (known : String → Bool) (position : CallPosition)
    (function result : Function) : Prop where
  unknown : (result.parameters.filterMap Parameter.name).filter known = []
  braced : result.body.Braced
  isBlock : result.body.isBlock
  calls : Occurrence.AllRestated position (result.calls known) (function.calls known)

variable {function : Function}

theorem Function.ofFunction_of_unknown
    (unknown : (function.parameters.filterMap Parameter.name).filter known = []) :
    (Scoping.bindings known).ofFunction function = [[]] := by
  simp only [Scoping.bindings, unknown, List.map_nil]

theorem Function.throughPointer_restatedFrom {pointer : String} (newPointer : known pointer = false)
    (unknown : (function.parameters.filterMap Parameter.name).filter known = [])
    (braced : function.body.Braced) (isBlock : function.body.isBlock) :
    Function.RestatedFrom known .assigned function (function.throughPointer pointer) := by
  have stillUnknown :
      ((function.throughPointer pointer).parameters.filterMap Parameter.name).filter known = [] := by
    unfold throughPointer
    cases function.hasNoParameters <;> simp [newPointer, unknown]
  have returns := Statement.replaceReturns_returns (storeThrough_replaces known pointer) braced
  refine ⟨stillUnknown, returns.braced, Statement.isBlock_replaceReturns _ isBlock, ?_⟩
  rw [calls, calls, ofFunction_of_unknown stillUnknown, ofFunction_of_unknown unknown]
  exact returns.calls _

theorem Function.jumpingTo_restatedFrom (exit : String)
    (unknown : (function.parameters.filterMap Parameter.name).filter known = [])
    (braced : function.body.Braced) (isBlock : function.body.isBlock) :
    Function.RestatedFrom known .whole function (function.jumpingTo exit) := by
  have returns := Statement.replaceReturns_returns (jumpTo_replaces known exit) braced
  have stays := Statement.isBlock_replaceReturns (jumpTo exit) isBlock
  have bodyBraced := returns.braced
  have bodyCalls := returns.calls ((Scoping.bindings known).ofFunction function)
  unfold jumpingTo
  generalize function.body.replaceReturns (jumpTo exit) = body at stays bodyBraced bodyCalls ⊢
  cases body with
  | block span statements =>
    cases bodyBraced with
    | block _ _ each =>
      refine ⟨unknown, .block span _ fun statement member => ?_, rfl, ?_⟩
      · rcases List.mem_append.mp member with member | member
        · exact each statement member
        · rw [List.mem_singleton.mp member]
          exact .labelled _ _ _ rfl (.empty _)
      · have noCalls : ∀ scope, Statement.listCalls known scope
            [Statement.labelled .synthetic exit (.empty .synthetic)] = [] := fun _ => rfl
        change Occurrence.AllRestated .whole
          (Statement.listCalls known _ (statements ++ [.labelled .synthetic exit _])) _
        rw [Statement.listCalls_append, noCalls, List.append_nil]
        exact bodyCalls
  | _ => cases stays

/-! ## Labels -/

namespace Statement

variable {traversal : Traversal Id}

/-- A statement with other labels. -/
structure Relabelled (entry result : Statement) : Prop where
  braced : result.Braced
  sameForm : result.SameForm entry
  scopeAfter : ∀ {σ : Type} (scoping : Scoping σ) (scope : σ),
    result.scopeAfter scoping scope = entry.scopeAfter scoping scope
  occurrences : ∀ {σ : Type} (scoping : Scoping σ) (inBlock : Bool) (scope : σ),
    result.occurrences scoping inBlock scope = entry.occurrences scoping inBlock scope

variable {entry : Statement}

theorem Relabelled.refl (braced : entry.Braced) : Relabelled entry entry :=
  ⟨braced, .refl entry, fun _ _ => rfl, fun _ _ _ => rfl⟩

theorem traverse_of_head (keeps : traversal.KeepsWords)
    (head : entry.IsLoopHead) : Id.run (entry.traverse traversal) = entry := by
  cases head with
  | expression span value => exact congrArg (Statement.expression span) (value.traverse_eq keeps)
  | declaration span declarations =>
    exact congrArg (Statement.declaration span) (Declaration.traverseList_eq keeps declarations)
  | typeDefinition span type => exact congrArg (Statement.typeDefinition span) (type.traverse_eq keeps)

theorem traverseList_relabelled {entries : List Statement}
    (each : ∀ entry ∈ entries, Relabelled entry (Id.run (entry.traverse traversal))) :
    (∀ statement ∈ Id.run (traverseList traversal entries), statement.Braced) ∧
    ∀ {σ : Type} (scoping : Scoping σ) (scope : σ),
      listOccurrences scoping scope (Id.run (traverseList traversal entries)) =
        listOccurrences scoping scope entries := by
  induction entries with
  | nil => exact ⟨fun _ member => absurd member List.not_mem_nil, fun _ _ => rfl⟩
  | cons entry entries ih =>
    obtain ⟨othersBraced, others⟩ := ih fun other member => each other (by simp [member])
    have relabelled := each entry (by simp)
    change (∀ statement ∈ Id.run (entry.traverse traversal) ::
        Id.run (traverseList traversal entries), statement.Braced) ∧
      ∀ {σ : Type} (scoping : Scoping σ) (scope : σ),
        listOccurrences scoping scope (Id.run (entry.traverse traversal) ::
          Id.run (traverseList traversal entries)) = _
    refine ⟨?_, fun scoping scope => ?_⟩
    · intro statement member
      rcases List.mem_cons.mp member with rfl | member
      · exact relabelled.braced
      · exact othersBraced statement member
    · rw [listOccurrences, listOccurrences, relabelled.occurrences, relabelled.scopeAfter, others]

theorem traverse_relabelled (keeps : traversal.KeepsWords)
    (braced : entry.Braced) : Relabelled entry (Id.run (entry.traverse traversal)) := by
  have same (value : Expr) : Id.run (value.traverse traversal) = value := value.traverse_eq keeps
  have sameOption (value : Option Expr) :
      Id.run (traverseOption (Expr.traverse traversal) value) = value := traverseOption_eq same value
  induction braced with
  | expression span value =>
    rw [traverse_of_head keeps (.expression span value)]
    exact .refl (.expression span value)
  | declaration span declarations =>
    rw [traverse_of_head keeps (.declaration span declarations)]
    exact .refl (.declaration span declarations)
  | typeDefinition span type =>
    rw [traverse_of_head keeps (.typeDefinition span type)]
    exact .refl (.typeDefinition span type)
  | block span entries each ih =>
    obtain ⟨resultBraced, uses⟩ := traverseList_relabelled ih
    exact ⟨.block span _ resultBraced, ⟨rfl, rfl, fun head => by cases head⟩, fun _ _ => rfl,
      fun scoping _ scope => uses scoping _⟩
  | ifElse span condition thenBranch elseBranch thenBlock elseBlock _ _ thenIh elseIh =>
    change Relabelled _ (.ifElse span (Id.run (condition.traverse traversal))
      (Id.run (thenBranch.traverse traversal)) (some (Id.run (elseBranch.traverse traversal))))
    rw [same]
    refine ⟨.ifElse span condition _ _ (thenIh.sameForm.isBlock.trans thenBlock)
      (elseIh.sameForm.isBlock.trans elseBlock) thenIh.braced elseIh.braced,
      ⟨rfl, rfl, fun head => by cases head⟩, ?_, ?_⟩
    · intro σ scoping scope
      simp only [Statement.scopeAfter, thenIh.scopeAfter, elseIh.scopeAfter]
    · intro σ scoping inBlock scope
      simp only [Statement.occurrences, thenIh.scopeAfter, thenIh.occurrences, elseIh.occurrences]
  | whileLoop span condition body bodyBlock _ ih =>
    change Relabelled _ (.whileLoop span (Id.run (condition.traverse traversal))
      (Id.run (body.traverse traversal)))
    rw [same]
    refine ⟨.whileLoop span condition _ (ih.sameForm.isBlock.trans bodyBlock) ih.braced,
      ⟨rfl, rfl, fun head => by cases head⟩, ih.scopeAfter, ?_⟩
    intro σ scoping inBlock scope
    simp only [Statement.occurrences, ih.occurrences]
  | bareLoop span condition update body bodyBlock _ ih =>
    change Relabelled _ (.forLoop span none (Id.run (traverseOption (Expr.traverse traversal) condition))
      (Id.run (traverseOption (Expr.traverse traversal) update)) (Id.run (body.traverse traversal)))
    rw [sameOption, sameOption]
    refine ⟨.bareLoop span condition update _ (ih.sameForm.isBlock.trans bodyBlock) ih.braced,
      ⟨rfl, rfl, fun head => by cases head⟩, ih.scopeAfter, ?_⟩
    intro σ scoping inBlock scope
    simp only [Statement.occurrences, ih.occurrences]
  | forLoop span init condition update body head bodyBlock _ ih =>
    change Relabelled _ (.forLoop span (some (Id.run (init.traverse traversal)))
      (Id.run (traverseOption (Expr.traverse traversal) condition))
      (Id.run (traverseOption (Expr.traverse traversal) update)) (Id.run (body.traverse traversal)))
    rw [traverse_of_head keeps head, sameOption, sameOption]
    refine ⟨.forLoop span init condition update _ head (ih.sameForm.isBlock.trans bodyBlock)
      ih.braced, ⟨rfl, rfl, fun head => by cases head⟩, fun _ _ => rfl, ?_⟩
    intro σ scoping inBlock scope
    simp only [Statement.occurrences, ih.occurrences]
  | doWhile span body condition bodyBlock _ ih =>
    change Relabelled _ (.doWhile span (Id.run (body.traverse traversal))
      (Id.run (condition.traverse traversal)))
    rw [same]
    refine ⟨.doWhile span _ condition (ih.sameForm.isBlock.trans bodyBlock) ih.braced,
      ⟨rfl, rfl, fun head => by cases head⟩, ih.scopeAfter, ?_⟩
    intro σ scoping inBlock scope
    simp only [Statement.occurrences, ih.occurrences, ih.scopeAfter]
  | switch span subject body bodyBlock _ ih =>
    change Relabelled _ (.switch span (Id.run (subject.traverse traversal))
      (Id.run (body.traverse traversal)))
    rw [same]
    refine ⟨.switch span subject _ (ih.sameForm.isBlock.trans bodyBlock) ih.braced,
      ⟨rfl, rfl, fun head => by cases head⟩, ih.scopeAfter, ?_⟩
    intro σ scoping inBlock scope
    simp only [Statement.occurrences, ih.occurrences]
  | caseLabel span value statement marked _ ih =>
    change Relabelled _ (.caseLabel span (Id.run (value.traverse traversal))
      (Id.run (statement.traverse traversal)))
    rw [same]
    refine ⟨.caseLabel span value _ (ih.sameForm.isMarked.trans marked) ih.braced,
      ⟨rfl, rfl, fun head => by cases head⟩, ih.scopeAfter, ?_⟩
    intro σ scoping inBlock scope
    simp only [Statement.occurrences, ih.occurrences]
  | defaultLabel span statement marked _ ih =>
    exact ⟨.defaultLabel span _ (ih.sameForm.isMarked.trans marked) ih.braced,
      ⟨rfl, rfl, fun head => by cases head⟩, ih.scopeAfter,
      fun scoping _ scope => ih.occurrences scoping false scope⟩
  | labelled span label statement marked _ ih =>
    exact ⟨.labelled span _ _ (ih.sameForm.isMarked.trans marked) ih.braced,
      ⟨rfl, rfl, fun head => by cases head⟩, ih.scopeAfter,
      fun scoping _ scope => ih.occurrences scoping false scope⟩
  | returnStatement span value =>
    have sameReturn : Id.run (Statement.traverse traversal (.returnStatement span value)) =
        .returnStatement span value := congrArg (Statement.returnStatement span) (sameOption value)
    rw [sameReturn]
    exact .refl (.returnStatement span value)
  | gotoStatement span label =>
    exact ⟨.gotoStatement span _, ⟨rfl, rfl, fun head => by cases head⟩, fun _ _ => rfl,
      fun _ _ _ => rfl⟩
  | breakStatement | continueStatement | empty => exact .refl (by constructor)

end Statement

theorem Function.appendNamespace_restatedFrom (namespaceName : String)
    (unknown : (function.parameters.filterMap Parameter.name).filter known = [])
    (braced : function.body.Braced) (isBlock : function.body.isBlock) :
    Function.RestatedFrom known position function (function.appendNamespace namespaceName) := by
  have keeps : Traversal.KeepsWords
      ({ label := fun label => pure (namespaceName ++ " ## " ++ label) } : Traversal Id) :=
    ⟨fun _ => rfl, fun _ => rfl, fun _ => rfl, fun _ => rfl⟩
  have relabelled := Statement.traverse_relabelled keeps braced
  refine ⟨unknown, relabelled.braced, relabelled.sameForm.isBlock.trans isBlock, ?_⟩
  have same : (function.appendNamespace namespaceName).calls known = function.calls known :=
    congrArg (Occurrence.callsAmong known) (relabelled.occurrences _ _ _)
  rw [same]
  exact .refl _

/-!
## The statements behind the replacement of returns

A replacement changes the returns of a statement and keeps its other statements in order, each of
the form that it had. Where the returns become jumps none is left, and a statement without returns
stays as it is.
-/

namespace Statement

variable {replacement : ReturnReplacement}

theorem hasReturn_eq (statement : Statement) : statement.hasReturn = statement.parts.any isReturn := by
  unfold hasReturn parts Node.statements
  rw [List.any_filterMap]
  congr 1
  funext node
  cases node with
  | statement part => cases part <;> rfl
  | _ => rfl

theorem listParts_append (first second : List Statement) :
    listParts (first ++ second) = listParts first ++ listParts second :=
  List.flatMap_append

theorem listParts_cons (statement : Statement) (statements : List Statement) :
    listParts (statement :: statements) = statement.parts ++ listParts statements :=
  List.flatMap_cons

theorem listParts_nil : listParts [] = [] := rfl

/-- What can be told of a statement by its form alone, and of the replacement of a return as of the
return. -/
structure Survives {α : Type} (replacement : ReturnReplacement) (mark : Statement → Option α) :
    Prop where
  sameForm : ∀ statement, mark (statement.replaceReturns replacement) = mark statement
  sameReturn : ∀ span value plain, replacement span value = some plain →
    (listParts plain).filterMap mark = [Statement.returnStatement span value].filterMap mark

variable {α : Type} {statement : Statement}

theorem Survives.replaced {mark : Statement → Option α} (survives : Survives replacement mark)
    (same : (statement.replaceReturns replacement).parts.filterMap mark = statement.parts.filterMap mark) :
    (listParts ((statement.replacedReturn? replacement).getD
      [statement.replaceReturns replacement])).filterMap mark = statement.parts.filterMap mark := by
  cases replaced : statement.replacedReturn? replacement with
  | none => simpa [listParts] using same
  | some plain =>
    cases statement with
    | returnStatement span value =>
      rw [parts_returnStatement]
      exact survives.sameReturn span value plain replaced
    | _ => cases replaced

theorem Survives.parts {mark : Statement → Option α}
    (survives : Survives replacement mark) (statement : Statement) :
    (statement.replaceReturns replacement).parts.filterMap mark = statement.parts.filterMap mark := by
  have sameHead := survives.sameForm statement
  induction statement with
  | block span statements ih =>
    rw [replaceReturns] at sameHead ⊢
    rw [parts_block, parts_block, List.filterMap_cons, List.filterMap_cons, sameHead]
    suffices same : (listParts (replaceReturnsList replacement statements)).filterMap mark =
        (listParts statements).filterMap mark by rw [same]
    clear sameHead
    induction statements with
    | nil => rfl
    | cons first rest others =>
      have inside := survives.replaced (ih first List.mem_cons_self (survives.sameForm first))
      rw [replaceReturnsList, listParts_append, listParts_cons, List.filterMap_append,
        List.filterMap_append, inside,
        others fun other member => ih other (List.mem_cons_of_mem _ member)]
  | ifThen _ _ _ ih | whileLoop _ _ _ ih | bareLoop _ _ _ _ ih | doWhile _ _ _ ih
  | switch _ _ _ ih | caseLabel _ _ _ ih | defaultLabel _ _ ih | labelled _ _ _ ih =>
    rw [replaceReturns] at sameHead ⊢
    simp only [parts_ifThen, parts_whileLoop, parts_bareLoop, parts_doWhile, parts_switch,
      parts_caseLabel, parts_defaultLabel, parts_labelled, List.filterMap_cons, sameHead,
      ih (survives.sameForm _)]
  | ifElse _ _ _ _ firstIh secondIh | forLoop _ _ _ _ _ firstIh secondIh =>
    rw [replaceReturns] at sameHead ⊢
    simp only [parts_ifElse, parts_forLoop, List.filterMap_cons, List.filterMap_append, sameHead,
      firstIh (survives.sameForm _), secondIh (survives.sameForm _)]
  | _ => rw [replaceReturns] <;> simp

theorem sameForm_label? (statement : Statement) :
    (statement.replaceReturns replacement).label? = statement.label? := by
  induction statement <;> rfl

theorem Survives.storeThrough {mark : Statement → Option α} (pointer : String) (sameForm : ∀ statement,
      mark (statement.replaceReturns (InlineMacro.storeThrough pointer)) = mark statement)
    (expression : ∀ span value, mark (.expression span value) = none) (sameReturn : ∀ span value,
      mark (.returnStatement span none) = mark (.returnStatement span (some value))) :
    Survives (InlineMacro.storeThrough pointer) mark := by
  refine ⟨sameForm, fun span value plain replaced => ?_⟩
  cases value with
  | none => cases replaced
  | some value =>
    cases replaced
    simp only [listParts_cons, listParts_nil, parts_expression, parts_returnStatement,
      List.append_nil, List.singleton_append, List.filterMap_cons, expression, sameReturn span value]

theorem labels_jumpTo (exit : String) (statement : Statement) :
    (statement.replaceReturns (jumpTo exit)).labels = statement.labels := by
  refine Survives.parts ⟨sameForm_label?, fun span value plain replaced => ?_⟩ statement
  cases value with
  | none =>
    cases replaced
    rfl
  | some value =>
    cases replaced
    rw [listParts_cons, parts_expression]
    rfl

theorem any_storeThrough (pointer : String) {holds : Statement → Bool} (sameForm : ∀ statement,
      holds (statement.replaceReturns (storeThrough pointer)) = holds statement)
    (expression : ∀ span value, holds (.expression span value) = false) (sameReturn : ∀ span value,
      holds (.returnStatement span none) = holds (.returnStatement span (some value)))
    (statement : Statement) :
    (statement.replaceReturns (storeThrough pointer)).parts.any holds = statement.parts.any holds := by
  have survives : Survives (InlineMacro.storeThrough pointer)
      fun statement => if holds statement then some () else none :=
    .storeThrough pointer (by simp [sameForm]) (by simp [expression])
      fun span value => by simp only [sameReturn span value]
  have known : ∀ parts : List Statement, parts.any holds =
      (parts.filterMap fun statement => if holds statement then some () else none).any fun _ => true := by
    intro parts
    rw [List.any_filterMap]
    congr 1
    funext part
    cases holds part <;> rfl
  rw [known, known, survives.parts]

theorem sameForm_isReturn (statement : Statement) :
    (statement.replaceReturns replacement).isReturn = statement.isReturn := by
  induction statement <;> rfl

theorem sameForm_isJump (statement : Statement) :
    (statement.replaceReturns replacement).isJump = statement.isJump := by
  induction statement <;> rfl

theorem hasReturn_storeThrough (pointer : String) (statement : Statement) :
    (statement.replaceReturns (storeThrough pointer)).hasReturn = statement.hasReturn := by
  rw [hasReturn_eq, hasReturn_eq]
  exact any_storeThrough pointer sameForm_isReturn (fun _ _ => rfl) (fun _ _ => rfl) statement

theorem plain_storeThrough (pointer : String) (plain : ∀ part ∈ statement.parts, part.isJump = false) :
    ∀ part ∈ (statement.replaceReturns (storeThrough pointer)).parts, part.isJump = false := by
  have none : statement.parts.any isJump = false :=
    List.any_eq_false.mpr fun part member => Bool.eq_false_iff.mp (plain part member)
  have same := any_storeThrough pointer sameForm_isJump (fun _ _ => rfl) (fun _ _ => rfl) statement
  rw [none] at same
  intro part member
  exact Bool.eq_false_iff.mpr (List.any_eq_false.mp same part member)

/-! ### Bodies without returns -/

theorem replaceReturns_of_hasReturn (none : statement.hasReturn = false) :
    statement.replaceReturns replacement = statement := by
  rw [hasReturn_eq, List.any_eq_false] at none
  induction statement with
  | block span statements ih =>
    rw [replaceReturns]
    congr 1
    rw [parts_block] at none
    have each : ∀ statement ∈ statements, ∀ part ∈ statement.parts, ¬ part.isReturn :=
      fun statement member part inside =>
        none part (List.mem_cons_of_mem _ (List.mem_flatMap.mpr ⟨statement, member, inside⟩))
    clear none
    induction statements with
    | nil => rfl
    | cons first rest others =>
      have notReturn := each first List.mem_cons_self first (self_mem_parts first)
      have stays : first.replacedReturn? replacement = Option.none := by
        cases first <;> first | rfl | exact absurd rfl notReturn
      rw [replaceReturnsList, stays, ih first List.mem_cons_self (each first List.mem_cons_self),
        others (fun other member => ih other (List.mem_cons_of_mem _ member))
          fun other member => each other (List.mem_cons_of_mem _ member)]
      rfl
  | returnStatement => exact absurd rfl (none _ (self_mem_parts _))
  | ifThen | ifElse | whileLoop | bareLoop | forLoop | doWhile | switch | caseLabel | defaultLabel
  | labelled => simp_all [replaceReturns]
  | _ => rfl

theorem Braced.hasReturn_jumpTo (exit : String) (braced : statement.Braced)
    (notReturn : statement.isReturn = false) :
    (statement.replaceReturns (jumpTo exit)).hasReturn = false := by
  rw [hasReturn_eq]
  induction braced with
  | block span statements each ih =>
    rw [replaceReturns, parts_block, List.any_cons]
    change (listParts (replaceReturnsList (jumpTo exit) statements)).any isReturn = false
    clear each notReturn
    induction statements with
    | nil => rfl
    | cons first rest others =>
      rw [replaceReturnsList, listParts_append, List.any_append,
        others fun other member => ih other (List.mem_cons_of_mem _ member), Bool.or_false]
      cases isReturn : first.isReturn with
      | false =>
        have stays : first.replacedReturn? (jumpTo exit) = none := by
          cases first <;> first | rfl | cases isReturn
        rw [stays, Option.getD_none, listParts_cons, listParts_nil, List.append_nil]
        exact ih first List.mem_cons_self isReturn
      | true =>
        cases first with
        | returnStatement span value =>
          cases value with
          | none => rfl
          | some value =>
            change (listParts [.expression span value, .gotoStatement span exit]).any _ = false
            rw [listParts_cons, parts_expression]
            rfl
        | _ => cases isReturn
  | ifElse _ _ _ _ thenBlock elseBlock _ _ thenIh elseIh =>
    rw [replaceReturns, parts_ifElse, List.any_cons, List.any_append,
      thenIh (not_isReturn_of_isBlock thenBlock), elseIh (not_isReturn_of_isBlock elseBlock)]
    rfl
  | forLoop _ _ _ _ _ head bodyBlock _ ih =>
    rw [replaceReturns, parts_forLoop, List.any_cons, List.any_append, replaceReturns_of_head head,
      ih (not_isReturn_of_isBlock bodyBlock)]
    cases head <;> simp [isReturn]
  | whileLoop _ _ _ bodyBlock _ ih | bareLoop _ _ _ _ bodyBlock _ ih
  | doWhile _ _ _ bodyBlock _ ih | switch _ _ _ bodyBlock _ ih =>
    simpa [replaceReturns, isReturn] using ih (not_isReturn_of_isBlock bodyBlock)
  | caseLabel _ _ _ marked _ ih | defaultLabel _ _ marked _ ih | labelled _ _ _ marked _ ih =>
    simpa [replaceReturns, isReturn] using ih (not_isReturn_of_isMarked marked)
  | returnStatement => cases notReturn
  | _ => simp [replaceReturns, isReturn]

end Statement

end InlineMacro
