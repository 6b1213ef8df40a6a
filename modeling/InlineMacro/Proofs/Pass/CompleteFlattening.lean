import InlineMacro.Proofs.Pass.FlattenedCalls

/-!
# Flattening is complete

Behind flattening each call of a visible target is a statement of its own. It passes the address of
a temporary that is declared at the start of the function, and no further call of a target is left
in its arguments.
-/

set_option autoImplicit false

namespace InlineMacro

open Flatten (reaches reachedCalls callStatements callsTarget TakenBy)

def Occurrence.ofCallStatement (site : Bindings × Expr) : Option (Occurrence Bindings) :=
  site.2.callee?.map fun name => ⟨.called name, .call .whole, true, site.1⟩

/-- A function behind flattening: its visible calls of targets are statements, and these are the calls
that the function had in statement position, each with a temporary of its own. -/
structure Function.FlattensTo (targets : Association CType) (function result : Function)
    (objects : List Declaration) (calls : List FlattenedCall) : Prop where
  occurrences : (result.occurrences (.bindings targets.contains)).filter (callsTarget targets) =
    (callStatements targets (result.standing (.bindings targets.contains))).filterMap
      Occurrence.ofCallStatement
  before : (calls.map fun call => (call.scope, call.before)).Perm
    (reachedCalls targets (function.standing (.bindings targets.contains)))
  after : callStatements targets (result.standing (.bindings targets.contains)) =
    calls.map fun call => (call.scope, call.after)
  arguments : ∀ call ∈ calls, List.Forall₂ (Expr.Lowered targets call.scope (TakenBy calls))
    call.arguments call.passed
  temporaries : (calls.map FlattenedCall.temporary).Perm (objects.map Declaration.name)
  declared : ∃ body : Statement, body.isBlock ∧
    result.body = body.precededBy (objects.map Statement.ofDeclaration)

namespace Flatten

variable {targets : Association CType} {scope : Bindings}

/-! ## Calls that are statements, as uses -/

def Whole (targets : Association CType) (occurrences : List (Occurrence Bindings)) : Prop :=
  ∀ occurrence ∈ occurrences, callsTarget targets occurrence → occurrence.place = .call .whole

theorem Whole.eq_nil {uses : List (Use × UsePlace)}
    (whole : Whole targets (Occurrence.placedAt scope true uses))
    (others : ∀ name place, (.called name, place) ∈ uses → place ≠ .call .whole) :
    (Occurrence.placedAt scope true uses).filter (callsTarget targets) = [] := by
  refine List.filter_eq_nil_iff.mpr fun occurrence member isTarget => ?_
  have place := whole occurrence member isTarget
  obtain ⟨⟨use, found⟩, among, rfl⟩ := List.mem_map.mp member
  cases use with
  | mentioned name => cases isTarget
  | called name => exact others name found among place

theorem Whole.append {first second : List (Occurrence Bindings)}
    (whole : Whole targets (first ++ second)) : Whole targets first ∧ Whole targets second :=
  List.forall_mem_append.mp whole

theorem placedAt_append (inBlock : Bool) (first second : List (Use × UsePlace)) :
    Occurrence.placedAt scope inBlock (first ++ second) =
      Occurrence.placedAt scope inBlock first ++ Occurrence.placedAt scope inBlock second :=
  List.map_append

theorem Whole.call {position : CallPosition} {span : Span} {function : Expr} {arguments : List Expr}
    (whole : Whole targets (Occurrence.placedAt scope true
      ((Expr.call span function arguments).placedUses (.call position)))) : (Occurrence.placedAt scope true
        ((Expr.call span function arguments).placedUses (.call position))).filter (callsTarget targets) =
      if position = .whole ∧ reaches targets scope (.call span function arguments) then
        (Occurrence.ofCallStatement (scope, .call span function arguments)).toList else [] := by
  rw [Expr.placedUses_call, placedAt_append] at whole ⊢
  obtain ⟨callee, inside⟩ := whole.append
  have noArgument := inside.eq_nil fun name place member => by
    rcases Expr.place_of_mem_listPlacedUses _ member with rfl | rfl | rfl <;>
      simp [UsePlace.ofArguments]
  rw [List.filter_append, noArgument, List.append_nil]
  unfold Expr.placedCalleeUses at callee ⊢
  cases named : function.identifier? with
  | none =>
    have notReached : reaches targets scope (.call span function arguments) = false := by
      rw [reaches, Expr.callee?, named]
      rfl
    rw [named] at callee
    rw [if_neg (by simp [notReached]), callee.eq_nil]
    intro name place member
    obtain ⟨use, -, same⟩ := List.mem_map.mp member
    cases same
    simp
  | some name =>
    rw [named] at callee
    have reached : reaches targets scope (.call span function arguments) =
        callsTarget targets ⟨.called name, .call position, true, scope⟩ := by
      rw [reaches, Expr.callee?, named]
      rfl
    have sole : Occurrence.placedAt scope true [(Use.called name, UsePlace.call position)] =
      [⟨.called name, .call position, true, scope⟩] := rfl
    rw [sole] at callee ⊢
    rw [reached]
    cases isTarget : callsTarget targets ⟨.called name, .call position, true, scope⟩ with
    | false => rw [List.filter_cons_of_neg (by simp [isTarget])]; simp
    | true =>
      have place := callee _ (List.mem_singleton_self _) isTarget
      cases place
      rw [List.filter_cons_of_pos isTarget]
      simp [Occurrence.ofCallStatement, Expr.callee?, named]

theorem Whole.statement {entry : Statement}
    (whole : Whole targets (Occurrence.placedAt scope true entry.ownUses)) :
    (Occurrence.placedAt scope true entry.ownUses).filter (callsTarget targets) =
      (callStatements targets [(scope, entry)]).filterMap Occurrence.ofCallStatement := by
  cases site : entry.callSite? with
  | none =>
    rw [callStatements_eq_nil, whole.eq_nil]
    · rfl
    · intro name place member
      rw [Statement.elsewhere_of_callSite?_eq_none site member]
      simp
    · intro place call stands
      cases reached : reaches targets scope call with
      | false => rfl
      | true =>
        rw [stands, (Statement.IsSite.whole place).callSite? (isCall_of_reaches reached)] at site
        cases site
  | some found =>
    obtain ⟨position, call⟩ := found
    obtain ⟨isCall, uses, context, isSite, rfl⟩ := Statement.isSite_of_callSite? site
    cases call with
    | call span function arguments =>
      rw [isSite.ownUses isCall, placedAt_append] at whole ⊢
      obtain ⟨beside, own⟩ := whole.append
      have nothing := beside.eq_nil fun name place member => by
        obtain ⟨use, -, same⟩ := List.mem_map.mp member
        cases same
        simp
      rw [List.filter_append, nothing, List.nil_append, own.call]
      cases isSite with
      | whole place =>
        cases reached : reaches targets scope (.call span function arguments) with
        | false => simp [callStatements, reached]
        | true =>
          have single : callStatements targets [(scope, .expression place (.call span function arguments))] =
                [(scope, .call span function arguments)] :=
            List.filterMap_cons_some (if_pos reached)
          rw [single, if_pos ⟨rfl, rfl⟩]
          cases named : Occurrence.ofCallStatement (scope, .call span function arguments) with
          | none => rw [List.filterMap_cons_none named]; rfl
          | some occurrence => rw [List.filterMap_cons_some named]; rfl
      | _ => rfl
    | _ => cases isCall

theorem callStatements_flatMap (standing : List (Bindings × Statement)) : callStatements targets standing =
      standing.flatMap fun site => callStatements targets [site] := by
  induction standing with
  | nil => rfl
  | cons site rest ih =>
    rw [List.flatMap_cons, ← ih]
    exact callStatements_append [site] rest

theorem Whole.body {whole : Statement}
    (inBlock : ∀ occurrence ∈ whole.occurrences (.bindings targets.contains) false scope,
      callsTarget targets occurrence → occurrence.inBlock)
    (places : Whole targets (whole.occurrences (.bindings targets.contains) false scope)) :
    (whole.occurrences (.bindings targets.contains) false scope).filter (callsTarget targets) =
      (callStatements targets (whole.standing (.bindings targets.contains) false scope)).filterMap
        Occurrence.ofCallStatement := by
  have among : (whole.occurrences (.bindings targets.contains) false scope).filter
      (callsTarget targets) = ((whole.occurrences (.bindings targets.contains) false scope).filter
        (·.inBlock)).filter (callsTarget targets) := by
    rw [List.filter_filter]
    refine List.filter_congr fun occurrence member => ?_
    cases isTarget : callsTarget targets occurrence with
    | false => rfl
    | true => simp [inBlock occurrence member isTarget]
  have stands : (whole.occurrences (.bindings targets.contains) false scope).filter (·.inBlock) = _ :=
    whole.inBlock_occurrences false scope
  rw [among, stands, callStatements_flatMap, List.filter_flatMap, List.filterMap_flatMap]
  refine List.flatMap_congr fun site member => ?_
  refine Whole.statement fun occurrence found => places occurrence ?_
  have inside : occurrence ∈ (whole.occurrences (.bindings targets.contains) false scope).filter
      (·.inBlock) := stands ▸ List.mem_flatMap.mpr ⟨site, member, found⟩
  exact (List.mem_filter.mp inside).1

/-! ## Statements of a function in their blocks -/

theorem standing_precededBy {objects : List Declaration} {body : Statement} (isBlock : body.isBlock)
    (unknown : ∀ declared ∈ objects, targets.contains declared.name = false) :
    (body.precededBy (objects.map Statement.ofDeclaration)).standing
        (.bindings targets.contains) false scope =
      body.standing (.bindings targets.contains) false scope := by
  cases body with
  | block span statements =>
    change Statement.listStanding _ _ (objects.map Statement.ofDeclaration ++ statements) =
      Statement.listStanding _ _ statements
    generalize (Scoping.bindings targets.contains).enter scope = inner
    induction objects with
    | nil => rfl
    | cons first rest ih =>
      rw [List.forall_mem_cons] at unknown
      have sameScope : (Statement.ofDeclaration first).scopeAfter
          (.bindings targets.contains) inner = inner := by
        simp [Statement.ofDeclaration, Statement.scopeAfter, Scoping.bindings, unknown.1]
      rw [List.map_cons, List.cons_append, Statement.listStanding, sameScope, ih unknown.2]
      rfl
  | _ => cases isBlock

theorem not_assignsNew {registry : Registry} {function : Function}
    (reserved : Node.allNames function.body.nodes ⊆ registry.used)
    {site : Bindings × Statement} (stands : site ∈ function.standing (.bindings targets.contains)) :
    ¬ AssignsNew (· ∉ registry.used) site.2 := by
  rintro ⟨place, span, nameSpan, name, right, new, same⟩
  have inside := function.body.nodes_standing _ _ site stands
  refine new (reserved (List.mem_flatMap.mpr ⟨.expression (.identifier nameSpan name), inside ?_, ?_⟩))
  · simp [same, Statement.nodes, Expr.nodes]
  · exact List.mem_singleton_self _

end Flatten

/-! ## The function -/

open Flatten

theorem Function.flattenCalls_eq (function : Function) {targets : Association CType}
    (some : targets.isEmpty = false) (registry : Registry) :
    (function.flattenCalls targets registry).1 = { function with
      body := ((Flatten.body targets function.body).run
        ⟨.ofFunction function, registry, []⟩).1.precededBy
          ((function.temporaries targets registry).map Statement.ofDeclaration) } := by
  unfold flattenCalls temporaries
  rw [some]
  rfl

variable {function : Function} {registry : Registry}

theorem Function.flattenCalls_whole {targets : Association CType}
    (braced : function.body.Braced) (isBlock : function.body.isBlock)
    (positioned : ∀ occurrence ∈ function.occurrences (.bindings targets.contains),
      callsTarget targets occurrence → occurrence.isPositioned)
    (names : ∀ name, targets.contains name → name ∈ registry.used)
    (callFree : ∀ callee result, targets.find? callee = some result → CallFree targets.contains result.uses) :
    ∀ occurrence ∈ (function.flattenCalls targets registry).1.occurrences
        (.bindings targets.contains), callsTarget targets occurrence →
      occurrence.inBlock ∧ occurrence.place = .call .whole := by
  obtain ⟨body, flattening⟩ := function.flattenCalls_flattening_temporaries targets registry
  have calls := flattening.calls (fun _ isTarget => isTarget) braced isBlock names callFree
  intro occurrence member isTarget
  rcases List.mem_append.mp member with head | inBody
  · rw [flattening.result] at head
    have inHead : occurrence ∈ function.occurrences (.bindings targets.contains) :=
      List.mem_append_left _ head
    have place := positioned occurrence inHead isTarget
    obtain ⟨use, -, rfl⟩ := List.mem_map.mp head
    cases place
  · have among : occurrence ∈ (function.flattenCalls targets registry).1.calls targets.contains := by
      refine Occurrence.mem_callsAmong.mpr ⟨inBody, ?_⟩
      unfold callsTarget at isTarget
      split at isTarget
      · next name use =>
        rw [Bool.and_eq_true] at isTarget
        exact ⟨name, use, isTarget.1⟩
      · cases isTarget
    obtain ⟨entry, found, rfl⟩ := List.mem_map.mp (calls.subset among)
    have entryTarget : callsTarget targets entry := by
      unfold flattened at isTarget
      split at isTarget <;> exact isTarget
    have place := positioned entry (List.mem_append_right _ (List.mem_filter.mp found).1) entryTarget
    unfold flattened
    rw [if_pos (by simp [place, entryTarget])]
    refine ⟨?_, rfl⟩
    rw [Occurrence.isPositioned, Bool.and_eq_true] at place
    exact place.1

theorem Function.occurrences_callStatements {targets : Association CType}
    (whole : ∀ occurrence ∈ function.occurrences (.bindings targets.contains),
      callsTarget targets occurrence → occurrence.inBlock ∧ occurrence.place = .call .whole) :
    (function.occurrences (.bindings targets.contains)).filter (callsTarget targets) =
      (callStatements targets (function.standing (.bindings targets.contains))).filterMap
        Occurrence.ofCallStatement := by
  obtain ⟨head, inBody⟩ := List.forall_mem_append.mp whole
  have nothing : (Occurrence.elsewhereAt ((Scoping.bindings targets.contains).ofFunction function)
      (function.result.uses ++ Parameter.listUses function.parameters)).filter
        (callsTarget targets) = [] := by
    refine List.filter_eq_nil_iff.mpr fun occurrence member isTarget => ?_
    have inBlock := (head occurrence member isTarget).1
    obtain ⟨use, -, rfl⟩ := List.mem_map.mp member
    cases inBlock
  rw [occurrences, List.filter_append, nothing]
  exact Whole.body (fun occurrence member isTarget => (inBody occurrence member isTarget).1)
    fun occurrence member isTarget => (inBody occurrence member isTarget).2

theorem Function.allNames_body (function : Function) :
    Node.allNames function.body.nodes ⊆ Node.allNames function.nodes := by
  intro name found
  obtain ⟨node, member, stands⟩ := List.mem_flatMap.mp found
  have inFunction : function.body.nodes ⊆ function.nodes :=
    List.subset_cons_of_subset _ (List.subset_append_right _ _)
  exact List.mem_flatMap.mpr ⟨node, inFunction member, stands⟩

/-- A function behind flattening: the statements of its body are taken apart in their places, and the
temporaries are those of the calls that have been taken out. -/
structure Function.TakenApart (targets : Association CType) (function result : Function)
    (objects : List Declaration) (calls : List FlattenedCall) : Prop where
  body : ∃ body : Statement, body.isBlock ∧
    Recast (.bindings targets.contains) (Flatten.TakesApart targets)
      ((Scoping.bindings targets.contains).ofFunction function) [function.body] calls [body] ∧
    result = { function with body := body.precededBy (objects.map Statement.ofDeclaration) }
  objects : objects.Perm (calls.map (FlattenedCall.object targets))

theorem Function.flattenCalls_takenApart {targets : Association CType}
    (braced : function.body.Braced) (isBlock : function.body.isBlock)
    (identifiers : Node.allNames function.nodes ⊆ registry.used) :
    ∃ calls, function.TakenApart targets (function.flattenCalls targets registry).1
      (function.temporaries targets registry) calls := by
  cases some : targets.isEmpty with
  | true =>
    obtain rfl := List.isEmpty_iff.mp some
    have nowhere (scope : Bindings) (call : Expr) : reaches [] scope call = false := by
      unfold reaches
      cases call.callee? <;> rfl
    refine ⟨[], ⟨function.body, isBlock, ?_, ?_⟩, .refl _⟩
    · exact .refl (fun scope entry _ => .refl (nowhere scope) entry) _ _
    · exact congrArg (fun body => { function with body := body })
        (Statement.precededBy_nil function.body).symm
  | false =>
    let start : FlattenState := ⟨.ofFunction function, registry, []⟩
    have fresh : Temporaries targets registry start :=
      ⟨.nothing registry, by simp [start], by simp [start]⟩
    have agrees : (LocalNames.ofFunction function).Agrees targets.contains
        ((Scoping.bindings targets.contains).ofFunction function) := .ofFunction function
    have behind := body_ensures (fun _ isTarget => isTarget) braced isBlock start _ agrees
    obtain ⟨made, temporaries, recast⟩ :=
      body_recast (fun _ isTarget => isTarget) registry braced isBlock start _ agrees fresh
    have sameTemporaries : function.temporaries targets registry =
        ((Flatten.body targets function.body).run start).2.temporaries := by
      unfold Function.temporaries
      rw [some]
      rfl
    have translates : ∀ site ∈ Statement.listStanding (.bindings targets.contains)
          ((Scoping.bindings targets.contains).ofFunction function) [function.body],
        ∀ own results, own.Sublist made → allRounds targets (· ∉ registry.used) site.1 site.2 own results →
            ∃ calls, TakesApart targets site.1 site.2 calls results ∧
              own.Perm (calls.map (FlattenedCall.object targets)) := by
      intro site member own results _ rules
      rw [Statement.listStanding_singleton isBlock] at member
      exact takesApart rules (not_assignsNew
        (fun _ found => identifiers (function.allNames_body found)) member)
    obtain ⟨calls, apart, perm⟩ := recast.translate (List.forall_mem_singleton.mpr braced)
      (.refl _) (fun first second => List.map_append (f := FlattenedCall.object targets) ▸
        first.append second) translates
    refine ⟨calls, ⟨_, behind.isBlock, apart, function.flattenCalls_eq some registry⟩, ?_⟩
    rw [sameTemporaries]
    exact temporaries.trans perm

theorem Function.temporaries_unknown (function : Function) {targets : Association CType}
    (names : ∀ name, targets.contains name → name ∈ registry.used) :
    ∀ declared ∈ function.temporaries targets registry, targets.contains declared.name = false := by
  intro declared member
  obtain ⟨_, flattening⟩ := function.flattenCalls_flattening_temporaries targets registry
  have new := flattening.issues.fresh _ (List.mem_map_of_mem member)
  exact Bool.eq_false_iff.mpr fun isTarget => new (names _ isTarget)

theorem Function.TakenApart.flattensAll {targets : Association CType} {result : Function}
    {objects : List Declaration} {calls : List FlattenedCall}
    (apart : function.TakenApart targets result objects calls) (braced : function.body.Braced)
    (isBlock : function.body.isBlock)
    (unknown : ∀ declared ∈ objects, targets.contains declared.name = false) :
    FlattensAll targets (function.standing (.bindings targets.contains))
      (result.standing (.bindings targets.contains)) calls := by
  obtain ⟨⟨body, bodyBlock, recast, rfl⟩, -⟩ := apart
  have flattens := Flatten.flattensAll (recast.becomes (List.forall_mem_singleton.mpr braced))
  rw [Statement.listStanding_singleton isBlock, Statement.listStanding_singleton bodyBlock] at flattens
  rwa [← standing_precededBy bodyBlock unknown] at flattens

/-- Flattening is complete: if every call of a visible target in a function is in statement position,
then behind flattening all of them are statements of their own with temporaries, and moving the nested
calls out of the arguments one by one comes to an end. -/
theorem Function.flattenCalls_complete {function : Function} {targets : Association CType}
    {registry : Registry} (braced : function.body.Braced) (isBlock : function.body.isBlock)
    (positioned : ∀ occurrence ∈ function.occurrences (.bindings targets.contains),
      callsTarget targets occurrence → occurrence.isPositioned)
    (identifiers : Node.allNames function.nodes ⊆ registry.used)
    (names : ∀ name, targets.contains name → name ∈ registry.used)
    (callFree : ∀ callee result, targets.find? callee = some result →
      CallFree targets.contains result.uses) :
    (∃ calls, function.FlattensTo targets (function.flattenCalls targets registry).1
      (function.temporaries targets registry) calls) ∧
    ∀ (entries : List Statement) (state : FlattenState) (turns : Nat),
      HoistingLoop.work targets ⟨[], entries⟩ ≤ turns →
        (HoistingLoop.run targets turns ⟨[], entries⟩).run state =
          (⟨((hoistedBlock targets entries).run state).1, []⟩,
            ((hoistedBlock targets entries).run state).2) := by
  refine ⟨?_, fun entries state turns enough => HoistingLoop.run_eq targets turns _ state enough⟩
  have whole := function.flattenCalls_whole braced isBlock positioned names callFree
  obtain ⟨calls, apart⟩ := Function.flattenCalls_takenApart braced isBlock identifiers
  have flattens := apart.flattensAll braced isBlock (function.temporaries_unknown names)
  obtain ⟨⟨body, bodyBlock, -, result⟩, objects⟩ := apart
  refine ⟨calls, occurrences_callStatements whole, flattens.before, flattens.after,
    flattens.arguments calls (List.Subset.refl _), ?_, ⟨body, bodyBlock, ?_⟩⟩
  · have names := objects.symm.map Declaration.name
    rwa [List.map_map] at names
  · rw [result]

theorem Function.flattenCalls_complete_nested :
    ∃ unit, CompilationUnit.parse
        "void f(int x) \x7b x = g(h(), k(h())); if (x) return g(x, 1); h(); \x7d" = .ok unit ∧
      ∃ function ∈ unit.functions.map Function.normalize,
        ∃ targets : Association CType, ∃ registry : Registry,
          (function.body.Braced ∧ function.body.isBlock ∧
            (∀ occurrence ∈ function.occurrences (.bindings targets.contains),
              callsTarget targets occurrence → occurrence.isPositioned) ∧
            Node.allNames function.nodes ⊆ registry.used ∧
            (∀ name, targets.contains name → name ∈ registry.used) ∧
            ∀ callee result, targets.find? callee = some result →
              CallFree targets.contains result.uses) ∧
          (reachedCalls targets (function.standing (.bindings targets.contains))).length = 5 ∧
          (∃ calls, function.FlattensTo targets (function.flattenCalls targets registry).1
            (function.temporaries targets registry) calls) ∧
          ∀ (entries : List Statement) (state : FlattenState) (turns : Nat),
            HoistingLoop.work targets ⟨[], entries⟩ ≤ turns →
              (HoistingLoop.run targets turns ⟨[], entries⟩).run state =
                (⟨((hoistedBlock targets entries).run state).1, []⟩,
                  ((hoistedBlock targets entries).run state).2) := by
  let targets : Association CType := [("g", .basic .int), ("h", .basic .int)]
  refine CompilationUnit.exists_parsed _
    (fun unit => decide (∃ function ∈ unit.functions.map Function.normalize,
      (∀ occurrence ∈ function.occurrences (.bindings targets.contains),
        callsTarget targets occurrence → occurrence.isPositioned) ∧
      (reachedCalls targets (function.standing (.bindings targets.contains))).length = 5))
    (by decide +kernel) ?_
  intro unit parses checked
  obtain ⟨function, member, positioned, count⟩ := of_decide_eq_true checked
  let registry : Registry := ⟨"g" :: "h" :: Node.allNames function.nodes, 0, 0⟩
  obtain ⟨source, among, rfl⟩ := List.mem_map.mp member
  have formed := CompilationUnit.isFormed_of_parse parses source among
  have braced := Function.braced_normalize formed.2
  have isBlock := Function.isBlock_normalize formed.1
  have identifiers : Node.allNames source.normalize.nodes ⊆ registry.used :=
    List.subset_cons_of_subset _ (List.subset_cons_self _ _)
  have listed : ∀ callee result, targets.find? callee = some result →
      (callee = "g" ∨ callee = "h") ∧ result = .basic .int := by
    intro callee result found
    have entry := Association.mem_of_find? _ found
    simp only [targets, List.mem_cons, Prod.mk.injEq, List.not_mem_nil, or_false] at entry
    obtain ⟨rfl, rfl⟩ | ⟨rfl, rfl⟩ := entry <;> simp
  have names : ∀ name, targets.contains name → name ∈ registry.used := by
    intro name isTarget
    obtain ⟨result, found⟩ := Option.isSome_iff_exists.mp isTarget
    obtain ⟨rfl | rfl, -⟩ := listed name result found
    · exact List.mem_cons_self
    · exact List.mem_cons_of_mem _ List.mem_cons_self
  have callFree : ∀ callee result, targets.find? callee = some result →
      CallFree targets.contains result.uses := by
    intro callee result found
    obtain ⟨-, rfl⟩ := listed callee result found
    exact fun name called => absurd called List.not_mem_nil
  exact ⟨_, member, targets, registry, ⟨braced, isBlock, positioned, identifiers, names, callFree⟩,
    count, Function.flattenCalls_complete braced isBlock positioned identifiers names callFree⟩

/-- A target whose type calls another target brings that call into the declaration of a temporary. -/
theorem Function.flattenCalls_incomplete :
    ∃ unit, CompilationUnit.parse "void f(void) \x7b int (*p)[3]; p = g(); \x7d" = .ok unit ∧
      ∃ function ∈ unit.functions.map Function.normalize,
        ∃ targets : Association CType, ∃ registry : Registry,
          (function.body.Braced ∧ function.body.isBlock ∧
            (∀ occurrence ∈ function.occurrences (.bindings targets.contains),
              callsTarget targets occurrence → occurrence.isPositioned) ∧
            (∀ name ∈ Node.allNames function.nodes, name ∈ registry.used) ∧
            (∀ entry ∈ targets, entry.1 ∈ registry.used ∧ entry.2.isVoid = false)) ∧
          ∃ occurrence ∈ (function.flattenCalls targets registry).1.occurrences
            (.bindings targets.contains), callsTarget targets occurrence ∧
              occurrence.inBlock = false := by
  let size : Expr := .call .synthetic (.ofName "h") []
  let targets : Association CType :=
    [("g", .pointer {} (.array (.basic .int) (some size))), ("h", .basic .int)]
  let registry : Registry := ⟨["f", "g", "h", "p"], 0, 0⟩
  refine CompilationUnit.exists_parsed _
    (fun unit => decide (∃ function ∈ unit.functions.map Function.normalize,
      (∀ occurrence ∈ function.occurrences (.bindings targets.contains),
        callsTarget targets occurrence → occurrence.isPositioned) ∧
      (∀ name ∈ Node.allNames function.nodes, name ∈ registry.used) ∧
      (∀ entry ∈ targets, entry.1 ∈ registry.used ∧ entry.2.isVoid = false) ∧
      ∃ occurrence ∈ (function.flattenCalls targets registry).1.occurrences
        (.bindings targets.contains), callsTarget targets occurrence ∧
          occurrence.inBlock = false)) (by decide +kernel) ?_
  intro unit parses checked
  obtain ⟨function, member, positioned, identifiers, names, left⟩ := of_decide_eq_true checked
  obtain ⟨source, among, rfl⟩ := List.mem_map.mp member
  have formed := CompilationUnit.isFormed_of_parse parses source among
  exact ⟨_, member, targets, registry, ⟨Function.braced_normalize formed.2,
    Function.isBlock_normalize formed.1, positioned, identifiers, names⟩, left⟩

end InlineMacro
