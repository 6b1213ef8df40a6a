import InlineMacro.Proofs.Pass.Unchanged
import InlineMacro.Proofs.Run.Success
import Mathlib.Data.List.Nodup

/-!
# What stands where behind a run

A run that makes macros puts one text for each of them at the head of the unit and goes through the
items of the unit in their order. What becomes of an item depends on nothing but the item, the names
of the functions that became macros and the settings: definitions of macros and their prototypes may
go, other functions keep their heads, and anything else stays as it is.
-/

set_option autoImplicit false

namespace InlineMacro

/-! ## Runs and passes that succeed -/

variable {state after : RunState}

theorem Run.bind_ok {α β : Type} {first : Run β} {next : β → Run α}
    {value : α} (runs : (first >>= next).run state = .ok value after) :
    ∃ middle between, first.run state = .ok middle between ∧ (next middle).run between = .ok value after := by
  rw [EStateM.run_bind] at runs
  cases firstRuns : first.run state with
  | ok middle between =>
    rw [firstRuns] at runs
    exact ⟨middle, between, rfl, runs⟩
  | error failure between =>
    rw [firstRuns] at runs
    cases runs

/-- A function under the name and in the place of another. -/
structure Function.InPlaceOf (result source : Function) : Prop where
  name : result.name = source.name
  span : result.span = source.span

theorem Function.InPlaceOf.refl (function : Function) : function.InPlaceOf function := ⟨rfl, rfl⟩

theorem Function.InPlaceOf.trans {first second third : Function} (latter : third.InPlaceOf second)
    (former : second.InPlaceOf first) : third.InPlaceOf first :=
  ⟨latter.name.trans former.name, latter.span.trans former.span⟩

namespace Pass

def KeepsPlace {α : Type} (pass : Pass α) : Prop :=
  ∀ work value after, pass.run work = .ok value after → after.function.InPlaceOf work.function

namespace KeepsPlace

variable {α β : Type}

theorem pure (value : α) : KeepsPlace (Pure.pure value : Pass α) := by
  intro work result after runs
  cases runs
  exact .refl _

theorem bind {first : Pass β} {next : β → Pass α} (firstKeeps : KeepsPlace first)
    (nextKeeps : ∀ value, KeepsPlace (next value)) : KeepsPlace (first >>= next) := by
  intro work value after runs
  rw [EStateM.run_bind] at runs
  cases firstRuns : first.run work with
  | ok middle between =>
    rw [firstRuns] at runs
    exact (nextKeeps middle between value after runs).trans (firstKeeps work middle between firstRuns)
  | error failure between =>
    rw [firstRuns] at runs
    cases runs

theorem get : KeepsPlace (MonadState.get : Pass Work) := by
  intro work value after runs
  cases runs
  exact .refl _

theorem fresh (stem : String) : KeepsPlace (Pass.fresh stem) := by
  intro work value after runs
  cases runs
  exact .refl _

theorem update {change : Function → Function} (keeps : ∀ function, (change function).InPlaceOf function) :
    KeepsPlace (Pass.update change) := by
  intro work value after runs
  cases runs
  exact keeps _

theorem internal (message : String) : KeepsPlace (Pass.internal message : Pass α) := by
  intro work value after runs
  cases runs

end KeepsPlace

theorem keepsPlace_replaceReturns (replacement : ReturnReplacement) :
    KeepsPlace (Pass.replaceReturns replacement) := by
  refine .bind .get fun work => .bind (.update fun _ => ⟨rfl, rfl⟩) fun _ => ?_
  split
  · exact .internal _
  · exact .pure _

theorem keepsPlace_returnThroughPointer : KeepsPlace Pass.returnThroughPointer :=
  .bind (.fresh _) fun _ => .bind (.update fun _ => ⟨rfl, rfl⟩) fun _ =>
    .bind (keepsPlace_replaceReturns _) fun _ => .pure _

theorem keepsPlace_linearize : KeepsPlace Pass.linearize := by
  refine .bind .get fun work => ?_
  split
  · exact .pure _
  · refine .bind (.fresh _) fun exit => .bind (keepsPlace_replaceReturns _) fun _ =>
      .bind .get fun work => ?_
    have ends : KeepsPlace (do
        Pass.update fun function =>
          { function with
            body := function.body.followedBy [.labelled .synthetic exit (.empty .synthetic)] }
        Pure.pure (some exit) : Pass (Option String)) :=
      .bind (.update fun _ => ⟨rfl, rfl⟩) fun _ => .pure _
    dsimp only
    split
    · exact .bind (.internal _) fun _ => ends
    · exact ends

theorem invokeMacros_body {expansion : Expansion} {work after : Work} {value : Unit}
    (runs : (Pass.invokeMacros expansion).run work = .ok value after) :
    after.function = { work.function with body := after.function.body } := by
  have anything : Ensures (Invoking.statement expansion work.function.body)
      ⟨.ofFunction work.function, work.registry, none⟩ fun _ _ => True := trivial
  exact (Pass.invokeMacros_ensures anything runs).1

theorem keepsPlace_invokeMacros (expansion : Expansion) : KeepsPlace (Pass.invokeMacros expansion) := by
  intro work value after runs
  rw [invokeMacros_body runs]
  exact ⟨rfl, rfl⟩

end Pass

variable {function : Function}

theorem Run.pass_ok {α : Type} {work : Pass α}
    {value : α × Function} (runs : (Run.pass function work).run state = .ok value after) :
    ∃ registry, work.run ⟨function, state.registry⟩ = .ok value.1 ⟨value.2, registry⟩ := by
  simp only [Run.pass, EStateM.run_bind, EStateM.run_get] at runs
  cases workRuns : work.run ⟨function, state.registry⟩ with
  | ok result left =>
    rw [workRuns] at runs
    cases runs
    exact ⟨left.registry, rfl⟩
  | error failure left =>
    rw [workRuns] at runs
    cases runs

/-! ## One function -/

def MacroPlan.IsTextOf (plan : MacroPlan) (name text : String) : Prop :=
  ∃ macroName parameters expanded, plan.macros.find? name = some macroName ∧
    text = Function.macroText macroName plan.namespaceName parameters expanded

variable {value : String × Function} {name : String}

theorem Function.expandCalls_ok {plan : MacroPlan} {parameters : List String}
    (runs : (function.expandCalls plan name parameters).run state = .ok value after) :
    (∃ macroName, plan.macros.find? name = some macroName ∧
      value.1 = value.2.macroText macroName plan.namespaceName parameters) ∧ value.2.InPlaceOf function := by
  rw [Function.expandCalls] at runs
  obtain ⟨⟨_, expanded⟩, between, passes, runs⟩ := Run.bind_ok runs
  obtain ⟨registry, invokes⟩ := Run.pass_ok passes
  have inPlace := Pass.keepsPlace_invokeMacros _ _ _ _ invokes
  obtain ⟨-, last, -, runs⟩ := Run.bind_ok runs
  split at runs
  · next macroName found =>
    cases runs
    exact ⟨⟨macroName, found, rfl⟩, inPlace⟩
  · cases runs

theorem Function.finishMacro_ok {plan : MacroPlan} {parameters : List String}
    (runs : (function.finishMacro plan name parameters).run state = .ok value after) :
    (∃ macroName, plan.macros.find? name = some macroName ∧
      value.1 = value.2.macroText macroName plan.namespaceName parameters) ∧ value.2.InPlaceOf function := by
  rw [Function.finishMacro] at runs
  obtain ⟨⟨exit, linear⟩, between, passes, runs⟩ := Run.bind_ok runs
  obtain ⟨registry, linearizes⟩ := Run.pass_ok passes
  have inPlace : linear.InPlaceOf function := Pass.keepsPlace_linearize _ _ _ linearizes
  have ends (state : RunState)
      (runs : ((linear.appendNamespace plan.namespaceName).expandCalls plan name parameters).run
        state = .ok value after) : _ ∧ value.2.InPlaceOf function :=
    (Function.expandCalls_ok runs).imp_right fun later => later.trans ⟨inPlace.name, inPlace.span⟩
  dsimp only at runs
  split at runs
  · obtain ⟨-, last, -, runs⟩ := Run.bind_ok runs
    exact ends last runs
  · exact ends between runs

theorem Function.toMacro_ok {plan : MacroPlan} (runs : (function.toMacro plan).run state = .ok value after) :
    plan.IsTextOf function.name value.1 ∧ value.2.InPlaceOf function := by
  rw [Function.toMacro] at runs
  obtain ⟨-, first, -, runs⟩ := Run.bind_ok runs
  obtain ⟨⟨parameters, renamed⟩, second, renames, runs⟩ := Run.bind_ok runs
  have inPlace : renamed.InPlaceOf function := by
    cases renames
    exact ⟨rfl, rfl⟩
  obtain ⟨-, third, -, runs⟩ := Run.bind_ok runs
  have ends {parameters : List String} {between : Function} (state : RunState)
      (placed : between.InPlaceOf function)
      (runs : (between.finishMacro plan function.name parameters).run state = .ok value after) :
      plan.IsTextOf function.name value.1 ∧ value.2.InPlaceOf function := by
    obtain ⟨⟨macroName, named, text⟩, later⟩ := Function.finishMacro_ok runs
    exact ⟨⟨macroName, parameters, value.2, named, text⟩, later.trans placed⟩
  dsimp only at runs
  split at runs
  · obtain ⟨⟨pointer, pointed⟩, fourth, passes, runs⟩ := Run.bind_ok runs
    obtain ⟨registry, points⟩ := Run.pass_ok passes
    have keeps : pointed.InPlaceOf renamed := Pass.keepsPlace_returnThroughPointer _ _ _ points
    obtain ⟨-, fifth, -, runs⟩ := Run.bind_ok runs
    exact ends fifth (keeps.trans inPlace) runs
  · exact ends third inPlace runs

/-! ## Items -/

/-- What processing makes of a function, and of the texts of macros. -/
structure Function.ProcessedTo (plan : MacroPlan) (texts : Association String) (function : Function)
    (given : Association String) (result : Function) : Prop where
  macros : plan.eligibility.isEligible function.name → ∃ text, plan.IsTextOf function.name text ∧
    given = texts.insert function.name text ∧ result.InPlaceOf function
  others : plan.eligibility.isEligible function.name = false → given = texts ∧
    result = { function with body := result.body } ∧ (function.body.HasClearScopes →
      Occurrence.CallsNone plan.macros.contains
        (function.body.occurrences .locals false (.ofFunction function)) → result = function)

variable {texts : Association String}

theorem Function.process_ok {plan : MacroPlan} {value : Association String × Function}
    (runs : (function.process plan texts).run state = .ok value after) :
    function.ProcessedTo plan texts value.1 value.2 := by
  unfold Function.process at runs
  cases eligible : plan.eligibility.isEligible function.name with
  | true =>
    rw [eligible, if_pos rfl] at runs
    obtain ⟨⟨text, expanded⟩, between, makes, runs⟩ := Run.bind_ok runs
    cases runs
    obtain ⟨isText, inPlace⟩ := Function.toMacro_ok makes
    refine ⟨fun _ => ⟨text, isText, ?_, inPlace⟩, fun notEligible => ?_⟩
    · exact congrArg (texts.insert · text) inPlace.name
    · rw [eligible] at notEligible
      cases notEligible
  | false =>
    rw [eligible, if_neg Bool.false_ne_true] at runs
    obtain ⟨⟨_, expanded⟩, between, passes, runs⟩ := Run.bind_ok runs
    cases runs
    obtain ⟨registry, invokes⟩ := Run.pass_ok passes
    refine ⟨fun impossible => by simp [eligible] at impossible, fun _ =>
      ⟨rfl, Pass.invokeMacros_body invokes, fun clear none => ?_⟩⟩
    rw [Pass.invokeMacros_of_callsNone clear none] at invokes
    cases invokes
    rfl

/-- What processing makes of an item, given the texts of the macros. -/
inductive Item.ProcessedTo (plan : MacroPlan) (texts : Association String) :
    Item → Item → Prop where
  | expanded {function result : Function} {text : String}
      (eligible : plan.eligibility.isEligible function.name)
      (isText : plan.IsTextOf function.name text) (found : texts.find? function.name = some text)
      (inPlace : result.InPlaceOf function) :
      ProcessedTo plan texts (.function function) (.function result)
  | changed {function : Function} {body : Statement}
      (notEligible : plan.eligibility.isEligible function.name = false)
      (absent : texts.find? function.name = none)
      (same : function.body.HasClearScopes → Occurrence.CallsNone plan.macros.contains
        (function.body.occurrences .locals false (.ofFunction function)) → body = function.body) :
      ProcessedTo plan texts (.function function) (.function { function with body := body })
  | other {item : Item} (noFunction : item.function? = none) : ProcessedTo plan texts item item

def MacroPlan.AreTexts (plan : MacroPlan) (texts : Association String) : Prop :=
  ∀ name text, texts.find? name = some text →
    plan.eligibility.isEligible name ∧ plan.IsTextOf name text

variable {given : Association String}

theorem Function.ProcessedTo.areTexts {plan : MacroPlan}
    {result : Function} (processed : function.ProcessedTo plan texts given result)
    (areTexts : plan.AreTexts texts) : plan.AreTexts given := by
  intro name text found
  cases eligible : plan.eligibility.isEligible function.name with
  | true =>
    obtain ⟨added, isText, grown, -⟩ := processed.macros eligible
    rw [grown, Association.find?_insert] at found
    split at found
    · next same =>
      cases found
      exact same ▸ ⟨eligible, isText⟩
    · exact areTexts name text found
  | false =>
    rw [(processed.others eligible).1] at found
    exact areTexts name text found

theorem Function.ProcessedTo.isSome_find? {plan : MacroPlan}
    {result : Function} (processed : function.ProcessedTo plan texts given result)
    (known : (texts.find? name).isSome) : (given.find? name).isSome := by
  cases eligible : plan.eligibility.isEligible function.name with
  | true =>
    obtain ⟨added, isText, grown, -⟩ := processed.macros eligible
    rw [grown, Association.find?_insert]
    split
    · rfl
    · exact known
  | false => rwa [(processed.others eligible).1]

theorem Item.processAll_ok {plan : MacroPlan} {items results : List Item}
    (runs : (Item.processAll plan texts items).run state = .ok (given, results) after)
    (areTexts : plan.AreTexts texts) :
    List.Forall₂ (Item.ProcessedTo plan given) items results ∧ plan.AreTexts given ∧
      ∀ name, (texts.find? name).isSome → (given.find? name).isSome := by
  induction items generalizing texts state results with
  | nil =>
    cases runs
    exact ⟨.nil, areTexts, fun _ known => known⟩
  | cons item items ih =>
    cases item with
    | function definition =>
      rw [Item.processAll] at runs
      obtain ⟨⟨nextTexts, result⟩, between, processes, runs⟩ := Run.bind_ok runs
      obtain ⟨⟨lastTexts, others⟩, last, goesOn, runs⟩ := Run.bind_ok runs
      cases runs
      have processed : definition.ProcessedTo plan texts nextTexts result :=
        Function.process_ok processes
      obtain ⟨rest, allTexts, grows⟩ := ih goesOn (processed.areTexts areTexts)
      refine ⟨.cons ?_ rest, allTexts, fun name known => grows name (processed.isSome_find? known)⟩
      cases eligible : plan.eligibility.isEligible definition.name with
      | true =>
        obtain ⟨added, -, grown, inPlace⟩ := processed.macros eligible
        have known : (nextTexts.find? definition.name).isSome := by
          rw [grown, Association.find?_insert, if_pos rfl]
          rfl
        obtain ⟨text, found⟩ := Option.isSome_iff_exists.mp (grows definition.name known)
        exact .expanded eligible (allTexts _ _ found).2 found inPlace
      | false =>
        obtain ⟨unchanged, body, same⟩ := processed.others eligible
        rw [body]
        refine .changed eligible ?_ fun clear none => congrArg Function.body (same clear none)
        refine Option.eq_none_iff_forall_not_mem.mpr fun text found => ?_
        have isEligible := (allTexts _ _ found).1
        rw [eligible] at isEligible
        cases isEligible
    | declaration | typeDefinition | verbatim =>
      rw [Item.processAll_other rfl] at runs
      obtain ⟨⟨lastTexts, others⟩, last, goesOn, runs⟩ := Run.bind_ok runs
      cases runs
      obtain ⟨rest, later⟩ := ih goesOn areTexts
      exact ⟨.cons (.other rfl) rest, later⟩

/-! ## Flattening -/

/-- What flattening makes of an item. -/
inductive Item.FlattenedTo (targets : Association CType) : Item → Item → Prop where
  | function {function : Function} {body : Statement}
      (same : function.body.IsClear → Occurrence.CallsNone targets.contains
        (function.body.occurrences .locals false (.ofFunction function)) → body = function.body) :
      FlattenedTo targets (.function function) (.function { function with body := body })
  | other {item : Item} (noFunction : item.function? = none) : FlattenedTo targets item item

theorem Item.flattenedTo_flattenCalls (targets : Association CType) (function : Function)
    (registry : Registry) : Item.FlattenedTo targets (.function function)
      (.function (function.flattenCalls targets registry).1) := by
  have body : (function.flattenCalls targets registry).1 =
      { function with body := (function.flattenCalls targets registry).1.body } := by
    unfold Function.flattenCalls
    split <;> rfl
  rw [body]
  refine .function fun clear none => ?_
  rw [Function.flattenCalls_of_callsNone clear none]

theorem Item.flattenAll_flattenedTo (targets : Association CType) (items : List Item) (registry : Registry) :
    List.Forall₂ (Item.FlattenedTo targets) items (Item.flattenAll targets items registry).1 := by
  induction items generalizing registry with
  | nil => exact .nil
  | cons item items ih =>
    cases item with
    | function definition =>
      exact .cons (Item.flattenedTo_flattenCalls targets definition registry) (ih _)
    | declaration | typeDefinition | verbatim => exact .cons (.other rfl) (ih _)

/-! ## Placing -/

namespace MacroPlacement

def headOf (texts : Association String) : Item → List Item
  | .function definition =>
    ((texts.find? definition.name).map fun text => .verbatim text definition.span).toList
  | _ => []

def remainderOf (dropsPrototypes : Bool) (plan : MacroPlan) (texts : Association String)
    (sources : Association Function) : Item → List Item
  | .function definition =>
    match texts.find? definition.name with
    | none => [.function definition]
    | some _ => ((sources.find? definition.name).map Item.function).toList
  | .declaration declared =>
    if dropsPrototypes && declared.type.isFunction && plan.macros.contains declared.name then []
    else [.declaration declared]
  | item => [item]

section Fold

variable (dropsPrototypes : Bool) (plan : MacroPlan) {items : List Item}

theorem headOf_congr {texts others : Association String}
    (same : ∀ function ∈ Item.functions items, others.find? function.name = texts.find? function.name) :
    items.flatMap (headOf others) = items.flatMap (headOf texts) := by
  refine List.flatMap_congr fun item member => ?_
  cases item with
  | function definition =>
    have among : definition ∈ Item.functions items := List.mem_filterMap.mpr ⟨_, member, rfl⟩
    simp only [headOf, same definition among]
  | declaration | typeDefinition | verbatim => rfl

theorem remainderOf_congr {texts others : Association String} {sources otherSources : Association Function}
    (same : ∀ function ∈ Item.functions items, others.find? function.name = texts.find? function.name)
    (sameSources : ∀ function ∈ Item.functions items,
      otherSources.find? function.name = sources.find? function.name) :
    items.flatMap (remainderOf dropsPrototypes plan others otherSources) =
      items.flatMap (remainderOf dropsPrototypes plan texts sources) := by
  refine List.flatMap_congr fun item member => ?_
  cases item with
  | function definition =>
    have among : definition ∈ Item.functions items := List.mem_filterMap.mpr ⟨_, member, rfl⟩
    simp only [remainderOf, same definition among, sameSources definition among]
  | declaration | typeDefinition | verbatim => rfl

theorem place_head (placement : MacroPlacement) (item : Item) :
    (placement.place dropsPrototypes plan item).head = placement.head ++ headOf placement.texts item := by
  cases item with
  | function definition =>
    simp only [place, headOf]
    split <;> simp [*]
  | declaration declared =>
    simp only [place, headOf]
    split <;> simp
  | typeDefinition | verbatim => simp [place, headOf]

theorem place_items (placement : MacroPlacement) (item : Item) :
    (placement.place dropsPrototypes plan item).items = placement.items ++
        remainderOf dropsPrototypes plan placement.texts placement.sources item := by
  cases item with
  | function definition =>
    simp only [place, remainderOf]
    split <;> simp [*]
  | declaration declared =>
    simp only [place, remainderOf]
    split <;> simp
  | typeDefinition | verbatim => simp [place, remainderOf]

theorem place_find? (placement : MacroPlacement) {item : Item} {name : String}
    (different : ∀ function, item.function? = some function → name ≠ function.name) :
    (placement.place dropsPrototypes plan item).texts.find? name = placement.texts.find? name ∧
      (placement.place dropsPrototypes plan item).sources.find? name = placement.sources.find? name := by
  cases item with
  | function definition =>
    have other := different definition rfl
    simp only [place]
    split
    · exact ⟨rfl, rfl⟩
    · simp only [Association.find?_erase, if_neg other, and_self]
  | declaration declared =>
    simp only [place]
    split <;> exact ⟨rfl, rfl⟩
  | typeDefinition | verbatim => exact ⟨rfl, rfl⟩

theorem foldl_place (placement : MacroPlacement)
    (distinct : ((Item.functions items).map Function.name).Nodup) :
    let placed := items.foldl (place dropsPrototypes plan) placement
    placed.head = placement.head ++ items.flatMap (headOf placement.texts) ∧
      placed.items = placement.items ++ items.flatMap
        (remainderOf dropsPrototypes plan placement.texts placement.sources) := by
  induction items generalizing placement with
  | nil => simp
  | cons item items ih =>
    have later : ((Item.functions items).map Function.name).Nodup := by
      refine distinct.sublist (List.Sublist.map _ ?_)
      exact (List.sublist_cons_self item items).filterMap _
    have different : ∀ other ∈ Item.functions items, ∀ function,
        item.function? = some function → other.name ≠ function.name := by
      intro other member function isFunction same
      have first : Item.functions (item :: items) = function :: Item.functions items :=
        List.filterMap_cons_some isFunction
      rw [first, List.map_cons, List.nodup_cons] at distinct
      exact distinct.1 (same ▸ List.mem_map_of_mem member)
    have kept (other : Function) (member : other ∈ Item.functions items) :=
      place_find? dropsPrototypes plan placement (different other member)
    obtain ⟨heads, remainders⟩ := ih (placement.place dropsPrototypes plan item) later
    rw [headOf_congr fun other member => (kept other member).1] at heads
    rw [remainderOf_congr dropsPrototypes plan (fun other member => (kept other member).1)
      fun other member => (kept other member).2] at remainders
    dsimp only at heads remainders ⊢
    rw [List.foldl_cons, heads, remainders, place_head, place_items]
    simp only [List.flatMap_cons, List.append_assoc, and_self]

end Fold

end MacroPlacement

/-! ## The whole run -/

def Function.CallsVisibly (names : List String) (function : Function) : Prop :=
  ∃ occurrence ∈ function.body.occurrences .locals false (.ofFunction function),
    ∃ name ∈ names, occurrence.use = .called name ∧ occurrence.isVisible

/-- A prototype of one of some functions: a declaration of that name with a function type. -/
structure Declaration.IsPrototypeOf (names : List String) (declaration : Declaration) : Prop where
  isFunction : declaration.type.isFunction
  named : declaration.name ∈ names

/-- What a run leaves of an item, given the functions that became macros. -/
inductive Item.Leaves (configuration : Configuration) (macroized : List String) :
    Item → List Item → Prop where
  | removed {definition : Function} (isMacro : definition.name ∈ macroized)
      (removes : ¬ configuration.keepsDefinitions) :
      Leaves configuration macroized (.function definition) []
  | kept {definition : Function} (isMacro : definition.name ∈ macroized)
      (keeps : configuration.keepsDefinitions) :
      Leaves configuration macroized (.function definition) [.function definition]
  | changed {definition : Function} {body : Statement} (noMacro : definition.name ∉ macroized)
      (same : ¬ definition.normalize.CallsVisibly macroized → body = definition.normalize.body) :
      Leaves configuration macroized (.function definition)
        [.function { definition with body := body }]
  | dropped {declared : Declaration} (prototype : declared.IsPrototypeOf macroized)
      (drops : ¬ configuration.keepsDefinitions ∨ configuration.purgesPrototypes) :
      Leaves configuration macroized (.declaration declared) []
  | prototype {declared : Declaration} (prototype : declared.IsPrototypeOf macroized)
      (keeps : configuration.keepsDefinitions) (noPurge : ¬ configuration.purgesPrototypes) :
      Leaves configuration macroized (.declaration declared) [.declaration declared]
  | declaration {declared : Declaration} (noPrototype : ¬ declared.IsPrototypeOf macroized) :
      Leaves configuration macroized (.declaration declared) [.declaration declared]
  | typeDefinition (type : CType) (span : Span) :
      Leaves configuration macroized (.typeDefinition type span) [.typeDefinition type span]
  | verbatim (text : String) (span : Span) :
      Leaves configuration macroized (.verbatim text span) [.verbatim text span]

theorem forall₂_comp {α β γ : Type} {first : α → β → Prop} {second : β → γ → Prop} {as : List α}
    {bs : List β} {cs : List γ} (firstHolds : List.Forall₂ first as bs)
    (secondHolds : List.Forall₂ second bs cs) :
    List.Forall₂ (fun a c => ∃ b, first a b ∧ second b c) as cs := by
  induction firstHolds generalizing cs with
  | nil =>
    cases secondHolds
    exact .nil
  | cons head tail ih =>
    cases secondHolds with
    | cons otherHead otherTail => exact .cons ⟨_, head, otherHead⟩ (ih otherTail)

theorem exists_of_mem_forall₂ {α β : Type} {related : α → β → Prop} {as : List α} {bs : List β}
    (each : List.Forall₂ related as bs) {a : α} (member : a ∈ as) : ∃ b ∈ bs, related a b := by
  induction each with
  | nil => cases member
  | cons head tail ih =>
    rcases List.mem_cons.mp member with rfl | member
    · exact ⟨_, List.mem_cons_self, head⟩
    · obtain ⟨b, among, holds⟩ := ih member
      exact ⟨b, List.mem_cons_of_mem _ among, holds⟩

theorem Item.names_eq {items results : List Item} (same : List.Forall₂ (fun item result : Item =>
      item.function?.map Function.name = result.function?.map Function.name) items results) :
    (Item.functions items).map Function.name = (Item.functions results).map Function.name := by
  have names (given : List Item) : (Item.functions given).map Function.name =
      given.filterMap fun item => item.function?.map Function.name :=
    List.map_filterMap
  rw [names, names]
  induction same with
  | nil => rfl
  | cons head tail ih => rw [List.filterMap_cons, List.filterMap_cons, head, ih]

namespace CompilationUnit

variable {configuration : Configuration} {unit : CompilationUnit}

def normalizedItem : Item → Item
  | .function definition => .function definition.normalize
  | item => item

/-- What becomes of an item before it is placed. -/
inductive RewrittenTo (unit : CompilationUnit) (configuration : Configuration) (plan : MacroPlan)
    (texts : Association String) : Item → Item → Prop where
  | expanded {function result : Function} {text : String}
      (isMacro : function.name ∈ (unit.decision configuration).eligible)
      (isText : plan.IsTextOf function.name text) (found : texts.find? function.name = some text)
      (inPlace : result.InPlaceOf function) :
      RewrittenTo unit configuration plan texts (.function function) (.function result)
  | changed {function : Function} {body : Statement}
      (noMacro : function.name ∉ (unit.decision configuration).eligible)
      (absent : texts.find? function.name = none)
      (same : ¬ function.normalize.CallsVisibly (unit.decision configuration).eligible →
        body = function.normalize.body) :
      RewrittenTo unit configuration plan texts (.function function)
        (.function { function with body := body })
  | other {item : Item} (noFunction : item.function? = none) :
      RewrittenTo unit configuration plan texts item item

theorem callsNone_of_not_callsVisibly {names : List String} {isTarget : String → Bool}
    (targets : ∀ name, isTarget name → name ∈ names) {function : Function}
    (notVisible : ¬ function.CallsVisibly names) : Occurrence.CallsNone isTarget
      (function.body.occurrences .locals false (.ofFunction function)) := by
  intro occurrence member name called target
  by_contra visible
  refine notVisible ⟨occurrence, member, name, targets name target, called, ?_⟩
  rw [Occurrence.isVisible, called]
  simpa [Use.name] using visible

variable {texts : Association String}

theorem rewrittenTo_of_stages (start : Registry) {item flattened processed : Item}
    (flattens : (normalizedItem item).FlattenedTo (unit.decision configuration).results flattened)
    (processes : flattened.ProcessedTo (unit.plan configuration start) texts processed) :
    RewrittenTo unit configuration (unit.plan configuration start) texts item processed := by
  cases item with
  | function definition =>
    cases flattens with
    | @function normal body flatSame =>
      cases processes with
      | expanded eligible isText found inPlace =>
        exact .expanded (List.contains_iff_mem.mp eligible) isText found ⟨inPlace.name, inPlace.span⟩
      | @changed flat result notEligible absent same =>
        have notMacro : definition.name ∉ (unit.decision configuration).eligible := fun eligible =>
          Bool.eq_false_iff.mp notEligible (List.contains_iff_mem.mpr eligible)
        refine .changed notMacro absent fun notVisible => ?_
        have clear := definition.isClear_normalize
        have keeps : body = definition.normalize.body := flatSame clear
          (callsNone_of_not_callsVisibly (fun _ => mem_eligible_of_contains_results) notVisible)
        subst keeps
        exact same clear.inside (callsNone_of_not_callsVisibly
          (fun name => (unit.contains_macros configuration start name).mp) notVisible)
      | other noFunction => cases noFunction
    | other noFunction => cases noFunction
  | declaration | typeDefinition | verbatim =>
    cases flattens
    cases processes
    exact .other rfl

theorem items_normalized : unit.normalized.items = unit.items.map normalizedItem := by
  refine List.map_congr_left fun item _ => ?_
  cases item <;> rfl

variable {start : Registry}

theorem forall₂_heads {items processed : List Item} (rewrites : List.Forall₂
      (RewrittenTo unit configuration (unit.plan configuration start) texts) items processed) :
    List.Forall₂ (fun function item => ∃ text, (unit.plan configuration start).IsTextOf function.name text ∧
          item = .verbatim text function.span) ((Item.functions items).filter fun function =>
        function.name ∈ (unit.decision configuration).eligible)
      (processed.flatMap (MacroPlacement.headOf texts)) := by
  induction rewrites with
  | nil => exact .nil
  | @cons item result items results rewrite rest ih =>
    rw [List.flatMap_cons]
    cases rewrite with
    | @expanded function result text isMacro isText found inPlace =>
      rw [Item.functions_cons_function, List.filter_cons_of_pos (by simpa using isMacro)]
      have heads : MacroPlacement.headOf texts (.function result) =
          [.verbatim text function.span] := by
        simp only [MacroPlacement.headOf, inPlace.name, found, inPlace.span]
        rfl
      rw [heads]
      exact .cons ⟨text, isText, rfl⟩ ih
    | @changed function body noMacro absent same =>
      rw [Item.functions_cons_function, List.filter_cons_of_neg (by simpa using noMacro)]
      have heads : MacroPlacement.headOf texts (.function { function with body := body }) = [] := by
        simp only [MacroPlacement.headOf, absent]
        rfl
      rw [heads]
      exact ih
    | other noFunction =>
      rw [Item.functions_cons_other noFunction]
      have heads : MacroPlacement.headOf texts item = [] := by
        cases item with
        | function definition => cases noFunction
        | _ => rfl
      rw [heads]
      exact ih

theorem leaves_remainder {sources : Association Function} {item processed : Item}
    (known : ∀ function, item.function? = some function → sources.find? function.name =
      if configuration.keepsDefinitions then some function else none)
    (rewrites : RewrittenTo unit configuration (unit.plan configuration start) texts item processed) :
    item.Leaves configuration (unit.decision configuration).eligible (MacroPlacement.remainderOf
        (!configuration.keepsDefinitions || configuration.purgesPrototypes)
        (unit.plan configuration start) texts sources processed) := by
  cases rewrites with
  | @expanded function result text isMacro isText found inPlace =>
    have source := known function rfl
    simp only [MacroPlacement.remainderOf, inPlace.name, found, source]
    cases keeps : configuration.keepsDefinitions with
    | true => exact .kept isMacro keeps
    | false => exact .removed isMacro (by simp [keeps])
  | @changed function body noMacro absent same =>
    simp only [MacroPlacement.remainderOf, absent]
    exact .changed noMacro same
  | other noFunction =>
    cases item with
    | function definition => cases noFunction
    | declaration declared =>
      have named := unit.contains_macros configuration start declared.name
      by_cases prototype : declared.IsPrototypeOf (unit.decision configuration).eligible
      · simp only [MacroPlacement.remainderOf, prototype.isFunction, named.mpr prototype.named,
          Bool.and_true]
        split
        · next drops => exact .dropped prototype (by simpa using drops)
        · next stays => exact .prototype prototype (by simp_all) (by simp_all)
      · have noPrototype : (declared.type.isFunction &&
            (unit.plan configuration start).macros.contains declared.name) = false := by
          rw [Bool.eq_false_iff, Ne, Bool.and_eq_true, named]
          exact fun both => prototype ⟨both.1, both.2⟩
        simp only [MacroPlacement.remainderOf, Bool.and_assoc, noPrototype, Bool.and_false]
        exact .declaration prototype
    | typeDefinition type span => exact .typeDefinition type span
    | verbatim text span => exact .verbatim text span

def sources (configuration : Configuration) (unit : CompilationUnit) : Association Function :=
  if configuration.keepsDefinitions then
    Association.ofPairs (unit.functions.map fun function => (function.name, function))
  else []

theorem find?_sources (distinct : (unit.functions.map Function.name).Nodup) {function : Function}
    (member : function ∈ unit.functions) : (unit.sources configuration).find? function.name =
      if configuration.keepsDefinitions then some function else none := by
  unfold sources
  split
  · have contained := (Association.contains_ofPairs
      (unit.functions.map fun function => (function.name, function)) function.name).mpr
        (List.mem_map.mpr ⟨_, List.mem_map_of_mem member, rfl⟩)
    obtain ⟨source, found⟩ := Option.isSome_iff_exists.mp contained
    obtain ⟨other, among, same⟩ := List.mem_map.mp (Association.mem_of_find?_ofPairs found)
    have isSource : other = source := congrArg Prod.snd same
    have isFunction : other = function :=
      List.inj_on_of_nodup_map distinct among member (congrArg Prod.fst same)
    rw [found, ← isSource, isFunction]
  · rfl

/-- What a run comes to: without macros the unit in normal form, otherwise its processed items as
they are placed. -/
theorem report_and_result {state after : RunState} {report : Report} {result : CompilationUnit}
    (runs : (unit.macroize configuration).run state = .ok (report, result) after) :
    report = unit.report configuration ∧
      ((report.macroized = [] ∧ result = unit.normalized) ∨ ∃ texts processed,
        result = unit.placed configuration state.registry texts processed ∧
        List.Forall₂ (RewrittenTo unit configuration (unit.plan configuration state.registry) texts)
          unit.items processed) := by
  have outcome : (unit.macroize configuration).outcome state =
      .ok (report, result) after.registry := Run.outcome_ok_iff.mpr ⟨after.snapshots, runs⟩
  rw [macroize, Run.outcome_withRegistry, Run.outcome_snapshot, Run.outcome_snapshot] at outcome
  change Run.outcome (if (unit.decision configuration).eligible.isEmpty then _ else _) _ = _
    at outcome
  cases none : (unit.decision configuration).eligible.isEmpty with
  | true =>
    rw [none, if_pos rfl] at outcome
    have value : (unit.report configuration, unit.normalized) = (report, result) := by
      injection outcome
    cases value
    exact ⟨rfl, .inl ⟨List.isEmpty_iff.mp none, rfl⟩⟩
  | false =>
    rw [none, if_neg Bool.false_ne_true, Run.outcome_withRegistry, Run.outcome_withRegistry,
      Run.outcome_bind, Run.mapFunctions_run] at outcome
    dsimp only at outcome
    rw [Run.outcome_snapshot] at outcome
    obtain ⟨snapshots, lastRuns⟩ := Run.outcome_ok_iff.mp outcome
    obtain ⟨⟨texts, processed⟩, between, processes, placing⟩ := Run.bind_ok lastRuns
    obtain ⟨-, last, -, placing⟩ := Run.bind_ok placing
    cases (EStateM.Result.ok.inj placing).1
    refine ⟨rfl, .inr ⟨texts, processed, rfl, ?_⟩⟩
    have flattens : List.Forall₂ (fun item flattened =>
        (normalizedItem item).FlattenedTo (unit.decision configuration).results flattened)
        unit.items (unit.flattened configuration state.registry).1 := by
      have each := Item.flattenAll_flattenedTo (unit.decision configuration).results
        unit.normalized.items (unit.planned configuration state.registry)
      rwa [items_normalized, List.forall₂_map_left_iff] at each
    obtain ⟨processing, -⟩ := Item.processAll_ok processes fun _ _ found => by cases found
    refine (forall₂_comp flattens processing).imp fun item result stages => ?_
    obtain ⟨flat, flattens, processes⟩ := stages
    exact rewrittenTo_of_stages state.registry flattens processes

/-- With one function for a name, the texts of the macros come first and then what is left of each
item. -/
theorem exists_remainders {processed : List Item} (distinct : (unit.functions.map Function.name).Nodup)
    (rewrites : List.Forall₂
      (RewrittenTo unit configuration (unit.plan configuration start) texts) unit.items processed) :
    ∃ heads remainders,
      (unit.placed configuration start texts processed).items = heads ++ remainders.flatten ∧
      List.Forall₂ (fun function item => ∃ text, (unit.plan configuration start).IsTextOf function.name text ∧
            item = .verbatim text function.span) (unit.functions.filter fun function =>
          function.name ∈ (unit.decision configuration).eligible) heads ∧
      List.Forall₂ (Item.Leaves configuration (unit.decision configuration).eligible)
        unit.items remainders := by
  have names : (Item.functions unit.items).map Function.name =
      (Item.functions processed).map Function.name := by
    refine Item.names_eq (rewrites.imp fun item result rewritten => ?_)
    cases rewritten with
    | expanded isMacro isText found inPlace => exact congrArg some inPlace.name.symm
    | changed | other => rfl
  obtain ⟨heads, remainders⟩ := MacroPlacement.foldl_place
    (!configuration.keepsDefinitions || configuration.purgesPrototypes)
    (unit.plan configuration start)
    { texts := texts, sources := unit.sources configuration } (names ▸ distinct)
  refine ⟨_, processed.map (MacroPlacement.remainderOf
      (!configuration.keepsDefinitions || configuration.purgesPrototypes)
      (unit.plan configuration start) texts (unit.sources configuration)),
    ?_, forall₂_heads rewrites, List.forall₂_map_right_iff.mpr ?_⟩
  · exact congrArg₂ (· ++ ·) heads (remainders.trans List.flatMap_def)
  · have known : ∀ item ∈ unit.items, ∀ function, item.function? = some function →
        function ∈ unit.functions := fun item member function isFunction =>
      List.mem_filterMap.mpr ⟨item, member, isFunction⟩
    refine ((List.forall₂_and_left _ _).mpr ⟨known, rewrites⟩).imp fun item result rewritten => ?_
    exact leaves_remainder (fun function isFunction =>
      find?_sources distinct (rewritten.1 function isFunction)) rewritten.2

/-- Only what must change changes: behind a run that makes macros stand their texts, in the order of
their functions, and then what is left of each item of the unit, in the order of the items. -/
theorem macroize_places {state after : RunState} {report : Report} {result : CompilationUnit}
    (distinct : (unit.functions.map Function.name).Nodup)
    (runs : (unit.macroize configuration).run state = .ok (report, result) after)
    (someMacro : report.macroized ≠ []) :
    ∃ heads remainders, result.items = heads ++ remainders.flatten ∧
      List.Forall₂ (fun function item => ∃ text,
          (unit.plan configuration state.registry).IsTextOf function.name text ∧
            item = .verbatim text function.span)
        (unit.functions.filter fun function => function.name ∈ report.macroized) heads ∧
      List.Forall₂ (Item.Leaves configuration report.macroized) unit.items remainders := by
  obtain ⟨rfl, ⟨none, -⟩ | ⟨texts, processed, rfl, rewrites⟩⟩ := report_and_result runs
  · exact absurd none someMacro
  · exact exists_remainders distinct rewrites

theorem macroize_places_beside_definition :
    ∃ unit, CompilationUnit.parse
        "void g(int n); inline void g(int n) \x7b n = n; \x7d int k;
          int main(void) \x7b k = 1; g(k); return 0; \x7d" = .ok unit ∧
      (unit.functions.map Function.name).Nodup ∧
      ∃ report result after,
        (unit.macroize { keepsDefinitions := true, purgesPrototypes := true }).run ⟨{}, []⟩ =
          .ok (report, result) after ∧ report.macroized ≠ [] ∧
        ∃ heads remainders, result.items = heads ++ remainders.flatten ∧
          List.Forall₂ (fun function item => ∃ text,
              (unit.plan { keepsDefinitions := true, purgesPrototypes := true } {}).IsTextOf
                function.name text ∧ item = .verbatim text function.span)
            (unit.functions.filter fun function => function.name ∈ report.macroized) heads ∧
          List.Forall₂ (Item.Leaves { keepsDefinitions := true, purgesPrototypes := true }
            report.macroized) unit.items remainders := by
  refine exists_parsed _ (fun unit => decide (unit.functions.map Function.name).Nodup &&
      unit.runGives { keepsDefinitions := true, purgesPrototypes := true }
        fun given => !given.1.macroized.isEmpty) (by decide +kernel) ?_
  intro unit parses checked
  obtain ⟨distinct, gives⟩ := Bool.and_eq_true _ _ ▸ checked
  have distinct := of_decide_eq_true distinct
  obtain ⟨report, result, after, runs, some⟩ := exists_run_of_runGives gives
  have someMacro : report.macroized ≠ [] := by simpa using some
  exact ⟨distinct, report, result, after, runs, someMacro,
    macroize_places distinct runs someMacro⟩

end CompilationUnit

end InlineMacro
