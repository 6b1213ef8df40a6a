import InlineMacro.Proofs.Run.Placement

/-!
# Bodies of types at file scope

A record or an enumeration gets its body where the source writes one, and an item that goes takes
the bodies in its type with it. Behind a run stand the bodies of those items that stay.
-/

set_option autoImplicit false

namespace InlineMacro

def Item.fileBodies : Item → List CType
  | .function definition => definition.result.bodies
  | .declaration declared => declared.type.bodies
  | .typeDefinition type _ => type.bodies
  | .verbatim .. => []

/-- Whether a run leaves an item of a unit, at least with its type: the definition of a macro only if
definitions are kept and no other one takes its place, and a prototype of a macro only if prototypes
are not dropped. -/
def Item.StaysIn (configuration : Configuration) (unit : CompilationUnit)
    (macroized : List String) : Item → Prop
  | .function definition => definition.name ∈ macroized → configuration.keepsDefinitions ∧
      ∀ other ∈ unit.functions, other.name = definition.name → other.result = definition.result
  | .declaration declared => declared.IsPrototypeOf macroized →
      configuration.keepsDefinitions ∧ ¬ configuration.purgesPrototypes
  | _ => True

/-! ## Placing -/

namespace MacroPlacement

variable {dropsPrototypes : Bool} {plan : MacroPlan} {placement : MacroPlacement}

theorem mem_foldl_place {item : Item} (items : List Item) (member : item ∈ placement.items) :
    item ∈ (items.foldl (place dropsPrototypes plan) placement).items := by
  induction items generalizing placement with
  | nil => exact member
  | cons first rest ih =>
    refine ih ?_
    rw [place_items]
    exact List.mem_append_left _ member

theorem place_find?_eq_none (placement : MacroPlacement) (item : Item) {name : String}
    (absent : placement.texts.find? name = none) :
    (placement.place dropsPrototypes plan item).texts.find? name = none := by
  cases item with
  | function definition =>
    simp only [place]
    split
    · exact absent
    · rw [Association.find?_erase]
      split
      · rfl
      · exact absent
  | declaration declared =>
    simp only [place]
    split <;> exact absent
  | typeDefinition | verbatim => exact absent

theorem mem_foldl_of_stays {item : Item} {items : List Item} (member : item ∈ items)
    (noMacro : ∀ function, item.function? = some function → placement.texts.find? function.name = none)
    (stays : ∀ texts sources, (∀ function, item.function? = some function →
      texts.find? function.name = none) → item ∈ remainderOf dropsPrototypes plan texts sources item) :
    item ∈ (items.foldl (place dropsPrototypes plan) placement).items := by
  induction items generalizing placement with
  | nil => cases member
  | cons first rest ih =>
    rcases List.mem_cons.mp member with rfl | member
    · refine mem_foldl_place rest ?_
      rw [place_items]
      exact List.mem_append_right _ (stays _ _ noMacro)
    · exact ih member fun function isFunction =>
        place_find?_eq_none placement first (noMacro function isFunction)

theorem mem_foldl_of_source (name : String) {items : List Item}
    (member : name ∈ (Item.functions items).map Function.name)
    (isMacro : (placement.texts.find? name).isSome) {source : Function}
    (kept : placement.sources.find? name = some source) :
    .function source ∈ (items.foldl (place dropsPrototypes plan) placement).items := by
  induction items generalizing placement with
  | nil => cases member
  | cons first rest ih =>
    by_cases here : first.function?.map Function.name = some name
    · obtain ⟨definition, isFunction, rfl⟩ := Option.map_eq_some_iff.mp here
      cases first with
      | function definition =>
        cases isFunction
        refine mem_foldl_place rest ?_
        obtain ⟨text, found⟩ := Option.isSome_iff_exists.mp isMacro
        rw [place_items]
        refine List.mem_append_right _ ?_
        simp [remainderOf, found, kept]
      | _ => cases isFunction
    · have different : ∀ function, first.function? = some function → name ≠ function.name := by
        intro function isFunction same
        exact here (by rw [isFunction, same]; rfl)
      obtain ⟨texts, sources⟩ := place_find? dropsPrototypes plan placement different
      have later : name ∈ (Item.functions rest).map Function.name := by
        obtain ⟨function, among, rfl⟩ := List.mem_map.mp member
        obtain ⟨item, found, isFunction⟩ := List.mem_filterMap.mp among
        rcases List.mem_cons.mp found with rfl | found
        · exact absurd rfl (different function isFunction)
        · exact List.mem_map_of_mem (List.mem_filterMap.mpr ⟨item, found, isFunction⟩)
      exact ih later (texts ▸ isMacro) (sources.trans kept)

end MacroPlacement

namespace CompilationUnit

variable {configuration : Configuration} {unit : CompilationUnit}

theorem fileBodies_normalizedItem (item : Item) : (normalizedItem item).fileBodies = item.fileBodies := by
  cases item <;> rfl

theorem exists_source {function : Function} (member : function ∈ unit.functions)
    (keeps : configuration.keepsDefinitions) : ∃ source ∈ unit.functions, source.name = function.name ∧
      (unit.sources configuration).find? function.name = some source := by
  unfold sources
  rw [if_pos keeps]
  have contained := (Association.contains_ofPairs
    (unit.functions.map fun function => (function.name, function)) function.name).mpr
      (List.mem_map.mpr ⟨_, List.mem_map_of_mem member, rfl⟩)
  obtain ⟨source, found⟩ := Option.isSome_iff_exists.mp contained
  obtain ⟨other, among, same⟩ := List.mem_map.mp (Association.mem_of_find?_ofPairs found)
  have isSource : other = source := congrArg Prod.snd same
  exact ⟨source, isSource ▸ among, isSource ▸ congrArg Prod.fst same, found⟩

theorem exists_left_of_staysIn {start : Registry} {texts : Association String}
    {processed : List Item}
    (rewrites : List.Forall₂
      (RewrittenTo unit configuration (unit.plan configuration start) texts) unit.items processed)
    {item : Item} (member : item ∈ unit.items)
    (stays : item.StaysIn configuration unit (unit.decision configuration).eligible) :
    ∃ left ∈ (unit.placed configuration start texts processed).items,
      left.fileBodies = item.fileBodies := by
  obtain ⟨result, among, rewrite⟩ := exists_of_mem_forall₂ rewrites member
  have behind {left : Item} (placed : left ∈ (processed.foldl (MacroPlacement.place
      (!configuration.keepsDefinitions || configuration.purgesPrototypes)
      (unit.plan configuration start))
      { texts := texts, sources := unit.sources configuration }).items) :
      left ∈ (unit.placed configuration start texts processed).items :=
    List.mem_append_right _ placed
  cases rewrite with
  | @expanded function result text isMacro isText found inPlace =>
    obtain ⟨keeps, sameResult⟩ := stays isMacro
    have functionMember : function ∈ unit.functions :=
      List.mem_filterMap.mpr ⟨_, member, rfl⟩
    obtain ⟨source, sourceMember, named, kept⟩ := exists_source functionMember keeps
    have named' : function.name ∈ (Item.functions processed).map Function.name :=
      List.mem_map.mpr ⟨result, List.mem_filterMap.mpr ⟨_, among, rfl⟩, inPlace.name⟩
    exact ⟨.function source, behind (MacroPlacement.mem_foldl_of_source function.name named'
      (Option.isSome_iff_exists.mpr ⟨text, found⟩) kept),
      congrArg CType.bodies (sameResult source sourceMember named)⟩
  | @changed function body noMacro absent same =>
    refine ⟨_, behind (MacroPlacement.mem_foldl_of_stays among ?_ ?_), rfl⟩
    · intro other isOther
      cases isOther
      exact absent
    · intro texts sources noText
      have none := noText { function with body := body } rfl
      simp [MacroPlacement.remainderOf, none]
  | other noFunction =>
    refine ⟨item, behind (MacroPlacement.mem_foldl_of_stays among ?_ ?_), rfl⟩
    · intro other isOther
      rw [noFunction] at isOther
      cases isOther
    · intro texts sources noText
      have leaves : item.Leaves configuration (unit.decision configuration).eligible
          (MacroPlacement.remainderOf
            (!configuration.keepsDefinitions || configuration.purgesPrototypes)
            (unit.plan configuration start) texts sources item) := by
        refine leaves_remainder (fun function isFunction => ?_) (.other noFunction)
        rw [noFunction] at isFunction
        cases isFunction
      generalize MacroPlacement.remainderOf _ _ texts sources item = remainder at leaves ⊢
      cases leaves with
      | removed | kept | changed => cases noFunction
      | dropped prototype drops =>
        obtain ⟨keeps, noPurge⟩ := stays prototype
        exact absurd drops (by simp [keeps, noPurge])
      | _ => exact List.mem_singleton.mpr rfl

theorem staysIn_of_leaves (distinct : (unit.functions.map Function.name).Nodup)
    {macroized : List String} {item left : Item} {remainder : List Item} (member : item ∈ unit.items)
    (leaves : item.Leaves configuration macroized remainder) (among : left ∈ remainder) :
    item.StaysIn configuration unit macroized ∧ left.fileBodies = item.fileBodies := by
  cases leaves with
  | removed | dropped => cases among
  | @kept definition isMacro keeps =>
    rw [List.mem_singleton.mp among]
    refine ⟨fun _ => ⟨keeps, fun other otherMember named => ?_⟩, rfl⟩
    have functionMember : definition ∈ unit.functions := List.mem_filterMap.mpr ⟨_, member, rfl⟩
    rw [List.inj_on_of_nodup_map distinct otherMember functionMember named]
  | changed noMacro same =>
    rw [List.mem_singleton.mp among]
    exact ⟨fun isMacro => absurd isMacro noMacro, rfl⟩
  | prototype prototype keeps noPurge =>
    rw [List.mem_singleton.mp among]
    exact ⟨fun _ => ⟨keeps, noPurge⟩, rfl⟩
  | declaration noPrototype =>
    rw [List.mem_singleton.mp among]
    exact ⟨fun prototype => absurd prototype noPrototype, rfl⟩
  | typeDefinition | verbatim =>
    rw [List.mem_singleton.mp among]
    exact ⟨trivial, rfl⟩

/-- Behind a run the bodies of every item that stays are there, and with one function for a name no
others: the bodies of the definitions and prototypes that are taken out go with them. -/
theorem macroize_fileBodies {state after : RunState} {report : Report} {result : CompilationUnit}
    (runs : (unit.macroize configuration).run state = .ok (report, result) after) :
    (∀ item ∈ unit.items, item.StaysIn configuration unit report.macroized →
      ∀ body ∈ item.fileBodies, ∃ left ∈ result.items, body ∈ left.fileBodies) ∧
    ((unit.functions.map Function.name).Nodup → ∀ left ∈ result.items, ∀ body ∈ left.fileBodies,
      ∃ item ∈ unit.items, item.StaysIn configuration unit report.macroized ∧
        body ∈ item.fileBodies) := by
  obtain ⟨rfl, ⟨none, rfl⟩ | ⟨texts, processed, rfl, rewrites⟩⟩ := report_and_result runs
  · rw [none, items_normalized]
    refine ⟨fun item member _ body among => ?_, fun _ left member body among => ?_⟩
    · rw [← fileBodies_normalizedItem] at among
      exact ⟨_, List.mem_map_of_mem member, among⟩
    · obtain ⟨item, itemMember, rfl⟩ := List.mem_map.mp member
      rw [fileBodies_normalizedItem] at among
      refine ⟨item, itemMember, ?_, among⟩
      cases item with
      | function definition => exact fun isMacro => absurd isMacro List.not_mem_nil
      | declaration declared => exact fun prototype => absurd prototype.named List.not_mem_nil
      | typeDefinition | verbatim => trivial
  · refine ⟨fun item member stays body among => ?_, fun distinct left member body among => ?_⟩
    · obtain ⟨left, leftMember, same⟩ := exists_left_of_staysIn rewrites member stays
      exact ⟨left, leftMember, same ▸ among⟩
    · obtain ⟨heads, remainders, items, headsHold, leaves⟩ := exists_remainders distinct rewrites
      rw [items, List.mem_append] at member
      rcases member with isHead | isLeft
      · obtain ⟨function, -, text, -, rfl⟩ := exists_of_mem_forall₂ headsHold.flip isHead
        cases among
      · obtain ⟨remainder, remainderMember, inside⟩ := List.mem_flatten.mp isLeft
        obtain ⟨item, itemMember, itemLeaves⟩ := exists_of_mem_forall₂ leaves.flip remainderMember
        obtain ⟨stays, same⟩ := staysIn_of_leaves distinct itemMember itemLeaves inside
        exact ⟨item, itemMember, stays, same ▸ among⟩

theorem macroize_fileBodies_of_declaration :
    ∃ unit, CompilationUnit.parse
        "struct S \x7b int x; \x7d; inline struct S f(int n) \x7b
          struct S s; s.x = n; return s; \x7d" = .ok unit ∧
      ∃ report result after, (unit.macroize {}).run ⟨{}, []⟩ = .ok (report, result) after ∧
        (∀ item ∈ unit.items, item.StaysIn {} unit report.macroized →
          ∀ body ∈ item.fileBodies, ∃ left ∈ result.items, body ∈ left.fileBodies) ∧
        ((unit.functions.map Function.name).Nodup → ∀ left ∈ result.items,
          ∀ body ∈ left.fileBodies, ∃ item ∈ unit.items,
            item.StaysIn {} unit report.macroized ∧ body ∈ item.fileBodies) := by
  refine exists_parsed _ (fun unit => !unit.failsAtFirst) (by decide +kernel) ?_
  intro unit parses succeeds
  obtain ⟨report, result, after, runs⟩ := exists_run_of_not_fails succeeds
  exact ⟨report, result, after, runs, macroize_fileBodies runs⟩

def spellsNoBody (unit : CompilationUnit) : Bool :=
  unit.nodes.all fun node => node.body?.isNone

/-- A record that is given its body in the head of a macro's definition has none any more. -/
theorem macroize_loses_body :
    ∃ unit, CompilationUnit.parse
        "inline struct S \x7b int x; \x7d f(int n) \x7b struct S s; s.x = n; return s; \x7d
          int main(void) \x7b struct S t; t = f(1); return t.x; \x7d" = .ok unit ∧
      (∃ item ∈ unit.items, item.fileBodies ≠ []) ∧
      ∃ report result after, (unit.macroize {}).run ⟨{}, []⟩ = .ok (report, result) after ∧
        result.spellsNoBody := by
  refine exists_parsed _ (fun unit => (unit.items.any fun item => !item.fileBodies.isEmpty) &&
      unit.runGives {} fun given => given.2.spellsNoBody) (by decide +kernel) ?_
  intro unit parses checked
  obtain ⟨spells, gives⟩ := Bool.and_eq_true _ _ ▸ checked
  obtain ⟨item, member, some⟩ := List.any_eq_true.mp spells
  exact ⟨⟨item, member, by simpa using some⟩, exists_run_of_runGives gives⟩

end CompilationUnit

end InlineMacro
