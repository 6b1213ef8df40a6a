import InlineMacro.Proofs.Pass.NormalForm

/-!
# What a block in order declares and executes

Putting the declarations of a block first declares each name once more, as it was declared before,
and leaves the order of execution alone. The first value of an object that can be parted from it
counts as the assignment that it becomes, whether it has become one or not.
-/

set_option autoImplicit false

namespace InlineMacro

namespace Declaration

def bare (declared : Declaration) : Declaration := { declared with initializer := none }

def firstAssignment (declared : Declaration) (value : Expr) : Statement :=
  .expression declared.span (.assignment (.identifier declared.span declared.name) value)

/-- What the declaration does where it stands. An object that can be parted from its first value
takes that value, if it has one; any other declaration counts as a whole. -/
def executed (declared : Declaration) : List Statement :=
  if declared.isSplittable then
    match declared.initializer with
    | none => []
    | some (.expression _ value) => [declared.firstAssignment value]
    | some _ => [.ofDeclaration declared]
  else [.ofDeclaration declared]

theorem executed_bare {declared : Declaration} (splittable : declared.isSplittable) :
    declared.bare.executed = [] :=
  if_pos (show declared.bare.isSplittable = true from splittable)

end Declaration

namespace Statement

def executed : Statement → List Statement
  | .declaration _ declarations => declarations.flatMap Declaration.executed
  | statement => [statement]

def objects (statement : Statement) : List Declaration :=
  statement.declared.map Declaration.bare

/-- A block put into another order: it declares the same names in the same way, it does the same
things one after another, and what is parted from its first value stands in front of the
assignment of it. -/
structure Reordered (before after : List Statement) : Prop where
  sameObjects : (after.flatMap objects).Perm (before.flatMap objects)
  sameOrder : after.flatMap executed = before.flatMap executed
  parted : ∀ object ∈ before.flatMap declared, ∀ span value,
    object.initializer = some (.expression span value) →
      object ∈ after.flatMap declared ∨
        [ofDeclaration object.bare, object.firstAssignment value].Sublist after

/-- What becomes of a statement declares nothing, unless the statement is a declaration, which
stays as it is. -/
def KeepsDeclarations (become : Statement → Statement) : Prop :=
  ∀ statement, if statement.isDeclaration then become statement = statement
    else (become statement).isDeclaration = false

theorem keepsDeclarations_splitDeclarations : KeepsDeclarations splitDeclarations := by
  intro statement
  induction statement <;> rfl

namespace Reordered

variable {before after : List Statement}

theorem nothing : Reordered [] [] := ⟨.refl _, rfl, fun _ member => absurd member List.not_mem_nil⟩

theorem parted_mono (reordered : Reordered before after) {longer : List Statement}
    (sublist : after.Sublist longer) {object : Declaration}
    (member : object ∈ before.flatMap declared) {span : Span} {value : Expr}
    (initialized : object.initializer = some (.expression span value)) : object ∈ longer.flatMap declared ∨
      [ofDeclaration object.bare, object.firstAssignment value].Sublist longer := by
  refine (reordered.parted object member span value initialized).imp (fun stays => ?_)
    fun parted => parted.trans sublist
  obtain ⟨statement, found, inside⟩ := List.mem_flatMap.mp stays
  exact List.mem_flatMap.mpr ⟨statement, sublist.subset found, inside⟩

theorem concat (reordered : Reordered before after) {entry becomes : Statement}
    (sameDeclared : becomes.declared = entry.declared)
    (sameExecuted : becomes.executed = entry.executed) :
    Reordered (before ++ [entry]) (after ++ [becomes]) where
  sameObjects := by
    have same : becomes.objects = entry.objects := congrArg (List.map Declaration.bare) sameDeclared
    simpa [same] using reordered.sameObjects.append_right entry.objects
  sameOrder := by simp [reordered.sameOrder, sameExecuted]
  parted := by
    intro object member span value initialized
    rw [List.flatMap_append, List.mem_append] at member
    rcases member with member | member
    · exact reordered.parted_mono (List.sublist_append_left _ _) member initialized
    · rw [List.flatMap_singleton, ← sameDeclared] at member
      exact .inl (List.mem_flatMap.mpr ⟨becomes, by simp, member⟩)

/-- An object moves up to the end of the front, and the assignment of its first value stands at the
end of the back. -/
theorem part {front back assignments : List Statement} (reordered : Reordered before (front ++ back))
    {object : Declaration} (splittable : object.isSplittable)
    (assigned : assignments.flatMap executed = object.executed)
    (declaresNone : assignments.flatMap objects = [])
    (first : ∀ span value, object.initializer = some (.expression span value) →
      object.firstAssignment value ∈ assignments) :
    Reordered (before ++ [ofDeclaration object])
      (front ++ [ofDeclaration object.bare] ++ (back ++ assignments)) where
  sameObjects := by
    have one : (ofDeclaration object.bare).objects = (ofDeclaration object).objects := rfl
    have same := reordered.sameObjects.append_right (ofDeclaration object).objects
    simp only [List.flatMap_append, List.flatMap_singleton, declaresNone, List.append_nil, one,
      List.append_assoc] at same ⊢
    exact (List.Perm.append_left _ List.perm_append_comm).trans same
  sameOrder := by
    have bare : (ofDeclaration object.bare).executed = [] := by
      simp [ofDeclaration, executed, Declaration.executed_bare splittable]
    have whole : (ofDeclaration object).executed = object.executed := by
      simp [ofDeclaration, executed]
    have same := reordered.sameOrder
    simp only [List.flatMap_append, List.flatMap_singleton, bare, whole, assigned,
      List.append_nil] at same ⊢
    rw [← same, List.append_assoc]
  parted := by
    intro other member span value initialized
    rw [List.flatMap_append, List.mem_append] at member
    rcases member with member | member
    · have longer : (front ++ back).Sublist
          (front ++ [ofDeclaration object.bare] ++ (back ++ assignments)) :=
        (List.sublist_append_left _ _).append (List.sublist_append_left _ _)
      exact reordered.parted_mono longer member initialized
    · obtain rfl : other = object := by simpa [declared, ofDeclaration] using member
      have declares : [ofDeclaration other.bare].Sublist (front ++ [ofDeclaration other.bare]) :=
        List.sublist_append_right _ _
      refine .inr (declares.append (List.singleton_sublist.mpr ?_))
      exact List.mem_append_right _ (first span value initialized)

theorem ofDeclarations {span : Span} {declarations : List Declaration}
    (reordered : Reordered (before ++ declarations.map ofDeclaration) after) :
    Reordered (before ++ [.declaration span declarations]) after := by
  have sameObjects : (declarations.map ofDeclaration).flatMap objects =
      [declaration span declarations].flatMap objects := by
    simp [List.flatMap_map, objects, declared, ofDeclaration, ← List.map_eq_flatMap]
  have sameOrder : (declarations.map ofDeclaration).flatMap executed =
      [declaration span declarations].flatMap executed := by
    simp [List.flatMap_map, executed, ofDeclaration]
  have sameDeclared : (declarations.map ofDeclaration).flatMap declared =
      [declaration span declarations].flatMap declared := by
    simp [List.flatMap_map, declared, ofDeclaration]
  obtain ⟨objects, order, parted⟩ := reordered
  rw [List.flatMap_append] at objects order parted
  refine ⟨?_, ?_, ?_⟩
  · rwa [List.flatMap_append, ← sameObjects]
  · rwa [List.flatMap_append, ← sameOrder]
  · rwa [List.flatMap_append, ← sameDeclared]

end Reordered

end Statement

/-! ## A block while it is put into order -/

namespace BlockParts

variable {parts : BlockParts} {before : List Statement}

/-- The parts of a block hold what the statements so far declare and do. -/
structure Holds (parts : BlockParts) (before : List Statement) : Prop where
  reordered : Statement.Reordered before parts.statements
  leads : parts.inLeading → parts.hoisted = [] ∧ parts.rest = []

namespace Holds

theorem nothing : Holds {} [] := ⟨.nothing, fun _ => ⟨rfl, rfl⟩⟩

theorem lead (holds : parts.Holds before) (inLeading : parts.inLeading) (entry : Statement) :
    Holds { parts with leading := parts.leading ++ [entry] } (before ++ [entry]) where
  reordered := by
    obtain ⟨noHoisted, noRest⟩ := holds.leads inLeading
    have reordered : Statement.Reordered (before ++ [entry]) (parts.statements ++ [entry]) :=
      holds.reordered.concat rfl rfl
    simpa [BlockParts.statements, noHoisted, noRest] using reordered
  leads := holds.leads

theorem behind (holds : parts.Holds before) {entry becomes original : Statement}
    {result : BlockParts} (leading : result.leading = parts.leading)
    (hoisted : result.hoisted = parts.hoisted)
    (rest : result.rest = parts.rest ++ [(original, becomes)]) (started : result.inLeading = false)
    (declared : becomes.declared = entry.declared) (executed : becomes.executed = entry.executed) :
    result.Holds (before ++ [entry]) where
  reordered := by
    have reordered := holds.reordered.concat declared executed
    simpa [BlockParts.statements, leading, hoisted, rest] using reordered
  leads inLeading := by simp [started] at inLeading

theorem addDeclaration (holds : parts.Holds before) (started : parts.inLeading = false)
    (object : Declaration) : (parts.addDeclaration object).Holds (before ++ [.ofDeclaration object]) := by
  unfold BlockParts.addDeclaration
  split
  · next moves =>
    have splittable : object.isSplittable := by
      simp only [canMove, Bool.and_eq_true] at moves
      exact moves.1.2
    split
    · next bare =>
      have whole : object.bare = object := by rw [Declaration.bare, ← bare]
      have nothing : object.executed = [] := whole ▸ Declaration.executed_bare splittable
      have none : [].flatMap Statement.executed = object.executed := nothing.symm
      have parted := holds.reordered.part splittable none rfl (by simp [bare])
      refine ⟨?_, fun inLeading => by simp [hoist, started] at inLeading⟩
      simpa [BlockParts.statements, hoist, whole] using parted
    · next span value initialized =>
      have first : object.executed = [object.firstAssignment value] := by
        simp [Declaration.executed, splittable, initialized]
      have one : [object.firstAssignment value].flatMap Statement.executed = object.executed :=
        first.symm
      have parted := holds.reordered.part splittable one rfl (by simp [initialized])
      refine ⟨?_, fun inLeading => by simp [hoist, keep, started] at inLeading⟩
      simpa [BlockParts.statements, hoist, keep, Declaration.bare, Declaration.firstAssignment] using parted
    · exact holds.behind rfl rfl rfl started rfl rfl
  · exact holds.behind rfl rfl rfl started rfl rfl

theorem addAll (holds : parts.Holds before) (started : parts.inLeading = false)
    (declarations : List Declaration) : (declarations.foldl BlockParts.addDeclaration parts).Holds
      (before ++ declarations.map Statement.ofDeclaration) := by
  induction declarations generalizing parts before with
  | nil => simpa using holds
  | cons first rest ih =>
    have still : (parts.addDeclaration first).inLeading = false := by
      unfold BlockParts.addDeclaration
      split
      · split <;> exact started
      · exact started
    simpa using ih (holds.addDeclaration started first) still

theorem add (holds : parts.Holds before) {become : Statement → Statement}
    (keeps : Statement.KeepsDeclarations become) (entry : Statement) :
    (parts.add entry (become entry)).Holds (before ++ [become entry]) := by
  have kept := keeps entry
  unfold BlockParts.add
  split
  · next span declarations =>
    have same : become (.declaration span declarations) = .declaration span declarations := kept
    rw [same]
    split
    · next leads =>
      rw [Bool.and_eq_true] at leads
      exact holds.lead leads.1 _
    · have started : Holds { parts with inLeading := false } before :=
        ⟨holds.reordered, fun inLeading => by cases inLeading⟩
      have all := started.addAll rfl declarations
      exact ⟨all.reordered.ofDeclarations, all.leads⟩
  · next other =>
    split
    · next leads =>
      rw [Bool.and_eq_true] at leads
      rw [if_pos leads.2] at kept
      exact kept.symm ▸ holds.lead leads.1 entry
    · exact holds.behind rfl rfl rfl rfl rfl rfl

end Holds

end BlockParts

namespace Statement

theorem reordered_splitBlock {become : Statement → Statement} (keeps : KeepsDeclarations become)
    (entries : List Statement) :
    Reordered (entries.map become) (splitBlock entries (entries.map become)) := by
  have each : ∀ (rest before : List Statement) (parts : BlockParts), parts.Holds before →
      ((rest.zip (rest.map become)).foldl (fun parts entry => parts.add entry.1 entry.2)
        parts).Holds (before ++ rest.map become) := by
    intro rest
    induction rest with
    | nil => exact fun before parts holds => by simpa using holds
    | cons entry rest ih =>
      intro before parts holds
      simpa using ih (before ++ [become entry]) _ (holds.add keeps entry)
  exact (each entries [] {} .nothing).reordered

theorem keepsDeclarations_id : KeepsDeclarations id := by
  intro statement
  cases statement <;> rfl

/-- Putting the declarations of a block first loses, repeats and reorders nothing that it declares or
does, be it with the blocks inside as they were or put into order too. -/
theorem splitBlock_reorders (entries : List Statement) :
    Reordered entries (splitBlock entries entries) ∧
      Reordered (entries.map splitDeclarations)
        (splitBlock entries (splitDeclarationsList entries)) := by
  constructor
  · simpa using reordered_splitBlock keepsDeclarations_id entries
  · rw [splitDeclarationsList_eq_map]
    exact reordered_splitBlock keepsDeclarations_splitDeclarations entries

end Statement

end InlineMacro
