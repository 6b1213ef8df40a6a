import InlineMacro.Proofs.Registry
import Mathlib.Data.List.Dedup

/-!
# The search for a fresh name

The registry tries the numbers of a counter one after another until a candidate is not in use. The
candidates are pairwise different, so each of them that is passed over is one more of the names in use,
and the search ends. Whatever is asked of the registry afterwards, a name that it gave out stays in
use, so it is never given out again.
-/

set_option autoImplicit false

namespace InlineMacro.Registry

/-! ## One attempt after another -/

def counterBound : Nat := UInt32.size

/-- A kind of candidates, and the counter of the registry that numbers them. -/
structure Supply where
  candidate : Nat → String
  next : Registry → Nat
  withNext : Nat → Registry → Registry

def Supply.names (stem : String) : Supply where
  candidate := numbered stem
  next := nextName
  withNext number registry := { registry with nextName := number }

def Supply.labels : Supply where
  candidate := labelled
  next := nextLabel
  withNext number registry := { registry with nextLabel := number }

/-- What an attempt comes to: a name is given out, the next number has to be tried, or there is no
next number. -/
inductive Attempt where
  | given (name : String) (after : Registry)
  | again (after : Registry)
  | overflow

namespace Supply

def attempt (supply : Supply) (registry : Registry) : Attempt :=
  let number := supply.next registry
  let counted := supply.withNext (number + 1) registry
  if counterBound ≤ number + 1 then .overflow
  else if counted.isUsed (supply.candidate number) then .again counted
  else .given (supply.candidate number) (counted.reserve (supply.candidate number))

/-- Trying until a name is given out ends behind as many attempts, none of which exceeds the counter. -/
inductive Ends (supply : Supply) : Registry → Nat → String × Registry → Prop where
  | given {before after : Registry} {name : String}
      (attempted : supply.attempt before = .given name after) : Ends supply before 1 (name, after)
  | again {before after : Registry} {attempts : Nat} {result : String × Registry}
      (attempted : supply.attempt before = .again after) (ends : Ends supply after attempts result) :
      Ends supply before (attempts + 1) result

/-- Candidates are pairwise different, and the counter is a part of the registry on its own. -/
structure IsLawful (supply : Supply) : Prop where
  different : ∀ first second, supply.candidate first = supply.candidate second → first = second
  next_withNext : ∀ number registry, supply.next (supply.withNext number registry) = number
  used_withNext : ∀ number registry, (supply.withNext number registry).used = registry.used
  withNext_withNext : ∀ number other registry,
    supply.withNext number (supply.withNext other registry) = supply.withNext number registry

theorem names_isLawful (stem : String) : (names stem).IsLawful :=
  ⟨numbered_injective stem, fun _ _ => rfl, fun _ _ => rfl, fun _ _ _ => rfl⟩

theorem labels_isLawful : labels.IsLawful :=
  ⟨labelled_injective, fun _ _ => rfl, fun _ _ => rfl, fun _ _ _ => rfl⟩

def result (supply : Supply) (registry : Registry) (number : Nat) : String × Registry :=
  (supply.candidate number,
    (supply.withNext (number + 1) registry).reserve (supply.candidate number))

variable {supply : Supply}

theorem result_withNext (lawful : supply.IsLawful) (registry : Registry) (number other : Nat) :
    supply.result (supply.withNext other registry) number = supply.result registry number := by
  rw [result, result, lawful.withNext_withNext]

theorem ends_of_passed (lawful : supply.IsLawful) (passed : Nat) {registry : Registry}
    (used : ∀ offset < passed, supply.candidate (supply.next registry + offset) ∈ registry.used)
    (free : supply.candidate (supply.next registry + passed) ∉ registry.used)
    (fits : supply.next registry + passed + 1 < counterBound) : supply.Ends registry (passed + 1)
      (supply.result registry (supply.next registry + passed)) := by
  induction passed generalizing registry with
  | zero =>
    refine .given ?_
    have notFull : ¬ counterBound ≤ supply.next registry + 1 := Nat.not_le.mpr fits
    have unused : (supply.withNext (supply.next registry + 1) registry).isUsed
        (supply.candidate (supply.next registry)) = false := by
      rw [isUsed, lawful.used_withNext]
      simpa using free
    simp only [attempt, if_neg notFull, unused, Bool.false_eq_true, if_false]
    rfl
  | succ passed ih =>
    let counted := supply.withNext (supply.next registry + 1) registry
    have notFull : ¬ counterBound ≤ supply.next registry + 1 := by omega
    have isUsed : counted.isUsed (supply.candidate (supply.next registry)) := by
      rw [Registry.isUsed, lawful.used_withNext]
      exact List.contains_iff_mem.mpr (used 0 (Nat.succ_pos passed))
    have number (offset : Nat) :
        supply.next counted + offset = supply.next registry + (offset + 1) := by
      rw [lawful.next_withNext]
      omega
    have ends : supply.Ends counted (passed + 1)
        (supply.result counted (supply.next counted + passed)) := by
      refine ih (fun offset less => ?_) ?_ ?_
      · rw [number, lawful.used_withNext]
        exact used (offset + 1) (Nat.succ_lt_succ less)
      · rw [number, lawful.used_withNext]
        exact free
      · rw [number]
        exact fits
    rw [number, result_withNext lawful] at ends
    refine .again ?_ ends
    simp only [attempt, if_neg notFull]
    exact if_pos isUsed

theorem passed_le (lawful : supply.IsLawful) {used : List String} {start passed : Nat}
    (each : ∀ offset < passed, supply.candidate (start + offset) ∈ used) : passed ≤ used.dedup.length := by
  have among : (List.range' start passed).map supply.candidate ⊆ used.dedup := by
    intro name member
    obtain ⟨number, within, rfl⟩ := List.mem_map.mp member
    obtain ⟨least, most⟩ := List.mem_range'_1.mp within
    have here := each (number - start) (by omega)
    rw [Nat.add_sub_cancel' least] at here
    exact List.mem_dedup.mpr here
  have numbers : (List.range' start passed).Nodup := List.nodup_range' 1
  have unique : ((List.range' start passed).map supply.candidate).Nodup :=
    numbers.map_on fun first _ second _ same => lawful.different first second same
  have fewer := (List.subperm_of_subset unique among).length_le
  rwa [List.length_map, List.length_range'] at fewer

theorem exists_firstFree_eq (lawful : supply.IsLawful) (used : List String) (start : Nat) :
    ∃ passed, firstFree supply.candidate used start = start + passed ∧
      ∀ offset < passed, supply.candidate (start + offset) ∈ used := by
  have free := candidate_firstFree_unused lawful.different used start
  unfold firstFree at free ⊢
  cases found : (List.range' start (used.length + 1)).find? fun number =>
      !used.contains (supply.candidate number) with
  | none => exact ⟨0, rfl, fun offset less => absurd less (Nat.not_lt_zero offset)⟩
  | some number =>
    obtain ⟨-, within, passed⟩ := List.find?_range'_eq_some.mp found
    obtain ⟨least, -⟩ := List.mem_range'_1.mp within
    refine ⟨number - start, (Nat.add_sub_cancel' least).symm, fun offset less => ?_⟩
    simpa using passed (start + offset) (Nat.le_add_right start offset) (by omega)

/-- If the counter leaves room for one number more than there are names in use, the search ends
behind that many attempts at most. -/
theorem exists_ends (lawful : supply.IsLawful) (registry : Registry)
    (room : supply.next registry + registry.used.dedup.length + 1 < counterBound) :
    ∃ attempts ≤ registry.used.dedup.length + 1, supply.Ends registry attempts
      (supply.result registry (firstFree supply.candidate registry.used (supply.next registry))) := by
  obtain ⟨passed, same, each⟩ := exists_firstFree_eq lawful registry.used (supply.next registry)
  have free := candidate_firstFree_unused lawful.different registry.used (supply.next registry)
  have few := passed_le lawful each
  rw [same] at free ⊢
  exact ⟨passed + 1, Nat.succ_le_succ few, ends_of_passed lawful passed each free (by omega)⟩

end Supply

theorem result_names (stem : String) (registry : Registry) : (Supply.names stem).result registry
        (firstFree (numbered stem) registry.used registry.nextName) = fresh stem registry := by
  have free := candidate_firstFree_unused (numbered_injective stem) registry.used registry.nextName
  simp [Supply.result, Supply.names, reserve, isUsed, fresh, free]

theorem result_labels (registry : Registry) : Supply.labels.result registry
        (firstFree labelled registry.used registry.nextLabel) = registry.freshLabel := by
  have free := candidate_firstFree_unused labelled_injective registry.used registry.nextLabel
  simp [Supply.result, Supply.labels, reserve, isUsed, freshLabel, free]

/-! ## One request after another -/

/-- What can be asked of a registry. -/
inductive Request where
  | reserve (name : String)
  | fresh (stem : String)
  | label

/-- A name that was taken into use, and whether the registry made it up. -/
structure Taken where
  name : String
  isNew : Bool

def Request.perform : Request → Registry → Taken × Registry
  | .reserve name, registry => (⟨name, false⟩, registry.reserve name)
  | .fresh stem, registry => (⟨(Registry.fresh stem registry).1, true⟩, (Registry.fresh stem registry).2)
  | .label, registry => (⟨registry.freshLabel.1, true⟩, registry.freshLabel.2)

def performAll : List Request → Registry → List Taken × Registry
  | [], registry => ([], registry)
  | request :: requests, registry =>
    let (taken, registry) := request.perform registry
    let (others, registry) := performAll requests registry
    (taken :: others, registry)

theorem Request.used_perform (request : Request) (registry : Registry) (name : String) :
    name ∈ (request.perform registry).2.used ↔
      name = (request.perform registry).1.name ∨ name ∈ registry.used := by
  cases request with
  | reserve wanted => exact mem_used_reserve registry wanted name
  | fresh stem => simpa [perform] using (fresh_issues stem registry).used name
  | label => simpa [perform] using (freshLabel_issues registry).used name

theorem Request.unused_of_isNew (request : Request) (registry : Registry)
    (isNew : (request.perform registry).1.isNew) : (request.perform registry).1.name ∉ registry.used := by
  cases request with
  | reserve wanted => cases isNew
  | fresh stem => exact (fresh_issues stem registry).fresh _ (List.mem_singleton_self _)
  | label => exact (freshLabel_issues registry).fresh _ (List.mem_singleton_self _)

theorem used_performAll (requests : List Request) (registry : Registry) (name : String) :
    name ∈ (performAll requests registry).2.used ↔
      name ∈ (performAll requests registry).1.map Taken.name ∨ name ∈ registry.used := by
  induction requests generalizing registry with
  | nil => simp [performAll]
  | cons request requests ih =>
    rw [performAll, ih, request.used_perform, List.map_cons, List.mem_cons]
    tauto

theorem unused_of_performAll (requests : List Request) (registry : Registry) {taken : Taken}
    (member : taken ∈ (performAll requests registry).1) (isNew : taken.isNew) :
    taken.name ∉ registry.used := by
  induction requests generalizing registry with
  | nil => cases member
  | cons request requests ih =>
    rcases List.mem_cons.mp member with rfl | member
    · exact request.unused_of_isNew registry isNew
    · exact fun old => ih _ member ((request.used_perform registry _).mpr (.inr old))

theorem pairwise_performAll (requests : List Request) (registry : Registry) :
    (performAll requests registry).1.Pairwise fun earlier later =>
      later.isNew → later.name ≠ earlier.name := by
  induction requests generalizing registry with
  | nil => exact List.Pairwise.nil
  | cons request requests ih =>
    refine List.pairwise_cons.mpr ⟨fun later member isNew same => ?_, ih _⟩
    refine unused_of_performAll requests _ member isNew ?_
    exact (request.used_perform registry _).mpr (.inl same)

/-- A fresh name and a fresh label are found behind at most one attempt more than there are names in use, if
the counter has room for that many. Among all that is asked of a registry, a name that it makes up
differs from all names in use and taken before, and whatever is asked later it stays in use. -/
theorem fresh_ends_and_never_repeats (registry : Registry) :
    (∀ stem, registry.nextName + registry.used.dedup.length + 1 < counterBound →
      ∃ attempts ≤ registry.used.dedup.length + 1,
        (Supply.names stem).Ends registry attempts (fresh stem registry)) ∧
    (registry.nextLabel + registry.used.dedup.length + 1 < counterBound →
      ∃ attempts ≤ registry.used.dedup.length + 1,
        Supply.labels.Ends registry attempts registry.freshLabel) ∧
    ∀ requests,
      ((performAll requests registry).1.Pairwise fun earlier later =>
        later.isNew → later.name ≠ earlier.name) ∧
      ∀ taken ∈ (performAll requests registry).1,
        (taken.isNew → taken.name ∉ registry.used) ∧
        ∀ more, (performAll more (performAll requests registry).2).2.isUsed taken.name := by
  refine ⟨fun stem room => ?_, fun room => ?_, fun requests => ?_⟩
  · rw [← result_names]
    exact Supply.exists_ends (Supply.names_isLawful stem) registry room
  · rw [← result_labels]
    exact Supply.exists_ends Supply.labels_isLawful registry room
  · refine ⟨pairwise_performAll requests registry, fun taken member => ⟨?_, fun more => ?_⟩⟩
    · exact unused_of_performAll requests registry member
    · have used : taken.name ∈ (performAll requests registry).2.used :=
        (used_performAll requests registry _).mpr (.inl (List.mem_map_of_mem member))
      exact List.contains_iff_mem.mpr ((used_performAll more _ _).mpr (.inr used))

def crowded : Registry := { used := ["x_0", "L0000", "x_1"] }

theorem crowded_fresh_ends_and_never_repeats :
    (∃ attempts ≤ 4, (Supply.names "x").Ends crowded attempts
      ("x_2", { crowded with used := "x_2" :: crowded.used, nextName := 3 })) ∧
    (∃ attempts ≤ 4, Supply.labels.Ends crowded attempts
      ("L0001", { crowded with used := "L0001" :: crowded.used, nextLabel := 2 })) ∧
    "x_2" ∉ crowded.used ∧ "x_2" ≠ "x_3" ∧
    ∀ more, (performAll more (performAll [.fresh "x", .reserve "y", .fresh "x"] crowded).2).2.isUsed
      "x_2" := by
  obtain ⟨names, labels, repeats⟩ := fresh_ends_and_never_repeats crowded
  have taken : (performAll [.fresh "x", .reserve "y", .fresh "x"] crowded).1 =
      [⟨"x_2", true⟩, ⟨"y", false⟩, ⟨"x_3", true⟩] := rfl
  obtain ⟨differ, stays⟩ := repeats [.fresh "x", .reserve "y", .fresh "x"]
  rw [taken] at differ stays
  obtain ⟨unused, used⟩ := stays ⟨"x_2", true⟩ List.mem_cons_self
  have other := (List.pairwise_cons.mp differ).1 ⟨"x_3", true⟩ (by simp) rfl
  exact ⟨names "x" (by decide), labels (by decide), unused rfl, other.symm, used⟩

end InlineMacro.Registry
