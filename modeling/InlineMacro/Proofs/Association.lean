import InlineMacro.Association
import Mathlib.Data.List.Induction

/-!
# Looking up in associations

What is found for a name behind each operation. Of pairs for one name the last one counts. Of the members
of a list that come again only the first is kept where repetitions are left out.
-/

set_option autoImplicit false

namespace InlineMacro

/-! ## Repetitions -/

section Repetitions

variable {α : Type} [BEq α] [LawfulBEq α]

theorem eraseDups_concat (members : List α) (last : α) : (members ++ [last]).eraseDups =
      members.eraseDups ++ if members.contains last then [] else [last] := by
  rw [List.eraseDups_append, List.removeAll, List.filter_cons]
  cases again : members.contains last <;> simp_all [List.eraseDups_cons]

theorem eraseDups_sublist (members : List α) : members.eraseDups.Sublist members := by
  induction members using List.reverseRecOn with
  | nil => exact List.nil_sublist _
  | append_singleton members last ih =>
    rw [eraseDups_concat]
    split
    · exact ih.append (List.nil_sublist _)
    · exact ih.append (List.Sublist.refl _)

theorem nodup_eraseDups (members : List α) : members.eraseDups.Nodup := by
  induction members using List.reverseRecOn with
  | nil => exact List.nodup_nil
  | append_singleton members last ih =>
    rw [eraseDups_concat]
    split
    · rwa [List.append_nil]
    · next first =>
      rw [List.nodup_append]
      refine ⟨ih, by simp, ?_⟩
      rintro member earlier other isLast rfl
      rw [List.mem_singleton.mp isLast] at earlier
      exact first (List.contains_iff_mem.mpr (List.mem_eraseDups.mp earlier))

end Repetitions

end InlineMacro

namespace InlineMacro.Association

variable {α : Type} (association : Association α)

@[simp] theorem find?_nil (name : String) : find? ([] : Association α) name = none := rfl

theorem find?_cons (entry : String × α) (name : String) : find? (entry :: association) name =
      if name = entry.1 then some entry.2 else association.find? name := by
  rw [find?, List.lookup_cons]
  by_cases same : name = entry.1
  · simp [same]
  · have other : (name == entry.1) = false := by simpa using same
    simp [same, other, find?]

theorem find?_erase (name other : String) : (association.erase name).find? other =
      if other = name then none else association.find? other := by
  induction association with
  | nil => simp [erase]
  | cons entry rest ih =>
    unfold erase at ih ⊢
    rw [List.filter_cons, find?_cons]
    by_cases here : entry.1 = name
    · simp only [here, bne_self_eq_false, Bool.false_eq_true, if_false, ih]
      split <;> rfl
    · rw [if_pos (by simpa using here), find?_cons, ih]
      by_cases same : other = entry.1
      · simp [same, here]
      · simp [same]

theorem find?_insert (name other : String) (value : α) : (association.insert name value).find? other =
      if other = name then some value else association.find? other := by
  rw [insert, find?_cons, find?_erase]
  split <;> rfl

private theorem find?_foldl_insert (pairs : List (String × α)) (name : String) :
    (pairs.foldl (fun association entry => association.insert entry.1 entry.2) association).find? name =
      ((pairs.reverse.find? fun entry => entry.1 == name).map Prod.snd).or (association.find? name) := by
  induction pairs generalizing association with
  | nil => rfl
  | cons entry rest ih =>
    rw [List.foldl_cons, ih, find?_insert, List.reverse_cons, List.find?_append]
    cases rest.reverse.find? fun entry => entry.1 == name with
    | some later => rfl
    | none =>
      by_cases same : name = entry.1
      · simp [same]
      · have other : (entry.1 == name) = false := by simpa using Ne.symm same
        simp [same, other]

theorem find?_ofPairs (pairs : List (String × α)) (name : String) : (ofPairs pairs).find? name =
      (pairs.reverse.find? fun entry => entry.1 == name).map Prod.snd := by
  rw [ofPairs, find?_foldl_insert]
  exact Option.or_none

theorem mem_of_find?_ofPairs {pairs : List (String × α)} {name : String} {value : α}
    (found : (ofPairs pairs).find? name = some value) : (name, value) ∈ pairs := by
  rw [find?_ofPairs, Option.map_eq_some_iff] at found
  obtain ⟨entry, isLast, rfl⟩ := found
  have same := List.find?_some isLast
  simp only [beq_iff_eq] at same
  subst same
  exact List.mem_reverse.mp (List.mem_of_find?_eq_some isLast)

theorem contains_ofPairs (pairs : List (String × α)) (name : String) :
    (ofPairs pairs).contains name ↔ name ∈ pairs.map Prod.fst := by
  rw [contains, find?_ofPairs]
  simp

theorem mem_of_find? {name : String} {value : α} (found : association.find? name = some value) :
    (name, value) ∈ association := by
  induction association with
  | nil => cases found
  | cons entry rest ih =>
    rw [find?_cons] at found
    split at found
    · next same =>
      cases found
      rw [same]
      exact List.mem_cons_self
    · exact List.mem_cons_of_mem _ (ih found)

theorem mem_of_mem_insert {name : String} {value : α} {entry : String × α}
    (member : entry ∈ association.insert name value) : entry = (name, value) ∨ entry ∈ association :=
  (List.mem_cons.mp member).imp_right fun kept => (List.mem_filter.mp kept).1

theorem mem_of_mem_ofPairs {pairs : List (String × α)} {entry : String × α}
    (member : entry ∈ ofPairs pairs) : entry ∈ pairs := by
  have among : ∀ association : Association α,
      entry ∈ pairs.foldl (fun association pair => association.insert pair.1 pair.2) association →
        entry ∈ association ∨ entry ∈ pairs := by
    clear member
    induction pairs with
    | nil => exact fun association member => .inl member
    | cons first rest ih =>
      intro association member
      rcases ih _ member with member | member
      · rcases mem_of_mem_insert _ member with rfl | member
        · exact .inr List.mem_cons_self
        · exact .inl member
      · exact .inr (List.mem_cons_of_mem _ member)
  exact (among [] member).resolve_left List.not_mem_nil

end InlineMacro.Association
