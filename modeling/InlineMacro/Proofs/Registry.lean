import InlineMacro.Pass.Invocation
import InlineMacro.Proofs.Token.Linemarkers
import Mathlib.Data.List.Perm.Subperm

/-!
# Names from the registry

What the registry gives out was not in use before and is in use from then on, so names that are
given out one after another are pairwise different.

A name that joins two tokens is spelled with blanks around the sign that joins them; any other name
is one piece. The names that the registry makes of a whole stem are whole again.
-/

set_option autoImplicit false

namespace InlineMacro.Registry

/-- A registry comes from another one by giving out some names. -/
structure Issues (before after : Registry) (names : List String) : Prop where
  used : ∀ name, name ∈ after.used ↔ name ∈ names ∨ name ∈ before.used
  fresh : ∀ name ∈ names, name ∉ before.used
  unique : names.Nodup

namespace Issues

variable {first second third : Registry} {names others : List String}

theorem nothing (registry : Registry) : Issues registry registry [] :=
  ⟨by simp, by simp, List.nodup_nil⟩

theorem trans (former : Issues first second names) (latter : Issues second third others) :
    Issues first third (names ++ others) where
  used name := by
    rw [latter.used, former.used, List.mem_append]
    tauto
  fresh name member := by
    rcases List.mem_append.mp member with member | member
    · exact former.fresh name member
    · intro old
      exact latter.fresh name member ((former.used name).mpr (.inr old))
  unique := by
    refine List.nodup_append.mpr ⟨former.unique, latter.unique, ?_⟩
    rintro name earlier _ later rfl
    exact latter.fresh name later ((former.used name).mpr (.inl earlier))

theorem mem_used (issues : Issues first second names) {name : String} (old : name ∈ first.used) :
    name ∈ second.used :=
  (issues.used name).mpr (.inr old)

end Issues

/-- A registry comes from another one by giving out some names of one stem. -/
structure Numbers (stem : String) (before after : Registry) (names : List String) : Prop extends
    Issues before after names where
  numbered : ∀ name ∈ names, ∃ number, name = Registry.numbered stem number

namespace Numbers

variable {stem : String} {first second third : Registry} {names others : List String}

theorem nothing (registry : Registry) : Numbers stem registry registry [] :=
  ⟨.nothing registry, by simp⟩

theorem trans (former : Numbers stem first second names) (latter : Numbers stem second third others) :
    Numbers stem first third (names ++ others) where
  toIssues := former.toIssues.trans latter.toIssues
  numbered name member :=
    (List.mem_append.mp member).elim (former.numbered name) (latter.numbered name)

end Numbers

/-! ## Candidates -/

theorem candidate_firstFree_unused {candidate : Nat → String}
    (different : ∀ first second, candidate first = candidate second → first = second)
    (used : List String) (start : Nat) : candidate (firstFree candidate used start) ∉ used := by
  unfold firstFree
  cases found : (List.range' start (used.length + 1)).find? fun number =>
      !used.contains (candidate number) with
  | some number => simpa using List.find?_some found
  | none =>
    have allUsed : (List.range' start (used.length + 1)).map candidate ⊆ used := by
      intro name member
      obtain ⟨number, among, rfl⟩ := List.mem_map.mp member
      simpa using List.find?_eq_none.mp found number among
    have numbers : (List.range' start (used.length + 1)).Nodup := List.nodup_range' 1
    have unique : ((List.range' start (used.length + 1)).map candidate).Nodup :=
      List.Pairwise.map candidate (fun first second other same => other (different first second same)) numbers
    have tooMany := (List.subperm_of_subset unique allUsed).length_le
    rw [List.length_map, List.length_range'] at tooMany
    omega

theorem numbered_injective (stem : String) (first second : Nat)
    (same : numbered stem first = numbered stem second) : first = second := by
  have digits : Nat.toDigits 10 first = Nat.toDigits 10 second := by
    simpa [numbered] using congrArg String.toList same
  simpa using congrArg (fun characters => Nat.ofDigitChars 10 characters 0) digits

private theorem ofDigitChars_zeros (count : Nat) (characters : List Char) :
    Nat.ofDigitChars 10 (List.replicate count '0' ++ characters) 0 = Nat.ofDigitChars 10 characters 0 := by
  induction count with
  | zero => rfl
  | succ count ih => exact ih

theorem labelled_injective (first second : Nat) (same : labelled first = labelled second) :
    first = second := by
  have digits : List.replicate (4 - (toString first).length) '0' ++ Nat.toDigits 10 first =
      List.replicate (4 - (toString second).length) '0' ++ Nat.toDigits 10 second := by
    simpa [labelled, fourDigits] using congrArg String.toList same
  have numbers := congrArg (fun characters => Nat.ofDigitChars 10 characters 0) digits
  simpa [ofDigitChars_zeros] using numbers

/-! ## Numbers in front of a text -/

def EndsNumber (text : String) : Prop :=
  ∃ first rest, text.toList = first :: rest ∧ first.isDigit = false

theorem takeWhile_isDigit_append (number : Nat) {text : String} (ends : EndsNumber text) :
    (Nat.toDigits 10 number ++ text.toList).takeWhile Char.isDigit = Nat.toDigits 10 number := by
  obtain ⟨first, rest, starts, notDigit⟩ := ends
  rw [starts, List.takeWhile_append_of_pos fun character member =>
    Nat.isDigit_of_mem_toDigits (by decide) (by decide) member,
    List.takeWhile_cons_of_neg (by simp [notDigit]), List.append_nil]

theorem digits_append_injective {first second : Nat} {text other : String} (ends : EndsNumber text)
    (otherEnds : EndsNumber other)
    (same : Nat.toDigits 10 first ++ text.toList = Nat.toDigits 10 second ++ other.toList) :
    first = second ∧ text = other := by
  have digits : Nat.toDigits 10 first = Nat.toDigits 10 second := by
    rw [← takeWhile_isDigit_append first ends, same, takeWhile_isDigit_append second otherEnds]
  rw [digits] at same
  exact ⟨by simpa using congrArg (fun characters => Nat.ofDigitChars 10 characters 0) digits,
    String.toList_inj.mp (List.append_cancel_left same)⟩

/-! ## Giving out names -/

theorem fresh_issues (stem : String) (registry : Registry) :
    Issues registry (fresh stem registry).2 [(fresh stem registry).1] where
  used name := by simp [fresh]
  fresh name member := by
    rw [List.mem_singleton.mp member]
    exact candidate_firstFree_unused (numbered_injective stem) registry.used registry.nextName
  unique := by simp

theorem fresh_numbers (stem : String) (registry : Registry) :
    Numbers stem registry (fresh stem registry).2 [(fresh stem registry).1] :=
  ⟨fresh_issues stem registry, fun _ member => ⟨_, List.mem_singleton.mp member⟩⟩

theorem freshLabel_issues (registry : Registry) :
    Issues registry registry.freshLabel.2 [registry.freshLabel.1] where
  used name := by simp [freshLabel]
  fresh name member := by
    rw [List.mem_singleton.mp member]
    exact candidate_firstFree_unused labelled_injective registry.used registry.nextLabel
  unique := by simp

theorem claim_issues (wanted : String) (registry : Registry) :
    Issues registry (claim wanted registry).2 [(claim wanted registry).1] := by
  unfold claim
  split
  · exact fresh_issues wanted registry
  · next unused =>
    have notUsed : wanted ∉ registry.used := by simpa [isUsed] using unused
    refine ⟨?_, ?_, by simp⟩
    · simp [reserve, unused]
    · simpa using notUsed

theorem macroNamesFrom_issues (functions : List String) (registry : Registry) :
    Issues registry (macroNamesFrom functions registry).2
      ((macroNamesFrom functions registry).1.map Prod.snd) := by
  induction functions generalizing registry with
  | nil => exact .nothing registry
  | cons function functions ih => exact (claim_issues _ registry).trans (ih _)

theorem macroNamesFrom_keys (functions : List String) (registry : Registry) :
    (macroNamesFrom functions registry).1.map Prod.fst = functions := by
  induction functions generalizing registry with
  | nil => rfl
  | cons function functions ih => exact congrArg (function :: ·) (ih _)

/-! ## Names taken into use -/

theorem mem_used_reserve (registry : Registry) (wanted name : String) :
    name ∈ (registry.reserve wanted).used ↔ name = wanted ∨ name ∈ registry.used := by
  unfold reserve
  split
  · next isUsed =>
    have member : wanted ∈ registry.used := by simpa [Registry.isUsed] using isUsed
    constructor
    · exact .inr
    · rintro (rfl | old)
      · exact member
      · exact old
  · exact List.mem_cons

theorem mem_used_reserveAll (registry : Registry) (names : List String) (name : String) :
    name ∈ (registry.reserveAll names).used ↔ name ∈ names ∨ name ∈ registry.used := by
  unfold reserveAll
  induction names generalizing registry with
  | nil => simp
  | cons first rest ih =>
    rw [List.foldl_cons, ih, mem_used_reserve, List.mem_cons]
    tauto

end InlineMacro.Registry

/-! ## Pieces of a spelling -/

namespace InlineMacro

namespace Text

def separatesPieces (character : Char) : Bool := character == ' '

def pieces (spelling : String) : List String :=
  (splitBy separatesPieces spelling.toList).map String.ofList

def IsWhole (spelling : String) : Prop :=
  ∀ character ∈ spelling.toList, separatesPieces character = false

theorem IsWhole.append {first second : String} (whole : IsWhole first) (others : IsWhole second) :
    IsWhole (first ++ second) := by
  intro character member
  rw [String.toList_append] at member
  exact (List.mem_append.mp member).elim (whole character) (others character)

theorem pieces_of_isWhole {spelling : String} (whole : IsWhole spelling) : pieces spelling = [spelling] := by
  rw [pieces, splitBy_whole whole, List.map_singleton, String.ofList_toList]

theorem pieces_joined {first : String} (whole : IsWhole first) (second : String) :
    pieces (first ++ " ## " ++ second) = first :: "##" :: pieces second := by
  have spelled : (first ++ " ## " ++ second).toList =
      first.toList ++ ' ' :: (['#', '#'] ++ ' ' :: second.toList) := by
    simp [String.toList_append]
  rw [pieces, spelled, splitBy_word (by decide) whole,
    splitBy_word (by decide) (by simp [separatesPieces]),
    List.map_cons, List.map_cons, String.ofList_toList]
  rfl

end Text

namespace Registry

open Text (IsWhole)

theorem isWhole_numbered {stem : String} (whole : IsWhole stem) (number : Nat) :
    IsWhole (numbered stem number) := by
  refine (whole.append (by simp [IsWhole, Text.separatesPieces])).append fun character member => ?_
  have digit : character ∈ Nat.toDigits 10 number := by simpa using member
  have isDigit : character.isDigit := Nat.isDigit_of_mem_toDigits (by decide) (by decide) digit
  cases same : Text.separatesPieces character with
  | false => rfl
  | true =>
    rw [beq_iff_eq.mp same] at isDigit
    cases isDigit

theorem isWhole_fresh {stem : String} (whole : IsWhole stem) (registry : Registry) :
    IsWhole (fresh stem registry).1 :=
  isWhole_numbered whole _

theorem isWhole_claim {wanted : String} (whole : IsWhole wanted) (registry : Registry) :
    IsWhole (claim wanted registry).1 := by
  unfold claim
  split
  · exact isWhole_fresh whole registry
  · exact whole

theorem isWhole_macroNamesFrom {functions : List String}
    (whole : ∀ function ∈ functions, IsWhole function) (registry : Registry) :
    ∀ named ∈ (macroNamesFrom functions registry).1, IsWhole named.2 := by
  induction functions generalizing registry with
  | nil => exact fun _ member => absurd member List.not_mem_nil
  | cons function functions ih =>
    rw [List.forall_mem_cons] at whole
    have prefixed : IsWhole ("macro_" ++ function) :=
      .append (by simp [IsWhole, Text.separatesPieces]) whole.1
    exact List.forall_mem_cons.mpr ⟨isWhole_claim prefixed registry, ih whole.2 _⟩

def IsNumbered (name : String) : Prop := ∃ stem number, name = numbered stem number

theorem IsNumbered.ne {name other : String} (isNumbered : IsNumbered name)
    (noDigit : other.toList.any Char.isDigit = false) : name ≠ other := by
  rintro rfl
  obtain ⟨stem, number, rfl⟩ := isNumbered
  have digits : Nat.toDigits 10 number ≠ [] := Nat.toDigits_ne_nil
  have stands : (Nat.toDigits 10 number).head digits ∈ (numbered stem number).toList := by simp [numbered]
  exact List.any_eq_false.mp noDigit _ stands
    (Nat.isDigit_of_mem_toDigits (by decide) (by decide) (List.head_mem digits))

end Registry

end InlineMacro
