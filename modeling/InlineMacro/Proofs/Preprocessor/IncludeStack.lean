import InlineMacro.Preprocessor.Inclusion
import InlineMacro.Proofs.Association
import InlineMacro.Proofs.Token.Linemarkers
import Mathlib.Data.List.Basic

/-!
# Inclusions and the stack of headers

The linemarkers of a preprocessed text tell which headers are entered and left, so a stack of them says
at each line which file the text comes from. The walk that looks for inclusions keeps no stack: it goes by
the file that the last marker names. Where the markers are well nested the two agree, so one inclusion is
found for each line of the main file that holds a directive and from which a header is entered.
-/

set_option autoImplicit false

namespace InlineMacro

/-- The line of a file that comes next. -/
structure FileLine where
  file : String
  line : Nat
deriving DecidableEq, Repr

def FileLine.within (mainFile : String) (place : FileLine) : Option Nat :=
  if place.file = mainFile then some place.line else none

def markersOf (preprocessed : String) : List (Option Linemarker) :=
  (Text.lines preprocessed).map Linemarker.parse?

/-! ## The stack of headers -/

/-- Where a text stands: at a line of a file, and for each header around it at the place from which the
header was entered, from the inside out. Nothing is known of the place in front of the first marker. -/
structure IncludeStack where
  here : Option FileLine := none
  includers : List (Option FileLine) := []

namespace IncludeStack

def placed (known : Option FileLine) (marker : Linemarker) : Option FileLine :=
  some ⟨(known.map FileLine.file).getD marker.file, marker.line⟩

/-- Behind a line of the text. A marker enters a header, leaves one for the place from which it was
entered, or stays in the file. Outside of all headers it names the file. -/
def step (stack : IncludeStack) : Option Linemarker → IncludeStack
  | none => { stack with here := stack.here.map fun place => { place with line := place.line + 1 } }
  | some marker =>
    if marker.entersFile then ⟨placed none marker, stack.here :: stack.includers⟩
    else
      match stack.includers with
      | [] => ⟨placed none marker, []⟩
      | includer :: outer =>
        if marker.returnsToFile then ⟨placed includer marker, outer⟩
        else { stack with here := placed stack.here marker }

/-- Whether a marker fits the headers that it stands in: no header is the main file, one is left for the
file from which it was entered, and all other markers in it name it. -/
def allows (mainFile : String) (stack : IncludeStack) (marker : Linemarker) : Bool :=
  if marker.entersFile then marker.file != mainFile
  else
    match stack.includers with
    | [] => true
    | includer :: _ =>
      (if marker.returnsToFile then includer else stack.here).all fun place => marker.file == place.file

def wellNested (mainFile : String) : IncludeStack → List (Option Linemarker) → Bool
  | _, [] => true
  | stack, text :: texts =>
    text.all (stack.allows mainFile) && wellNested mainFile (stack.step text) texts

def entries (mainFile : String) : IncludeStack → List (Option Linemarker) → List (Nat × String)
  | _, [] => []
  | stack, text :: texts =>
    (text.filter Linemarker.entersFile).toList.flatMap (fun marker =>
      (stack.here.bind (FileLine.within mainFile)).toList.map fun line => (line, marker.file)) ++
        entries mainFile (stack.step text) texts

end IncludeStack

/-- The inclusions of a file from whose lines headers are entered: one for each line that holds a
directive, in the order in which the lines come first, with the first header. -/
def inclusionsOf (lines : List String) (entries : List (Nat × String)) : List Inclusion :=
  (entries.map Prod.fst).eraseDups.filterMap fun line => do
    let directive ← InclusionWalk.directive? lines line
    let entry ← entries.find? fun entry => entry.1 == line
    pure ⟨line, Text.trimmed directive, entry.2⟩

/-! ## The last marker -/

namespace FileLine

def next (here : Option FileLine) : Option Linemarker → Option FileLine
  | none => here.map fun place => { place with line := place.line + 1 }
  | some marker => some ⟨marker.file, marker.line⟩

def mainLines (mainFile : String) : Option FileLine → List (Option Linemarker) → List Nat
  | _, [] => []
  | here, text :: texts =>
    ((next here text).bind (within mainFile)).toList ++ mainLines mainFile (next here text) texts

def entries (mainFile : String) : Option FileLine → List (Option Linemarker) → List (Nat × String)
  | _, [] => []
  | here, text :: texts =>
    (text.filter fun marker => marker.entersFile && marker.file != mainFile).toList.flatMap (fun marker =>
      (here.bind (within mainFile)).toList.map fun line => (line, marker.file)) ++
        entries mainFile (next here text) texts

end FileLine

theorem IncludeStack.here_step {mainFile : String} {stack : IncludeStack} {text : Option Linemarker}
    (allowed : text.all (stack.allows mainFile)) : (stack.step text).here = FileLine.next stack.here text := by
  have named {known : Option FileLine} {marker : Linemarker}
      (same : known.all fun place => marker.file == place.file) :
      placed known marker = some ⟨marker.file, marker.line⟩ := by
    cases known with
    | none => rfl
    | some place =>
      have isFile : marker.file = place.file := by simpa using same
      rw [isFile]
      rfl
  cases text with
  | none => rfl
  | some marker =>
    rw [Option.all_some, allows] at allowed
    rw [step, FileLine.next]
    split at allowed
    · next enters => rw [if_pos enters]; rfl
    · next stays =>
      rw [if_neg stays]
      cases includers : stack.includers with
      | nil => rfl
      | cons includer outer =>
        rw [includers] at allowed
        dsimp only at allowed ⊢
        split at allowed
        · next returns => rw [if_pos returns]; exact named allowed
        · next inside => rw [if_neg inside]; exact named allowed

theorem IncludeStack.entries_eq {mainFile : String} (texts : List (Option Linemarker)) :
    ∀ {stack : IncludeStack}, stack.wellNested mainFile texts →
      stack.entries mainFile texts = FileLine.entries mainFile stack.here texts := by
  induction texts with
  | nil => exact fun _ => rfl
  | cons text texts ih =>
    intro stack nested
    rw [wellNested, Bool.and_eq_true] at nested
    obtain ⟨allowed, nested⟩ := nested
    have sameHeaders : text.filter Linemarker.entersFile =
        text.filter fun marker => marker.entersFile && marker.file != mainFile := by
      cases text with
      | none => rfl
      | some marker =>
        rw [Option.all_some, allows] at allowed
        simp only [Option.filter_some]
        by_cases enters : marker.entersFile
        · rw [if_pos enters] at allowed
          rw [enters, allowed]
          rfl
        · simp [enters]
    rw [entries, FileLine.entries, sameHeaders, ih nested, here_step allowed]

/-! ## Entries one behind the other -/

section Entries

variable {lines : List String} {entered : List (Nat × String)} {line : Nat} {header : String}

theorem exists_find? (member : line ∈ entered.map Prod.fst) :
    ∃ entry, entered.find? (fun entry => entry.1 == line) = some entry := by
  obtain ⟨entry, among, rfl⟩ := List.mem_map.mp member
  exact Option.isSome_iff_exists.mp (List.find?_isSome.mpr ⟨entry, among, beq_self_eq_true _⟩)

theorem inclusionsOf_again (again : line ∈ entered.map Prod.fst) :
    inclusionsOf lines (entered ++ [(line, header)]) = inclusionsOf lines entered := by
  unfold inclusionsOf
  rw [List.map_append, List.map_singleton, eraseDups_concat, if_pos (List.contains_iff_mem.mpr again),
    List.append_nil]
  refine List.filterMap_congr fun other member => ?_
  obtain ⟨entry, found⟩ := exists_find? (List.mem_eraseDups.mp member)
  rw [List.find?_append, found]
  rfl

theorem inclusionsOf_first (first : line ∉ entered.map Prod.fst) :
    inclusionsOf lines (entered ++ [(line, header)]) = inclusionsOf lines entered ++
      ((InclusionWalk.directive? lines line).map fun directive =>
        Inclusion.mk line (Text.trimmed directive) header).toList := by
  unfold inclusionsOf
  rw [List.map_append, List.map_singleton, eraseDups_concat,
    if_neg fun again => first (List.contains_iff_mem.mp again), List.filterMap_append]
  congr 1
  · refine List.filterMap_congr fun other member => ?_
    obtain ⟨entry, found⟩ := exists_find? (List.mem_eraseDups.mp member)
    rw [List.find?_append, found]
    rfl
  · have new : entered.find? (fun entry => entry.1 == line) = none := by
      refine List.find?_eq_none.mpr fun entry among same => first ?_
      rw [← eq_of_beq same]
      exact List.mem_map_of_mem among
    cases directive : InclusionWalk.directive? lines line <;> simp [List.find?_append, new, directive]

end Entries

/-! ## The walk -/

theorem Linemarker.line_lt_of_parse? {text : String} {marker : Linemarker}
    (parsed : parse? text = some marker) : marker.line < numberBound := by
  obtain ⟨spelling, -, means⟩ := exists_spelling parsed
  exact of_decide_eq_true (Option.filter_eq_some_iff.mp means.number).2

namespace InclusionWalk

variable {mainFile : String} {lines : List String} {here : Option FileLine} {entered : List (Nat × String)}
  {passed : List Nat} {walk : InclusionWalk}

/-- A walk has come to a place by the last marker. Headers have been entered on the way from lines of the
main file, and positions in it have been passed. -/
structure Reaches (mainFile : String) (lines : List String) (here : Option FileLine)
    (entered : List (Nat × String)) (passed : List Nat) (walk : InclusionWalk) : Prop where
  mainLine : walk.mainLine = here.bind (FileLine.within mainFile)
  mem_entered : ∀ line, line ∈ walk.entered ↔ line ∈ entered.map Prod.fst
  found : walk.found = inclusionsOf lines entered
  overflowed : walk.overflowed = passed.any (Linemarker.numberBound ≤ ·)

namespace Reaches

theorem start : Reaches mainFile lines none [] [] {} where
  mainLine := rfl
  mem_entered _ := Iff.rfl
  found := rfl
  overflowed := rfl

theorem textLine (reaches : Reaches mainFile lines here entered passed walk) :
    Reaches mainFile lines (FileLine.next here none) entered
      (passed ++ ((FileLine.next here none).bind (FileLine.within mainFile)).toList) walk.textLine where
  mainLine := by
    rw [InclusionWalk.textLine, reaches.mainLine]
    cases here with
    | none => rfl
    | some place => simp only [FileLine.next, FileLine.within, Option.map_some, Option.bind_some]; split <;> rfl
  mem_entered := reaches.mem_entered
  found := reaches.found
  overflowed := by
    rw [InclusionWalk.textLine, reaches.overflowed, reaches.mainLine, List.any_append]
    cases here with
    | none => rfl
    | some place =>
      simp only [FileLine.next, FileLine.within, Option.map_some, Option.bind_some]
      split <;> simp

theorem enterHeader (reaches : Reaches mainFile lines here entered passed walk) (line : Nat)
    (header : String) : Reaches mainFile lines none (entered ++ [(line, header)]) passed
      (walk.enterHeader lines header line) := by
  unfold InclusionWalk.enterHeader
  split
  · next contained =>
    have again : line ∈ entered.map Prod.fst := (reaches.mem_entered line).mp (List.contains_iff_mem.mp contained)
    refine ⟨rfl, fun other => ?_, ?_, reaches.overflowed⟩
    · rw [reaches.mem_entered other, List.map_append, List.mem_append]
      refine ⟨.inl, fun member => member.elim id fun isLine => ?_⟩
      rw [List.mem_singleton.mp isLine]
      exact again
    · rw [inclusionsOf_again again]
      exact reaches.found
  · next absent =>
    have first : line ∉ entered.map Prod.fst := fun member =>
      absent (List.contains_iff_mem.mpr ((reaches.mem_entered line).mpr member))
    refine ⟨rfl, fun other => ?_, ?_, reaches.overflowed⟩
    · rw [List.mem_cons, reaches.mem_entered other, List.map_append, List.mem_append, or_comm]
      simp
    · rw [inclusionsOf_first first, ← reaches.found]

theorem moved {other : Option FileLine} (reaches : Reaches mainFile lines here entered passed walk)
    (same : other.bind (FileLine.within mainFile) = here.bind (FileLine.within mainFile)) :
    Reaches mainFile lines other entered passed walk :=
  { reaches with mainLine := reaches.mainLine.trans same.symm }

/-- A marker moves the walk to the line that it names. It adds an entry if it enters a header and the
walk is in the main file. -/
theorem marker (reaches : Reaches mainFile lines here entered passed walk) {marker : Linemarker}
    (fits : marker.line < Linemarker.numberBound) : Reaches mainFile lines (FileLine.next here (some marker))
      (entered ++ FileLine.entries mainFile here [some marker])
      (passed ++ ((FileLine.next here (some marker)).bind (FileLine.within mainFile)).toList)
      (walk.marker mainFile lines marker) := by
  have kept : (passed ++ ((FileLine.next here (some marker)).bind (FileLine.within mainFile)).toList).any
      (Linemarker.numberBound ≤ ·) = passed.any (Linemarker.numberBound ≤ ·) := by
    simp only [FileLine.next, FileLine.within, Option.bind_some, List.any_append]
    split <;> simp [Nat.not_le.mpr fits]
  unfold InclusionWalk.marker
  split
  · next isMain =>
    have none : FileLine.entries mainFile here [some marker] = [] := by
      simp [FileLine.entries, isMain, Option.filter]
    rw [none, List.append_nil]
    refine ⟨?_, reaches.mem_entered, reaches.found, reaches.overflowed.trans kept.symm⟩
    simp [FileLine.next, FileLine.within, isMain]
  · next notMain =>
    have outside : (FileLine.next here (some marker)).bind (FileLine.within mainFile) = none := by
      simp [FileLine.next, FileLine.within, notMain]
    rw [outside, Option.toList_none, List.append_nil]
    split
    · next enters =>
      split
      · next line inMain =>
        have entry : FileLine.entries mainFile here [some marker] = [(line, marker.file)] := by
          rw [reaches.mainLine] at inMain
          simp [FileLine.entries, enters, notMain, inMain, Option.filter]
        rw [entry]
        exact (reaches.enterHeader line marker.file).moved outside
      · next inHeader =>
        have none : FileLine.entries mainFile here [some marker] = [] := by
          rw [reaches.mainLine] at inHeader
          simp [FileLine.entries, enters, notMain, inHeader, Option.filter]
        rw [none, List.append_nil]
        exact reaches.moved (outside.trans (reaches.mainLine ▸ inHeader).symm)
    · next stays =>
      have none : FileLine.entries mainFile here [some marker] = [] := by
        simp [FileLine.entries, stays, Option.filter]
      rw [none, List.append_nil]
      exact ⟨outside.symm, reaches.mem_entered, reaches.found, reaches.overflowed⟩

theorem step (reaches : Reaches mainFile lines here entered passed walk) (text : String) :
    Reaches mainFile lines (FileLine.next here (Linemarker.parse? text))
      (entered ++ FileLine.entries mainFile here [Linemarker.parse? text])
      (passed ++ ((FileLine.next here (Linemarker.parse? text)).bind (FileLine.within mainFile)).toList)
      (walk.step mainFile lines text) := by
  unfold InclusionWalk.step
  cases parsed : Linemarker.parse? text with
  | none =>
    have none : FileLine.entries mainFile here [none] = [] := rfl
    rw [none, List.append_nil]
    exact reaches.textLine
  | some marker => exact reaches.marker (Linemarker.line_lt_of_parse? parsed)

theorem foldl (texts : List String) : ∀ {here : Option FileLine} {entered : List (Nat × String)}
    {passed : List Nat} {walk : InclusionWalk}, Reaches mainFile lines here entered passed walk →
    ∃ last, Reaches mainFile lines last
      (entered ++ FileLine.entries mainFile here (texts.map Linemarker.parse?))
      (passed ++ FileLine.mainLines mainFile here (texts.map Linemarker.parse?))
      (texts.foldl (InclusionWalk.step mainFile lines) walk) := by
  induction texts with
  | nil =>
    intro here entered passed walk reaches
    refine ⟨here, ?_⟩
    simpa [FileLine.entries, FileLine.mainLines] using reaches
  | cons text texts ih =>
    intro here entered passed walk reaches
    obtain ⟨last, reached⟩ := ih (reaches.step text)
    refine ⟨last, ?_⟩
    simpa [FileLine.entries, FileLine.mainLines, List.append_assoc] using reached

end Reaches

end InclusionWalk

/-! ## The order of the lines -/

namespace FileLine

theorem entries_sublist (mainFile : String) (texts : List (Option Linemarker)) :
    ∀ here : Option FileLine, ((entries mainFile here texts).map Prod.fst).Sublist
      ((here.bind (within mainFile)).toList ++ mainLines mainFile here texts) := by
  induction texts with
  | nil => exact fun _ => List.nil_sublist _
  | cons text texts ih =>
    intro here
    rw [entries, mainLines, List.map_append]
    have behind := ih (next here text)
    cases text with
    | none => exact behind.trans (List.sublist_append_right _ _)
    | some marker =>
      by_cases enters : marker.entersFile && marker.file != mainFile
      · have outside : (next here (some marker)).bind (within mainFile) = none := by
          simp only [Bool.and_eq_true, bne_iff_ne] at enters
          simp [next, within, enters.2]
        rw [outside, Option.toList_none, List.nil_append] at behind
        rw [outside, Option.toList_none, List.nil_append]
        refine List.Sublist.append ?_ behind
        simp [Option.filter, enters, Function.comp_def]
      · have none : (some marker).filter (fun marker => marker.entersFile && marker.file != mainFile) = none := by
          simp only [Option.filter_some, enters]
          rfl
        rw [none]
        exact behind.trans (List.sublist_append_right _ _)

end FileLine

theorem inclusionsOf_lines (lines : List String) (entered : List (Nat × String)) :
    ((inclusionsOf lines entered).map Inclusion.line).Sublist (entered.map Prod.fst).eraseDups := by
  unfold inclusionsOf
  generalize (entered.map Prod.fst).eraseDups = candidates
  induction candidates with
  | nil => exact List.nil_sublist _
  | cons line candidates ih =>
    rw [List.filterMap_cons]
    split
    · exact ih.cons _
    · next inclusion made =>
      have same : inclusion.line = line := by
        obtain ⟨directive, -, made⟩ := Option.bind_eq_some_iff.mp made
        obtain ⟨entry, -, made⟩ := Option.bind_eq_some_iff.mp made
        obtain rfl := Option.some.inj made
        rfl
      rw [List.map_cons, same]
      exact ih.cons_cons _

/-! ## What is found -/

def FileLine.staysCountable (mainFile : String) (texts : List (Option Linemarker)) : Bool :=
  (mainLines mainFile none texts).all (· < Linemarker.numberBound)

/-- The walk stops exactly where a line of the main file cannot be counted. Otherwise it finds the
headers that are entered while the last marker names the main file. -/
theorem inclusions_eq (mainFile preprocessed source : String) : inclusions mainFile preprocessed source =
      if FileLine.staysCountable mainFile (markersOf preprocessed) then
        .ok (inclusionsOf (Text.lines source) (FileLine.entries mainFile none (markersOf preprocessed)))
      else .error .overflow := by
  obtain ⟨last, reached⟩ := InclusionWalk.Reaches.foldl (Text.lines preprocessed)
    (InclusionWalk.Reaches.start : InclusionWalk.Reaches mainFile (Text.lines source) none [] [] {})
  have counted : (InclusionWalk.through mainFile preprocessed source).overflowed =
      !FileLine.staysCountable mainFile (markersOf preprocessed) := by
    refine reached.overflowed.trans ?_
    rw [FileLine.staysCountable, List.nil_append, List.not_all_eq_any_not]
    simp only [markersOf, ← decide_not, Nat.not_lt]
  have found : (InclusionWalk.through mainFile preprocessed source).found =
      inclusionsOf (Text.lines source) (FileLine.entries mainFile none (markersOf preprocessed)) :=
    reached.found
  unfold inclusions
  dsimp only
  rw [counted, found]
  cases FileLine.staysCountable mainFile (markersOf preprocessed) <;> rfl

/-- As long as the lines of the main file can be counted: where the markers are well nested, the
inclusions are those of the headers that the stack shows to be entered straight from the main file. In
every text they stand on different lines, and on later and later ones if the text never goes back in the
main file. -/
theorem inclusions_of_headers (mainFile preprocessed source : String)
    (countable : FileLine.staysCountable mainFile (markersOf preprocessed)) :
    (IncludeStack.wellNested mainFile {} (markersOf preprocessed) →
      inclusions mainFile preprocessed source = .ok (inclusionsOf (Text.lines source)
        (IncludeStack.entries mainFile {} (markersOf preprocessed)))) ∧
    ∃ found, inclusions mainFile preprocessed source = .ok found ∧
      (found.map Inclusion.line).Nodup ∧
      ((FileLine.mainLines mainFile none (markersOf preprocessed)).Pairwise (· ≤ ·) →
        (found.map Inclusion.line).Pairwise (· < ·)) := by
  rw [inclusions_eq, if_pos countable]
  refine ⟨fun nested => ?_, _, rfl, ?_, fun forward => ?_⟩
  · rw [IncludeStack.entries_eq _ nested]
  · exact (nodup_eraseDups _).sublist (inclusionsOf_lines _ _)
  · have entered := FileLine.entries_sublist mainFile (markersOf preprocessed) none
    have ascending := ((forward.sublist entered).sublist (eraseDups_sublist _)).sublist
      (inclusionsOf_lines (Text.lines source) _)
    have different := (nodup_eraseDups _).sublist (inclusionsOf_lines (Text.lines source)
      (FileLine.entries mainFile none (markersOf preprocessed)))
    exact (ascending.and different).imp fun both => Nat.lt_of_le_of_ne both.1 both.2

/-- Headers that include headers, a header that is entered twice from one line, and one that is entered
behind lines of the file itself. -/
theorem inclusions_of_nested_headers :
    let preprocessed := "# 1 \"m.c\"\n# 1 \"<command-line>\"\n# 1 \"m.c\"\n# 1 \"a.h\" 1\n\n# 1 \"b.h\" 1\n" ++
      "# 3 \"a.h\" 2\n# 1 \"m.c\" 2\n# 1 \"c.h\" 1\n# 2 \"m.c\" 2\nint x;\n# 1 \"d.h\" 1 3\n# 4 \"m.c\" 2\n"
    let source := "#include \"a.h\"\nint x;\n  #include <d.h>  \n"
    let found : List Inclusion := [⟨1, "#include \"a.h\"", "a.h"⟩, ⟨3, "#include <d.h>", "d.h"⟩]
    FileLine.staysCountable "m.c" (markersOf preprocessed) ∧
      IncludeStack.wellNested "m.c" {} (markersOf preprocessed) ∧
      (FileLine.mainLines "m.c" none (markersOf preprocessed)).Pairwise (· ≤ ·) ∧
      inclusions "m.c" preprocessed source = .ok found := by
  intro preprocessed source found
  have read : markersOf preprocessed = [some ⟨1, "m.c", []⟩, some ⟨1, "<command-line>", []⟩,
      some ⟨1, "m.c", []⟩, some ⟨1, "a.h", [1]⟩, none, some ⟨1, "b.h", [1]⟩, some ⟨3, "a.h", [2]⟩,
      some ⟨1, "m.c", [2]⟩, some ⟨1, "c.h", [1]⟩, some ⟨2, "m.c", [2]⟩, none, some ⟨1, "d.h", [1, 3]⟩,
      some ⟨4, "m.c", [2]⟩] := by decide +kernel
  have countable : FileLine.staysCountable "m.c" (markersOf preprocessed) := by rw [read]; decide
  have nested : IncludeStack.wellNested "m.c" {} (markersOf preprocessed) := by rw [read]; decide
  have entered : IncludeStack.entries "m.c" {} (markersOf preprocessed) =
      [(1, "a.h"), (1, "c.h"), (3, "d.h")] := by rw [read]; decide
  have recorded : inclusionsOf (Text.lines source) [(1, "a.h"), (1, "c.h"), (3, "d.h")] = found := by
    decide +kernel
  refine ⟨countable, nested, by rw [read]; decide, ?_⟩
  rw [(inclusions_of_headers "m.c" preprocessed source countable).1 nested, entered, recorded]

/-- A text with well nested markers in which a line of the main file has the last number that can be
counted, and another line follows. -/
theorem inclusions_stop_at_last_line :
    let preprocessed := "# 18446744073709551615 \"m.c\"\n\n"
    IncludeStack.wellNested "m.c" {} (markersOf preprocessed) ∧
      IncludeStack.entries "m.c" {} (markersOf preprocessed) = [] ∧
      inclusions "m.c" preprocessed "" = .error .overflow := by
  decide +kernel

end InlineMacro
