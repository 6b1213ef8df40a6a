import InlineMacro.Proofs.Pass.RenameNames
import InlineMacro.Proofs.Run.Success
import InlineMacro.Proofs.Scope.TypeNames

/-!
# Tests of types against what the types stand for

The passes test types as they are written. A declaration is taken apart only if its type is written
neither as `const` nor as an array nor as a function, an argument is copied only if its type is
written neither as an array nor as a function, and so on; where one of these tests is wrong about
what the type stands for, the type is written with a typedef name.
-/

set_option autoImplicit false

namespace InlineMacro

/-! ## Declarations that are taken apart -/

namespace BlockParts

theorem isSplittable_of_separates {parts : BlockParts} {declaration : Declaration}
    (separates : parts.separates declaration) : declaration.isSplittable := by
  obtain ⟨moves, -⟩ := Bool.and_eq_true _ _ ▸ separates
  obtain ⟨moves, -⟩ := Bool.and_eq_true _ _ ▸ moves
  exact (Bool.and_eq_true _ _ ▸ moves).2

theorem isSplittable_of_mem_separatedAmong {placed : TypeTable × Declaration}
    (declarations : List Declaration) {table : TypeTable} {parts : BlockParts}
    (member : placed ∈ separatedAmong table parts declarations) : placed.2.isSplittable := by
  induction declarations generalizing table parts with
  | nil => cases member
  | cons declaration rest ih =>
    rcases List.mem_append.mp member with first | later
    · split at first
      · next separates =>
        rw [List.mem_singleton.mp first]
        exact isSplittable_of_separates separates
      · cases first
    · exact ih later

theorem isSplittable_of_mem_separatedBy {placed : TypeTable × Declaration} {statement : Statement}
    {table : TypeTable} {parts : BlockParts}
    (member : placed ∈ parts.separatedBy table statement) : placed.2.isSplittable := by
  cases statement with
  | declaration span declarations =>
    rw [separatedBy] at member
    split at member
    · cases member
    · exact isSplittable_of_mem_separatedAmong declarations member
  | _ => cases member

end BlockParts

namespace Statement

theorem isSplittable_of_mem_separatedIn {placed : TypeTable × Declaration} (statements : List Statement)
    (each : ∀ statement ∈ statements, ∀ table, placed ∈ statement.separated table → placed.2.isSplittable)
    {table : TypeTable} {parts : BlockParts}
    (member : placed ∈ separatedIn table parts statements) : placed.2.isSplittable := by
  induction statements generalizing table parts with
  | nil => cases member
  | cons statement statements ih =>
    rw [List.forall_mem_cons] at each
    rw [separatedIn, List.mem_append, List.mem_append] at member
    rcases member with (here | inside) | later
    · exact BlockParts.isSplittable_of_mem_separatedBy here
    · exact each.1 _ inside
    · exact ih each.2 later

theorem isSplittable_of_mem_separated {placed : TypeTable × Declaration} (statement : Statement) :
    ∀ table, placed ∈ statement.separated table → placed.2.isSplittable := by
  induction statement with
  | block span statements each =>
    intro table member
    exact isSplittable_of_mem_separatedIn statements each member
  | ifElse span condition thenBranch elseBranch thenIh elseIh =>
    intro table member
    rw [separated] at member
    rcases List.mem_append.mp member with member | member
    · exact thenIh _ member
    · exact elseIh _ member
  | forLoop span init condition update body initIh bodyIh =>
    intro table member
    rw [separated] at member
    rcases List.mem_append.mp member with member | member
    · exact initIh _ member
    · exact bodyIh _ member
  | ifThen _ _ _ ih | whileLoop _ _ _ ih | bareLoop _ _ _ _ ih | doWhile _ _ _ ih
  | switch _ _ _ ih | caseLabel _ _ _ ih | defaultLabel _ _ ih | labelled _ _ _ ih =>
    intro table member
    rw [separated] at member
    exact ih _ member
  | _ =>
    intro table member
    cases member

end Statement

/-- The tests that a declaration must fail to be parted from its first value are wrong about what its
type stands for only by the name it is written with. -/
theorem Declaration.meaning_of_isSplittable {declaration : Declaration} (table : TypeTable)
    (splittable : declaration.isSplittable) : ∀ test ∈ [CType.isConst, CType.isArray, CType.isFunction],
      test (declaration.type.meaning table) ↔ declaration.type.HasByName test table := by
  simp only [isSplittable, Bool.and_eq_true, Bool.not_eq_true'] at splittable
  obtain ⟨⟨⟨-, noArray⟩, noConst⟩, noFunction⟩ := splittable
  simp only [List.forall_mem_cons, CType.isConst_meaning, CType.isArray_meaning,
    CType.isFunction_meaning, noArray, noConst, noFunction, Bool.false_eq_true, false_or, true_and]
  exact fun _ member => absurd member List.not_mem_nil

/-! ## Arguments that are copied -/

namespace Renaming

theorem parameter_copies (given : Parameter) (state : RenameState) :
    Ensures (parameter given) state fun renamed _ => renamed.copy.isSome →
      given.type.isArray = false ∧ given.type.isFunction = false := by
  obtain ⟨name, given, span⟩ := given
  cases name with
  | none => exact Ensures.pure fun copied => by cases copied
  | some stem =>
    have named : Ensures (fresh stem) state fun _ _ => True := trivial
    refine named.bind fun argument middle _ => ?_
    have typed : Ensures (type given) middle fun renamedType _ =>
        renamedType.isArray = given.isArray ∧ renamedType.isFunction = given.isFunction :=
      ⟨given.isArray_traverse _, given.isFunction_traverse _⟩
    refine typed.bind fun renamedType after same => ?_
    dsimp only
    split
    · next movable =>
      simp only [CType.isMovable, same.1, same.2, Bool.not_or, Bool.and_eq_true, Bool.not_eq_true'] at movable
      have declared : Ensures (declare stem) after fun _ _ => True := trivial
      exact declared.bind fun copied last _ => .pure fun _ => movable.1
    · exact .bindModify (.pure fun copied => by cases copied)

theorem parameters_copies (given : List Parameter) (table : TypeTable) (state : RenameState) :
    Ensures (parameters given) state fun renamed _ =>
      List.Forall₂ (fun placed renamed => renamed.copy.isSome →
        placed.2.type.isArray = false ∧ placed.2.type.isFunction = false)
          (table.ofParameters given) renamed := by
  induction given generalizing table state with
  | nil => exact Ensures.pure .nil
  | cons first rest ih =>
    refine (parameter_copies first state).bind fun renamed middle one => ?_
    exact (ih _ middle).bind fun others after rest => .pure (.cons one rest)

end Renaming

theorem Function.renamedParts_copies (function : Function) (table : TypeTable) (registry : Registry) :
    List.Forall₂ (fun placed renamed => renamed.copy.isSome → ∀ test ∈ [CType.isArray, CType.isFunction],
          test (placed.2.type.meaning placed.1) ↔ placed.2.type.HasByName test placed.1)
      (table.ofParameters function.parameters) (function.renamedParts registry).1 := by
  have copies : Ensures (Renaming.whole function) ⟨{}, registry⟩ fun parts _ =>
      List.Forall₂ (fun placed renamed => renamed.copy.isSome →
        placed.2.type.isArray = false ∧ placed.2.type.isFunction = false)
          (table.ofParameters function.parameters) parts.1 := by
    refine (Renaming.parameters_copies function.parameters table _).bind
      fun parameters middle holds => ?_
    have any : Ensures (Renaming.statement function.body) middle fun _ _ => True := trivial
    exact any.bind fun body after _ => .pure holds
  refine List.Forall₂.imp (fun placed renamed holds copied => ?_) copies
  obtain ⟨noArray, noFunction⟩ := holds copied
  simp only [List.forall_mem_cons, CType.isArray_meaning, CType.isFunction_meaning, noArray,
    noFunction, Bool.false_eq_true, false_or, true_and]
  exact fun _ member => absurd member List.not_mem_nil

/-! ## Results and the temporaries that take them -/

theorem CType.isConst_valueType : ∀ result : CType, result.valueType.isConst = false
  | .qualified _ inner => inner.isConst_valueType
  | .record _ none _ | .record _ (some _) _ | .enumeration none _ | .enumeration (some _) _
  | .basic _ | .pointer _ _ | .array _ _ | .function _ _ _ | .named _ => rfl

namespace CompilationUnit

variable (unit : CompilationUnit) (configuration : Configuration)

/-- What the passes test of the types in a function is wrong about what the types stand for only
where a type is written with a typedef name. -/
structure TestsTypesOf (table : TypeTable) (function : Function) : Prop where
  separated : ∀ separated ∈ function.body.brace.separated (table.inBody function),
    ∀ test ∈ [CType.isConst, CType.isArray, CType.isFunction],
      test (separated.2.type.meaning separated.1) ↔ separated.2.type.HasByName test separated.1
  copied : ∀ registry, List.Forall₂ (fun given renamed => renamed.copy.isSome →
      ∀ test ∈ [CType.isArray, CType.isFunction],
        test (given.2.type.meaning given.1) ↔ given.2.type.HasByName test given.1)
    (table.ofParameters function.parameters) (function.renamedParts registry).1
  returned : (unit.decision configuration).results.find? function.name = some function.result →
    ((function.result.meaning table).isVoid ↔ function.result.HasByName CType.isVoid table)
  received : ∀ registry, ∀ temporary ∈
      function.normalize.temporaries (unit.decision configuration).results registry,
    (temporary.type.meaning (table.inBody function)).isConst ↔
      temporary.type.HasByName CType.isConst (table.inBody function)

/-- A declaration is never taken apart, an argument never copied, a value never taken to be there and
never received in an object that is wrong for it, except through a typedef name. -/
theorem typeTests_spec :
    ∀ placed ∈ TypeTable.ofFunctions (fun _ => none) unit.items,
      unit.TestsTypesOf configuration placed.1 placed.2 := by
  rintro ⟨table, function⟩ -
  constructor
  · intro separated member
    exact Declaration.meaning_of_isSplittable _
      (Statement.isSplittable_of_mem_separated _ _ member)
  · exact function.renamedParts_copies table
  · intro found
    obtain ⟨other, -, -, notVoid, -, same⟩ := find?_results found
    rw [CType.isVoid_meaning, ← same, or_iff_right notVoid]
  · intro registry temporary member
    obtain ⟨body, flattening⟩ := function.normalize.flattenCalls_flattening_temporaries
      (unit.decision configuration).results registry
    obtain ⟨callee, result, -, made⟩ := flattening.made temporary member
    have notConst : temporary.type.isConst = false := by
      rw [made]
      exact result.isConst_valueType
    rw [CType.isConst_meaning, notConst]
    exact or_iff_right Bool.false_ne_true

def anyFunction (unit : CompilationUnit) (test : TypeTable × Function → Bool) : Bool :=
  (TypeTable.ofFunctions (fun _ => none) unit.items).any test

theorem exists_function {unit : CompilationUnit} {test : TypeTable × Function → Bool}
    (some : unit.anyFunction test) :
    ∃ placed ∈ TypeTable.ofFunctions (fun _ => none) unit.items, test placed :=
  List.any_eq_true.mp some

theorem typeTests_spec_at_call :
    ∃ unit, CompilationUnit.parse
        "typedef int word; inline word f(word n) \x7b return n; \x7d
          int main(void) \x7b word m = f(1); return m; \x7d" = .ok unit ∧
      ∃ placed ∈ TypeTable.ofFunctions (fun _ => none) unit.items,
        placed.2.body.brace.separated (placed.1.inBody placed.2) ≠ [] ∧
        placed.2.normalize.temporaries (unit.decision {}).results {} ≠ [] ∧
        unit.TestsTypesOf {} placed.1 placed.2 := by
  refine exists_parsed _ (fun unit => unit.anyFunction fun placed =>
      !(placed.2.body.brace.separated (placed.1.inBody placed.2)).isEmpty &&
        !(placed.2.normalize.temporaries (unit.decision {}).results {}).isEmpty)
      (by decide +kernel) fun unit _ some => ?_
  obtain ⟨placed, member, holds⟩ := exists_function some
  simp only [Bool.and_eq_true, Bool.not_eq_true', List.isEmpty_eq_false_iff] at holds
  exact ⟨placed, member, holds.1, holds.2, typeTests_spec unit {} placed member⟩

/-- A typedef hides `const`, an array, `void` and again `const` from the four tests. -/
theorem typeTests_miss_typedefs :
    (∃ unit, CompilationUnit.parse
        "typedef const int ci; int g(void); void f(void) \x7b ci x = g(); \x7d" = .ok unit ∧
      ∃ placed ∈ TypeTable.ofFunctions (fun _ => none) unit.items,
        ∃ separated ∈ placed.2.body.brace.separated (placed.1.inBody placed.2),
          (separated.2.type.meaning separated.1).isConst) ∧
    (∃ unit, CompilationUnit.parse
        "typedef int A[3]; inline void f(A xs) \x7b xs[0] = 1; \x7d" = .ok unit ∧
      ∃ placed ∈ TypeTable.ofFunctions (fun _ => none) unit.items,
        ∃ copied ∈ (placed.1.ofParameters placed.2.parameters).zip (placed.2.renamedParts {}).1,
          copied.2.copy.isSome ∧ (copied.1.2.type.meaning copied.1.1).isArray) ∧
    (∃ unit, CompilationUnit.parse
        "typedef void V; inline V f(void) \x7b \x7d int main(void) \x7b f(); return 0; \x7d" =
          .ok unit ∧
      ∃ placed ∈ TypeTable.ofFunctions (fun _ => none) unit.items,
        (unit.decision {}).results.contains placed.2.name ∧
          (placed.2.result.meaning placed.1).isVoid) ∧
    ∃ unit, CompilationUnit.parse
        "typedef const int ci; inline ci f(void) \x7b return 1; \x7d
          int main(void) \x7b int x; x = f(); return x; \x7d" = .ok unit ∧
      ∃ placed ∈ TypeTable.ofFunctions (fun _ => none) unit.items,
        ∃ temporary ∈ placed.2.normalize.temporaries (unit.decision {}).results {},
          (temporary.type.meaning (placed.1.inBody placed.2)).isConst := by
  refine ⟨?_, ?_, ?_, ?_⟩
  · refine exists_parsed _ (anyFunction · fun placed =>
      (placed.2.body.brace.separated (placed.1.inBody placed.2)).any fun separated =>
        (separated.2.type.meaning separated.1).isConst) (by decide +kernel) fun unit _ some => ?_
    obtain ⟨placed, member, separates⟩ := exists_function some
    exact ⟨placed, member, List.any_eq_true.mp separates⟩
  · refine exists_parsed _ (anyFunction · fun placed =>
      ((placed.1.ofParameters placed.2.parameters).zip (placed.2.renamedParts {}).1).any
        fun copied => copied.2.copy.isSome && (copied.1.2.type.meaning copied.1.1).isArray)
      (by decide +kernel) fun unit _ some => ?_
    obtain ⟨placed, member, copies⟩ := exists_function some
    obtain ⟨copied, among, holds⟩ := List.any_eq_true.mp copies
    exact ⟨placed, member, copied, among, Bool.and_eq_true _ _ ▸ holds⟩
  · refine exists_parsed _ (fun unit => unit.anyFunction fun placed =>
      (unit.decision {}).results.contains placed.2.name &&
        (placed.2.result.meaning placed.1).isVoid) (by decide +kernel) fun unit _ some => ?_
    obtain ⟨placed, member, holds⟩ := exists_function some
    exact ⟨placed, member, Bool.and_eq_true _ _ ▸ holds⟩
  · refine exists_parsed _ (fun unit => unit.anyFunction fun placed =>
      (placed.2.normalize.temporaries (unit.decision {}).results {}).any fun temporary =>
        (temporary.type.meaning (placed.1.inBody placed.2)).isConst)
      (by decide +kernel) fun unit _ some => ?_
    obtain ⟨placed, member, makes⟩ := exists_function some
    exact ⟨placed, member, List.any_eq_true.mp makes⟩

end CompilationUnit

end InlineMacro
