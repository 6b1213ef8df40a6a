import InlineMacro.Proofs.Registry
import Mathlib.Data.List.Nodup

/-!
# What made-up names are for

Each name that a run makes up is for one thing in the unit. A record of names with what they are for
goes along with the registry; as the registry gives out no name twice, a name in the record is for
one thing only.

An object is known by its scope, which is opened by a block and by a loop whose head starts with
something. The scope is known by the way to the statement that opens it: the numbers of the parts to go
into, from the inside out.
-/

set_option autoImplicit false

namespace InlineMacro

/-! ## Declarations with their scopes -/

namespace Statement

mutual

/-- The declarations in a statement in order, each with the scope that it stands in, for a statement
that stands in a scope and at a position. -/
def scopedDeclarations (scope position : List Nat) : Statement → List (List Nat × Declaration)
  | .block _ statements => listScopedDeclarations position position 0 statements
  | .declaration _ declarations => declarations.map fun declared => (scope, declared)
  | .ifElse _ _ thenBranch none => thenBranch.scopedDeclarations scope (0 :: position)
  | .ifElse _ _ thenBranch (some elseBranch) =>
    thenBranch.scopedDeclarations scope (0 :: position) ++
      elseBranch.scopedDeclarations scope (1 :: position)
  | .whileLoop _ _ body => body.scopedDeclarations scope (0 :: position)
  | .forLoop _ none _ _ body => body.scopedDeclarations scope (0 :: position)
  | .forLoop _ (some init) _ _ body =>
    init.scopedDeclarations position (0 :: position) ++
      body.scopedDeclarations position (1 :: position)
  | .doWhile _ body _ => body.scopedDeclarations scope (0 :: position)
  | .switch _ _ body => body.scopedDeclarations scope (0 :: position)
  | .caseLabel _ _ statement => statement.scopedDeclarations scope (0 :: position)
  | .defaultLabel _ statement => statement.scopedDeclarations scope (0 :: position)
  | .labelled _ _ statement => statement.scopedDeclarations scope (0 :: position)
  | _ => []

def listScopedDeclarations (scope position : List Nat) (number : Nat) :
    List Statement → List (List Nat × Declaration)
  | [] => []
  | statement :: statements =>
    statement.scopedDeclarations scope (number :: position) ++
      listScopedDeclarations scope position (number + 1) statements

end

end Statement

def Function.scopedDeclarations (function : Function) : List (List Nat × Declaration) :=
  function.body.scopedDeclarations [] []

/-! ## The record of names -/

/-- What a name is made up for. Functions have their numbers in the unit, and so have the macros
among those that are made, the parameters of a function, its temporaries and its invocations. -/
inductive Origin where
  | macroOf (number : Nat)
  | namespaceParameter
  | temporary (function number : Nat)
  | argument (function number : Nat)
  | copy (function : Nat) (parameter : String)
  | object (function : Nat) (scope : List Nat) (name : String)
  | pointer (function : Nat)
  | exit (function : Nat)
  | token (function number : Nat)
deriving DecidableEq, Repr

namespace Registry

/-- A registry comes from another one by giving out names, among them all that are made up in some
part of a run. -/
def Accounts (before after : Registry) (introduced : Origin → String → Prop) : Prop :=
  ∃ record : List (Origin × String), Issues before after (record.map Prod.snd) ∧
    ∀ origin name, introduced origin name → (origin, name) ∈ record

namespace Accounts

variable {first second third : Registry} {introduced others all : Origin → String → Prop}

theorem nothing (registry : Registry) (none : ∀ origin name, ¬ introduced origin name) :
    Accounts registry registry introduced :=
  ⟨[], .nothing registry, fun origin name made => absurd made (none origin name)⟩

theorem trans (former : Accounts first second introduced) (latter : Accounts second third others)
    (covers : ∀ origin name, all origin name → introduced origin name ∨ others origin name) :
    Accounts first third all := by
  obtain ⟨record, issues, recorded⟩ := former
  obtain ⟨more, moreIssues, moreRecorded⟩ := latter
  refine ⟨record ++ more, ?_, fun origin name made => List.mem_append.mpr ?_⟩
  · rw [List.map_append]
    exact issues.trans moreIssues
  · exact (covers origin name made).imp (recorded origin name) (moreRecorded origin name)

theorem mono (accounts : Accounts first second introduced)
    (covers : ∀ origin name, all origin name → introduced origin name) : Accounts first second all := by
  obtain ⟨record, issues, recorded⟩ := accounts
  exact ⟨record, issues, fun origin name made => recorded origin name (covers origin name made)⟩

theorem ofNumbered {names : List String} (issues : Issues first second names) (origin : Nat → Origin)
    (numbered : ∀ given name, introduced given name →
      ∃ number, given = origin number ∧ names[number]? = some name) : Accounts first second introduced := by
  refine ⟨names.zipIdx.map fun entry => (origin entry.2, entry.1), ?_, fun given name made => ?_⟩
  · have same : (names.zipIdx.map fun entry => (origin entry.2, entry.1)).map Prod.snd = names := by
      rw [List.map_map]
      exact List.zipIdx_map_fst 0 names
    rw [same]
    exact issues
  · obtain ⟨number, rfl, found⟩ := numbered given name made
    exact List.mem_map.mpr ⟨(name, number), List.mem_zipIdx_iff_getElem?.mpr found, rfl⟩

theorem ofOption {name : Option String} (issues : Issues first second name.toList) (origin : Origin)
    (only : ∀ given made, introduced given made → given = origin ∧ name = some made) :
    Accounts first second introduced := by
  refine ofNumbered issues (fun _ => origin) fun given made introduces => ?_
  obtain ⟨same, found⟩ := only given made introduces
  exact ⟨0, same, by rw [found]; rfl⟩

theorem fresh (accounts : Accounts first second introduced) {origin : Origin} {name : String}
    (made : introduced origin name) : name ∉ first.used := by
  obtain ⟨record, issues, recorded⟩ := accounts
  exact issues.fresh name (List.mem_map_of_mem (recorded origin name made))

theorem mem_used (accounts : Accounts first second introduced) {name : String}
    (old : name ∈ first.used) : name ∈ second.used := by
  obtain ⟨record, issues, -⟩ := accounts
  exact issues.mem_used old

theorem unique (accounts : Accounts first second introduced) {origin other : Origin} {name : String}
    (made : introduced origin name) (again : introduced other name) : origin = other := by
  obtain ⟨record, issues, recorded⟩ := accounts
  have same := List.inj_on_of_nodup_map issues.unique (recorded origin name made)
    (recorded other name again) rfl
  exact congrArg Prod.fst same

end Accounts

end Registry

end InlineMacro
