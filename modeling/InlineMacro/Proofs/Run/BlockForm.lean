import InlineMacro.Proofs.Pass.Rewriting
import InlineMacro.Proofs.Run.Success
import InlineMacro.Proofs.Scope.Recast

/-!
# Block form behind the passes

Normalization brings each parsed function into block form: the bodies of branches and loops are
blocks, every `if` has its `else`, and a label marks a block, nothing or another label. Each pass
leaves a function in block form, also one that fails halfway, so the passes may follow each other in
any order. Returns stand in blocks then, which is what the passes over returns ask for.
-/

set_option autoImplicit false

namespace InlineMacro

/-! ## Returns in blocks -/

namespace Statement

def inside : Statement → List Statement
  | .forLoop _ (some init) _ _ body => [init, body]
  | statement => statement.bodies

def ReturnsInBlocks (statement : Statement) : Prop :=
  ∀ part ∈ statement.parts, part.isBlock = false → ∀ inner ∈ part.inside, inner.isReturn = false

theorem IsLoopHead.not_isReturn {statement : Statement} (head : statement.IsLoopHead) :
    statement.isReturn = false := by
  cases head <;> rfl

theorem IsLoopHead.parts {statement : Statement} (head : statement.IsLoopHead) :
    statement.parts = [statement] := by
  cases head <;> simp

namespace Braced

variable {statement : Statement}

theorem not_isReturn_inside (braced : statement.Braced) (notBlock : statement.isBlock = false) :
    ∀ inner ∈ statement.inside, inner.isReturn = false := by
  cases braced with
  | block span statements each => cases notBlock
  | ifElse _ _ _ _ thenBlock elseBlock =>
    simpa [inside, Statement.bodies] using
      ⟨not_isReturn_of_isBlock thenBlock, not_isReturn_of_isBlock elseBlock⟩
  | forLoop _ _ _ _ _ head isBlock =>
    simpa [inside] using ⟨head.not_isReturn, not_isReturn_of_isBlock isBlock⟩
  | whileLoop _ _ _ isBlock | bareLoop _ _ _ _ isBlock | doWhile _ _ _ isBlock
  | switch _ _ _ isBlock =>
    simpa [inside, Statement.bodies] using not_isReturn_of_isBlock isBlock
  | caseLabel _ _ _ marked | defaultLabel _ _ marked | labelled _ _ _ marked =>
    simpa [inside, Statement.bodies] using not_isReturn_of_isMarked marked
  | _ => simp [inside, Statement.bodies]

theorem parts (braced : statement.Braced) : ∀ part ∈ statement.parts, part.Braced := by
  induction braced with
  | block span statements each ih =>
    rw [parts_block, List.forall_mem_cons]
    constructor
    · exact .block span statements each
    · intro part member
      obtain ⟨entry, among, found⟩ := List.mem_flatMap.mp member
      exact ih entry among part found
  | ifElse span condition thenBranch elseBranch thenBlock elseBlock thenBraced elseBraced
      thenIh elseIh =>
    rw [parts_ifElse, List.forall_mem_cons, List.forall_mem_append]
    exact ⟨.ifElse _ _ _ _ thenBlock elseBlock thenBraced elseBraced, thenIh, elseIh⟩
  | whileLoop _ _ _ isBlock braced ih =>
    rw [parts_whileLoop, List.forall_mem_cons]
    exact ⟨.whileLoop _ _ _ isBlock braced, ih⟩
  | bareLoop _ _ _ _ isBlock braced ih =>
    rw [parts_bareLoop, List.forall_mem_cons]
    exact ⟨.bareLoop _ _ _ _ isBlock braced, ih⟩
  | forLoop _ _ _ _ _ head isBlock braced ih =>
    rw [parts_forLoop, List.forall_mem_cons, List.forall_mem_append, head.parts, List.forall_mem_singleton]
    exact ⟨.forLoop _ _ _ _ _ head isBlock braced, head.braced, ih⟩
  | doWhile _ _ _ isBlock braced ih =>
    rw [parts_doWhile, List.forall_mem_cons]
    exact ⟨.doWhile _ _ _ isBlock braced, ih⟩
  | switch _ _ _ isBlock braced ih =>
    rw [parts_switch, List.forall_mem_cons]
    exact ⟨.switch _ _ _ isBlock braced, ih⟩
  | caseLabel _ _ _ marked braced ih =>
    rw [parts_caseLabel, List.forall_mem_cons]
    exact ⟨.caseLabel _ _ _ marked braced, ih⟩
  | defaultLabel _ _ marked braced ih =>
    rw [parts_defaultLabel, List.forall_mem_cons]
    exact ⟨.defaultLabel _ _ marked braced, ih⟩
  | labelled _ _ _ marked braced ih =>
    rw [parts_labelled, List.forall_mem_cons]
    exact ⟨.labelled _ _ _ marked braced, ih⟩
  | expression span value => simpa using Braced.expression span value
  | declaration span declarations => simpa using Braced.declaration span declarations
  | typeDefinition span type => simpa using Braced.typeDefinition span type
  | returnStatement span value => simpa using Braced.returnStatement span value
  | gotoStatement span label => simpa using Braced.gotoStatement span label
  | breakStatement span => exact List.forall_mem_singleton.mpr (.breakStatement span)
  | continueStatement span => exact List.forall_mem_singleton.mpr (.continueStatement span)
  | empty span => exact List.forall_mem_singleton.mpr (.empty span)

theorem returnsInBlocks (braced : statement.Braced) : statement.ReturnsInBlocks := by
  intro part member
  exact (braced.parts part member).not_isReturn_inside

end Braced

end Statement

/-! ## Passes one after another -/

namespace Function

def leftBy {α : Type} (pass : Pass α) (function : Function) (registry : Registry) : Function :=
  match pass.run ⟨function, registry⟩ with
  | .ok _ work => work.function
  | .error _ work => work.function

/-- The passes over one function, and what each makes of it. -/
inductive Passes : Function → Function → Prop where
  | flattenCalls (function : Function) (targets : Association CType) (registry : Registry) :
      Passes function (function.flattenCalls targets registry).1
  | renameLocals (function : Function) (registry : Registry) :
      Passes function (function.renameLocals registry).2.1
  | returnThroughPointer (function : Function) (registry : Registry) :
      Passes function (function.leftBy Pass.returnThroughPointer registry)
  | linearize (function : Function) (registry : Registry) :
      Passes function (function.leftBy Pass.linearize registry)
  | appendNamespace (function : Function) (namespaceName : String) :
      Passes function (function.appendNamespace namespaceName)
  | invokeMacros (function : Function) (expansion : Expansion) (registry : Registry) :
      Passes function (function.leftBy (Pass.invokeMacros expansion) registry)

namespace IsBraced

variable {function : Function} (form : function.IsBraced)

include form

theorem flattenCalls (targets : Association CType) (registry : Registry) :
    (function.flattenCalls targets registry).1.IsBraced := by
  obtain ⟨temporaries, body, flattening⟩ := function.flattenCalls_flattening targets registry
  obtain ⟨braced, isBlock⟩ := flattening.form form.braced form.isBlock
  exact ⟨braced, isBlock⟩

theorem jumpingTo (exit : String) : (function.jumpingTo exit).IsBraced := by
  have restated : Function.RestatedFrom (fun _ => false) .whole function (function.jumpingTo exit) :=
    function.jumpingTo_restatedFrom exit (by simp) form.braced form.isBlock
  exact ⟨restated.braced, restated.isBlock⟩

theorem appendNamespace (namespaceName : String) : (function.appendNamespace namespaceName).IsBraced := by
  have restated : Function.RestatedFrom (fun _ => false) .whole function
      (function.appendNamespace namespaceName) :=
    function.appendNamespace_restatedFrom namespaceName (by simp) form.braced form.isBlock
  exact ⟨restated.braced, restated.isBlock⟩

theorem returnThroughPointer (registry : Registry) :
    ∃ pointer work, Pass.returnThroughPointer.run ⟨function, registry⟩ = .ok pointer work ∧
      work.function.IsBraced :=
  ⟨_, _, Pass.returnThroughPointer_run function registry form.braced form.isBlock, form.throughPointer _⟩

theorem linearize (registry : Registry) :
    ∃ exit work, Pass.linearize.run ⟨function, registry⟩ = .ok exit work ∧ work.function.IsBraced := by
  have runs := Pass.linearize_run function registry form.braced form.isBlock
  split at runs
  · exact ⟨_, _, runs, form.jumpingTo _⟩
  · exact ⟨_, _, runs, form⟩

theorem invokeMacros (expansion : Expansion) (registry : Registry) :
    (function.leftBy (Pass.invokeMacros expansion) registry).IsBraced := by
  have formed : Ensures (Invoking.statement expansion function.body)
      ⟨.ofFunction function, registry, none⟩ fun result _ => function.body.BracedAs result :=
    Invoking.statement_braced form.braced _
  unfold leftBy
  rw [Pass.invokeMacros_run]
  unfold Ensures at formed
  generalize (Invoking.statement expansion function.body).run
    ⟨.ofFunction function, registry, none⟩ = result at formed
  obtain ⟨body, locals, after, stray⟩ := result
  cases stray <;> exact ⟨formed.braced, formed.same.isBlock.trans form.isBlock⟩

theorem pass {result : Function} (passes : function.Passes result) : result.IsBraced := by
  cases passes with
  | flattenCalls targets registry => exact form.flattenCalls targets registry
  | renameLocals registry => exact form.renameLocals registry
  | returnThroughPointer registry =>
    obtain ⟨pointer, work, runs, kept⟩ := form.returnThroughPointer registry
    simpa only [leftBy, runs] using kept
  | linearize registry =>
    obtain ⟨exit, work, runs, kept⟩ := form.linearize registry
    simpa only [leftBy, runs] using kept
  | appendNamespace namespaceName => exact form.appendNamespace namespaceName
  | invokeMacros expansion registry => exact form.invokeMacros expansion registry

theorem passes {result : Function} (passes : Relation.ReflTransGen Passes function result) :
    result.IsBraced := by
  induction passes with
  | refl => exact form
  | tail _ last kept => exact kept.pass last

end IsBraced

end Function

namespace CompilationUnit

/-- A parsed function is in block form behind normalization and behind any passes that follow.
Each pass keeps block form, in which returns stand in blocks and the passes over returns do not
fail. -/
theorem blockForm_kept {text file : String} {typedefs : List String} {unit : CompilationUnit}
    (parses : CompilationUnit.parse text file typedefs = .ok unit) {function : Function}
    (member : function ∈ unit.functions) :
    (∀ result, Relation.ReflTransGen Function.Passes function.normalize result →
      result.IsBraced) ∧
    (∀ entry result : Function, entry.IsBraced → entry.Passes result → result.IsBraced) ∧
    ∀ entry : Function, entry.IsBraced →
      entry.body.ReturnsInBlocks ∧
      (∀ registry, ∃ pointer work,
        Pass.returnThroughPointer.run ⟨entry, registry⟩ = .ok pointer work) ∧
      ∀ registry, ∃ exit work, Pass.linearize.run ⟨entry, registry⟩ = .ok exit work := by
  obtain ⟨isBlock, heads⟩ := isFormed_of_parse parses function member
  have form : function.normalize.IsBraced :=
    ⟨Function.braced_normalize heads, Function.isBlock_normalize isBlock⟩
  constructor
  · exact fun result passes => form.passes passes
  constructor
  · exact fun entry result form passes => form.pass passes
  · intro entry form
    refine ⟨form.braced.returnsInBlocks, fun registry => ?_, fun registry => ?_⟩
    · obtain ⟨pointer, work, runs, -⟩ := form.returnThroughPointer registry
      exact ⟨pointer, work, runs⟩
    · obtain ⟨exit, work, runs, -⟩ := form.linearize registry
      exact ⟨exit, work, runs⟩

theorem blockForm_kept_of_bare_branches :
    ∃ unit, CompilationUnit.parse
        "inline int g(int n) \x7b for (int i = 0; i < n; i++) if (i) return i; done: return n; \x7d"
          = .ok unit ∧
      ∃ function ∈ unit.functions,
        (∀ result, Relation.ReflTransGen Function.Passes function.normalize result →
          result.IsBraced) ∧
        (∀ entry result : Function, entry.IsBraced → entry.Passes result → result.IsBraced) ∧
        ∀ entry : Function, entry.IsBraced →
          entry.body.ReturnsInBlocks ∧
          (∀ registry, ∃ pointer work,
            Pass.returnThroughPointer.run ⟨entry, registry⟩ = .ok pointer work) ∧
          ∀ registry, ∃ exit work, Pass.linearize.run ⟨entry, registry⟩ = .ok exit work := by
  refine exists_parsed _ (fun unit => !unit.functions.isEmpty) (by decide +kernel) ?_
  intro unit parses checked
  cases functions : unit.functions with
  | nil =>
    rw [functions] at checked
    cases checked
  | cons function rest =>
    refine ⟨function, by simp, blockForm_kept parses ?_⟩
    rw [functions]
    exact List.mem_cons_self

end CompilationUnit

end InlineMacro
