import InlineMacro.Proofs.Pass.RenameCalls
import InlineMacro.Proofs.Pass.ReturnCalls

/-!
# One function of a run

What a function is before its calls become invocations, as a plain function of the registry, and
what the run makes of it. Only the last pass can fail for a function in normal form.
-/

set_option autoImplicit false

namespace InlineMacro

def Run.outcome {α : Type} (run : Run α) (state : RunState) : EStateM.Result Failure Registry α :=
  match run.run state with
  | .ok value after => .ok value after.registry
  | .error failure after => .error failure after.registry

/-- A function on its way to a macro, before its calls become invocations: its form with other
local names, the names of the macro's parameters, the pointer for its value, and the label at its
end. -/
structure Preparation where
  renamed : Function
  arguments : List String
  pointer : Option String
  exit : Option String
  function : Function
  registry : Registry

namespace Preparation

def parameters (preparation : Preparation) : List String :=
  preparation.pointer.toList ++ preparation.arguments

def rename (function : Function) (registry : Registry) : Preparation :=
  let (arguments, renamed, registry) := function.renameLocals registry
  ⟨renamed, arguments, none, none, renamed, registry⟩

def point (plan : MacroPlan) (name : String) (preparation : Preparation) : Preparation :=
  if plan.eligibility.results.contains name then
    let (pointer, registry) := Registry.fresh "retval" preparation.registry
    { preparation with
      pointer := some pointer
      function := preparation.function.throughPointer pointer
      registry := registry }
  else preparation

def linearize (preparation : Preparation) : Preparation :=
  if preparation.function.body.hasReturn then
    let (exit, registry) := Registry.fresh "exit" preparation.registry
    { preparation with
      exit := some exit
      function := preparation.function.jumpingTo exit
      registry := registry }
  else preparation

def namespaced (plan : MacroPlan) (preparation : Preparation) : Preparation :=
  { preparation with function := preparation.function.appendNamespace plan.namespaceName }

end Preparation

def Function.prepare (plan : MacroPlan) (function : Function) (registry : Registry) : Preparation :=
  (((Preparation.rename function registry).point plan function.name).linearize).namespaced plan

def MacroPlan.inside (plan : MacroPlan) : Expansion := ⟨plan.macros, some plan.namespaceName⟩

def MacroPlan.outside (plan : MacroPlan) : Expansion := ⟨plan.macros, none⟩

namespace Run

variable {α β : Type} (state : RunState)

theorem outcome_ok_iff {run : Run α} {state : RunState} {value : α} {registry : Registry} :
    run.outcome state = .ok value registry ↔
      ∃ snapshots, run.run state = .ok value ⟨registry, snapshots⟩ := by
  unfold outcome
  cases run.run state with
  | ok given after =>
    obtain ⟨left, snapshots⟩ := after
    constructor
    · intro same
      cases same
      exact ⟨snapshots, rfl⟩
    · rintro ⟨snapshots, same⟩
      cases same
      rfl
  | error failure after => simp

theorem outcome_error_iff {run : Run α} {state : RunState} {failure : Failure} {registry : Registry} :
    run.outcome state = .error failure registry ↔
      ∃ snapshots, run.run state = .error failure ⟨registry, snapshots⟩ := by
  unfold outcome
  cases run.run state with
  | ok value after => simp
  | error given after =>
    obtain ⟨left, snapshots⟩ := after
    constructor
    · intro same
      cases same
      exact ⟨snapshots, rfl⟩
    · rintro ⟨snapshots, same⟩
      cases same
      rfl

theorem outcome_bind (run : Run β) (next : β → Run α) : (run >>= next).outcome state =
      match run.run state with
      | .ok value after => (next value).outcome after
      | .error failure after => .error failure after.registry := by
  rw [outcome, EStateM.run_bind]
  cases run.run state <;> rfl

theorem outcome_bind_of {run : Run β} {next : β → Run α}
    (final : β → Registry → EStateM.Result Failure Registry α)
    (ends : ∀ value after, (next value).outcome after = final value after.registry) :
    (run >>= next).outcome state =
      match run.outcome state with
      | .ok value registry => final value registry
      | .error failure registry => .error failure registry := by
  rw [outcome_bind, outcome]
  cases run.run state with
  | ok value after => exact ends value after
  | error failure after => rfl

theorem outcome_map (run : Run β) (change : β → α) :
    (run >>= fun value => pure (change value)).outcome state =
      match run.outcome state with
      | .ok value registry => .ok (change value) registry
      | .error failure registry => .error failure registry :=
  outcome_bind_of state (fun value registry => .ok (change value) registry) fun _ _ => rfl

theorem outcome_snapshot (taken : Snapshot) (next : Unit → Run α) :
    (Run.snapshot taken >>= next).outcome state =
      (next ()).outcome { state with snapshots := state.snapshots ++ [taken] } := rfl

theorem outcome_withRegistry (use : Registry → β × Registry) (next : β → Run α) :
    (Run.withRegistry use >>= next).outcome state =
      (next (use state.registry).1).outcome { state with registry := (use state.registry).2 } := rfl

theorem outcome_pass (function : Function) (work : Pass β) (next : β × Function → Run α) :
    (Run.pass function work >>= next).outcome state =
      match work.run ⟨function, state.registry⟩ with
      | .ok result after =>
        (next (result, after.function)).outcome { state with registry := after.registry }
      | .error failure after => .error failure after.registry := by
  simp only [outcome, pass, EStateM.run_bind, EStateM.run_get]
  cases work.run ⟨function, state.registry⟩ with
  | ok result after => rfl
  | error failure after => rfl

theorem outcome_pass_ok {function : Function} {work : Pass β} {result : β} {after : Work}
    (runs : work.run ⟨function, state.registry⟩ = .ok result after) (next : β × Function → Run α) :
    (Run.pass function work >>= next).outcome state =
      (next (result, after.function)).outcome { state with registry := after.registry } := by
  rw [outcome_pass, runs]

end Run

/-- Statements of a function in blocks, as the passes over returns need them. -/
structure Function.IsBraced (function : Function) : Prop where
  braced : function.body.Braced
  isBlock : function.body.isBlock

variable {function : Function}

theorem Function.IsBraced.throughPointer (form : function.IsBraced)
    (pointer : String) : (function.throughPointer pointer).IsBraced := by
  have restated : Function.RestatedFrom (fun _ => false) .assigned function
      (function.throughPointer pointer) :=
    Function.throughPointer_restatedFrom rfl (by simp) form.braced form.isBlock
  exact ⟨restated.braced, restated.isBlock⟩

def Function.expandCalls (plan : MacroPlan) (name : String) (parameters : List String)
    (function : Function) : Run (String × Function) := do
  let (_, function) ← Run.pass function (Pass.invokeMacros plan.inside)
  Run.snapshot (.function name "namespaced" function)
  match plan.macros.find? name with
  | some macroName =>
    pure (function.macroText macroName plan.namespaceName parameters, function)
  | none => throw (.internal ("no macro name for '" ++ name ++ "'"))

variable {macroName : String}

theorem Function.expandCalls_outcome (plan : MacroPlan) {name : String}
    (named : plan.macros.find? name = some macroName) (parameters : List String)
    (function : Function) (state : RunState) : (function.expandCalls plan name parameters).outcome state =
      match (Pass.invokeMacros plan.inside).run ⟨function, state.registry⟩ with
      | .ok _ work =>
        .ok (work.function.macroText macroName plan.namespaceName parameters, work.function) work.registry
      | .error failure work => .error failure work.registry := by
  rw [Function.expandCalls, Run.outcome_pass, named]
  cases (Pass.invokeMacros plan.inside).run ⟨function, state.registry⟩ <;> rfl

def Function.finishMacro (plan : MacroPlan) (name : String) (parameters : List String)
    (function : Function) : Run (String × Function) := do
  let (exit, function) ← Run.pass function Pass.linearize
  if exit.isSome then Run.snapshot (.function name "linearized" function)
  (function.appendNamespace plan.namespaceName).expandCalls plan name parameters

theorem Function.finishMacro_outcome (plan : MacroPlan) {name : String}
    (named : plan.macros.find? name = some macroName) (parameters : List String)
    (preparation : Preparation) (form : preparation.function.IsBraced) (snapshots : List Snapshot) :
    (preparation.function.finishMacro plan name parameters).outcome ⟨preparation.registry, snapshots⟩ =
      let linear := preparation.linearize
      match (Pass.invokeMacros plan.inside).run
        ⟨linear.function.appendNamespace plan.namespaceName, linear.registry⟩ with
      | .ok _ work =>
        .ok (work.function.macroText macroName plan.namespaceName parameters, work.function) work.registry
      | .error failure work => .error failure work.registry := by
  have linear := Pass.linearize_run preparation.function preparation.registry form.braced form.isBlock
  rw [Function.finishMacro, Preparation.linearize]
  cases returns : preparation.function.body.hasReturn with
  | true =>
    rw [returns, if_pos rfl] at linear
    rw [Run.outcome_pass_ok _ linear]
    exact Function.expandCalls_outcome plan named parameters _ _
  | false =>
    rw [returns, if_neg Bool.false_ne_true] at linear
    rw [Run.outcome_pass_ok _ linear]
    exact Function.expandCalls_outcome plan named parameters _ _

theorem Preparation.parameters_namespaced_linearize (plan : MacroPlan) (preparation : Preparation) :
    (preparation.linearize.namespaced plan).parameters = preparation.parameters := by
  unfold Preparation.linearize
  split <;> rfl

theorem Function.toMacro_outcome (plan : MacroPlan)
    (named : plan.macros.find? function.name = some macroName) (state : RunState)
    (form : (function.renameLocals state.registry).2.1.IsBraced) : (function.toMacro plan).outcome state =
      let preparation := function.prepare plan state.registry
      match (Pass.invokeMacros plan.inside).run ⟨preparation.function, preparation.registry⟩ with
      | .ok _ work =>
        .ok (work.function.macroText macroName plan.namespaceName preparation.parameters,
          work.function) work.registry
      | .error failure work => .error failure work.registry := by
  rw [Function.toMacro, Run.outcome_snapshot, Run.outcome_withRegistry]
  dsimp only
  rw [Run.outcome_snapshot]
  have renamed : Preparation.rename function state.registry =
      ⟨(function.renameLocals state.registry).2.1, (function.renameLocals state.registry).1, none,
        none, (function.renameLocals state.registry).2.1,
        (function.renameLocals state.registry).2.2⟩ := rfl
  have runs := Pass.returnThroughPointer_run (function.renameLocals state.registry).2.1
    (function.renameLocals state.registry).2.2 form.braced form.isBlock
  simp only [Function.prepare, Preparation.point, renamed]
  generalize function.renameLocals state.registry = result at form runs ⊢
  cases pointed : plan.eligibility.results.contains function.name with
  | true =>
    simp only [if_true]
    rw [Run.outcome_pass_ok _ runs, Preparation.parameters_namespaced_linearize]
    exact Function.finishMacro_outcome plan named _
      ⟨result.2.1, result.1, some (result.2.2.fresh "retval").1, none,
        result.2.1.throughPointer (result.2.2.fresh "retval").1, (result.2.2.fresh "retval").2⟩
      (form.throughPointer _) _
  | false =>
    simp only [Bool.false_eq_true, if_false]
    rw [Preparation.parameters_namespaced_linearize]
    exact Function.finishMacro_outcome plan named _
      ⟨result.2.1, result.1, none, none, result.2.1, result.2.2⟩ form _

theorem Function.IsBraced.renameLocals (form : function.IsBraced)
    (registry : Registry) : (function.renameLocals registry).2.1.IsBraced := by
  have renamed : Function.RenamedFrom (fun _ => false) function (function.renameLocals registry).2.1
      (function.renameLocals registry).2.2 :=
    function.renameLocals_renamedFrom registry form.braced form.isBlock fun _ known => by cases known
  exact ⟨renamed.braced, renamed.isBlock⟩

/-! ## Processing -/

def Function.expand (plan : MacroPlan) (function : Function) (registry : Registry) :
    EStateM.Result Failure Work Unit :=
  if plan.eligibility.isEligible function.name then
    let preparation := function.prepare plan registry
    (Pass.invokeMacros plan.inside).run ⟨preparation.function, preparation.registry⟩
  else (Pass.invokeMacros plan.outside).run ⟨function, registry⟩

def MacroPlan.write (plan : MacroPlan) (texts : Association String) (function : Function)
    (registry : Registry) (result : Function) : Association String :=
  if plan.eligibility.isEligible function.name then
    match plan.macros.find? function.name with
    | some macroName =>
      texts.insert result.name (result.macroText macroName plan.namespaceName
        (function.prepare plan registry).parameters)
    | none => texts
  else texts

def MacroPlan.IsNamed (plan : MacroPlan) : Prop :=
  ∀ name, plan.eligibility.isEligible name → ∃ macroName, plan.macros.find? name = some macroName

theorem Function.process_outcome {plan : MacroPlan} (named : plan.IsNamed)
    (form : function.IsBraced) (texts : Association String) (state : RunState) :
    (function.process plan texts).outcome state =
      match function.expand plan state.registry with
      | .ok _ work =>
        .ok (plan.write texts function state.registry work.function, work.function) work.registry
      | .error failure work => .error failure work.registry := by
  unfold Function.process Function.expand MacroPlan.write
  cases eligible : plan.eligibility.isEligible function.name with
  | true =>
    obtain ⟨macroName, found⟩ := named function.name eligible
    simp only [if_true, found]
    rw [Run.outcome_map, function.toMacro_outcome plan found state (form.renameLocals state.registry)]
    dsimp only
    cases (Pass.invokeMacros plan.inside).run ⟨(function.prepare plan state.registry).function,
      (function.prepare plan state.registry).registry⟩ <;> rfl
  | false =>
    simp only [Bool.false_eq_true, if_false]
    rw [Run.outcome_pass, MacroPlan.outside]
    cases (Pass.invokeMacros ⟨plan.macros, none⟩).run ⟨function, state.registry⟩ <;> rfl

end InlineMacro
