import InlineMacro.Proofs.Pass.RenameCalls
import InlineMacro.Proofs.Run.Origin

/-!
# Names from renaming

Renaming declares every object under a name from the registry. Two declarations get the same name
only where both are of one name in one scope, so a record of the names that have been given out says
for each of them which scope and which name it was given out for.
-/

set_option autoImplicit false

namespace InlineMacro

namespace Renaming

/-- The names that have been given out since the registry was in a state, with what they are for. An
alias that a declaration in the open scope finds is among them. -/
structure Recorded (start : Registry) (opened : String → Origin) (state : RenameState)
    (record : List (Origin × String)) : Prop where
  issues : Registry.Issues start state.registry (record.map Prod.snd)
  current : ∀ name given, state.table.current.find? name = some ⟨given, false⟩ →
    (opened name, given) ∈ record

variable {start : Registry} {opened : String → Origin} {state : RenameState}
  {record : List (Origin × String)}

theorem Recorded.enter (recorded : Recorded start opened state record) (inner : String → Origin) :
    Recorded start inner { state with table := state.table.enter } record :=
  ⟨recorded.issues, fun _ _ found => by cases found⟩

def Named (function : Nat) (record : List (Origin × String))
    (given result : List Nat × Declaration) : Prop :=
  result.1 = given.1 ∧ (keepsName given.2.type given.2.storage = false →
    (.object function given.1 given.2.name, result.2.name) ∈ record)

theorem Named.mono {function : Nat} {later : List (Origin × String)} (older : record ⊆ later)
    {given result : List Nat × Declaration} (named : Named function record given result) :
    Named function later given result :=
  ⟨named.1, fun renamed => older (named.2 renamed)⟩

/-- What renaming a part of a function adds to the record, and the declarations in the part. -/
structure Continues (start : Registry) (opened : String → Origin) (function : Nat)
    (state : RenameState) (record : List (Origin × String))
    (given result : List (List Nat × Declaration)) (after : RenameState)
    (later : List (Origin × String)) : Prop where
  outer : after.table.outer = state.table.outer
  older : record ⊆ later
  recorded : Recorded start opened after later
  named : List.Forall₂ (Named function later) given result

namespace Continues

variable {function : Nat} {middle after : RenameState} {between later : List (Origin × String)}
  {given result others otherResults : List (List Nat × Declaration)}

theorem nothing (recorded : Recorded start opened state record) :
    Continues start opened function state record [] [] state record :=
  ⟨rfl, List.Subset.refl _, recorded, .nil⟩

theorem append (former : Continues start opened function state record given result middle between)
    (latter : Continues start opened function middle between others otherResults after later) :
    Continues start opened function state record (given ++ others) (result ++ otherResults) after
      later where
  outer := latter.outer.trans former.outer
  older := List.Subset.trans former.older latter.older
  recorded := latter.recorded
  named := List.rel_append (former.named.imp fun _ _ named => named.mono latter.older) latter.named

theorem leave (recorded : Recorded start opened state record) {inner : String → Origin}
    (continues : Continues start inner function { state with table := state.table.enter } record
      given result after later) :
    Continues start opened function state record given result
      { after with table := after.table.leave } later := by
  have closed := closed_table continues.outer
  refine ⟨?_, continues.older, ⟨continues.recorded.issues, ?_⟩, continues.named⟩
  · change after.table.leave.outer = _
    rw [closed]
  · intro name known found
    change after.table.leave.current.find? name = _ at found
    rw [closed] at found
    exact continues.older (recorded.current name known found)

end Continues

/-! ## Declarations -/

theorem Recorded.set (recorded : Recorded start opened state record) (name : String) :
    Recorded start opened
      ⟨state.table.set name ⟨(state.registry.fresh name).1, false⟩, (state.registry.fresh name).2⟩
      (record ++ [(opened name, (state.registry.fresh name).1)]) where
  issues := by
    rw [List.map_append]
    exact recorded.issues.trans (Registry.fresh_issues name state.registry)
  current other known found := by
    change (state.table.current.insert name _).find? other = _ at found
    rw [Association.find?_insert] at found
    split at found
    · next same =>
      cases found
      rw [same]
      exact List.mem_append_right _ List.mem_cons_self
    · exact List.mem_append_left _ (recorded.current other known found)

theorem Recorded.bind (recorded : Recorded start opened state record) (name known : String) :
    Recorded start opened { state with table := state.table.bind name known } record where
  issues := recorded.issues
  current other given found := by
    change (state.table.current.insert name _).find? other = _ at found
    rw [Association.find?_insert] at found
    split at found
    · cases found
    · exact recorded.current other given found

theorem declare_recorded (name : String) (recorded : Recorded start opened state record) :
    Ensures (declare name) state fun given after => ∃ later, record ⊆ later ∧
      after.table.outer = state.table.outer ∧ Recorded start opened after later ∧
        (opened name, given) ∈ later := by
  refine declare_cases (fun given found _ => ?_) fun _ => ?_
  · exact ⟨record, List.Subset.refl _, rfl, recorded, recorded.current name given found⟩
  · exact ⟨_, List.subset_append_left _ _, rfl, recorded.set name, List.mem_append_right _ List.mem_cons_self⟩

theorem initializer_ensures (value : Option Initializer) (state : RenameState) :
    Ensures (option initializer value) state fun result after =>
      result = value.map (fun value => Id.run (value.traverse (aliasing state.table))) ∧
        state = after := by
  cases value <;> exact ⟨rfl, rfl⟩

theorem declaration_recorded (function : Nat) (scope : List Nat) (given : Declaration)
    (recorded : Recorded start (.object function scope) state record) :
    Ensures (declaration given) state fun result after => ∃ later,
      Continues start (.object function scope) function state record [(scope, given)]
        [(scope, result)] after later := by
  have typed : Ensures (type given.type) state fun result after =>
      result = Id.run (given.type.traverse (aliasing state.table)) ∧ state = after := ⟨rfl, rfl⟩
  refine typed.bind fun renamedType same holds => ?_
  obtain ⟨rfl, rfl⟩ := holds
  rw [keepsName_traverse]
  cases kept : keepsName given.type given.storage with
  | true =>
    let bound : RenameState := { state with table := state.table.bind given.name given.name }
    have named : Ensures (pure given.name : Renaming String) bound fun _ after => bound = after := rfl
    refine .bindModify (named.bind fun name middle same => ?_)
    subst same
    refine (initializer_ensures _ _).bind fun initializer after holds => ?_
    obtain ⟨-, rfl⟩ := holds
    refine .pure ⟨record, rfl, List.Subset.refl _, recorded.bind _ _, .cons ⟨rfl, ?_⟩ .nil⟩
    rw [kept]
    exact fun renamed => absurd renamed.symm Bool.false_ne_true
  | false =>
    refine (declare_recorded given.name recorded).bind fun name middle holds => ?_
    obtain ⟨later, older, outer, recorded, made⟩ := holds
    refine (initializer_ensures _ _).bind fun initializer after holds => ?_
    obtain ⟨-, rfl⟩ := holds
    exact .pure ⟨later, outer, older, recorded, .cons ⟨rfl, fun _ => made⟩ .nil⟩

theorem declarations_recorded (function : Nat) (scope : List Nat) (given : List Declaration)
    (recorded : Recorded start (.object function scope) state record) :
    Ensures (declarations given) state fun result after => ∃ later,
      Continues start (.object function scope) function state record (given.map (scope, ·))
        (result.map (scope, ·)) after later := by
  induction given generalizing state record with
  | nil => exact ⟨record, .nothing recorded⟩
  | cons first rest ih =>
    refine (declaration_recorded function scope first recorded).bind fun renamed middle holds => ?_
    obtain ⟨between, former⟩ := holds
    refine (ih former.recorded).bind fun others after holds => ?_
    obtain ⟨later, latter⟩ := holds
    exact .pure ⟨later, former.append latter⟩

/-! ## Statements -/

def Records (function : Nat) (entry : Statement) : Prop :=
  ∀ (start : Registry) (scope position : List Nat) (state : RenameState)
    (record : List (Origin × String)), Recorded start (.object function scope) state record →
    Ensures (statement entry) state fun result after => ∃ later,
      Continues start (.object function scope) function state record
        (entry.scopedDeclarations scope position) (result.scopedDeclarations scope position) after
        later

variable {function : Nat}

theorem Records.leaf {entry : Statement} (change : AliasTable → Statement)
    (runs : ∀ state : RenameState, (statement entry).run state = (change state.table, state))
    (nothing : ∀ scope position, entry.scopedDeclarations scope position = [])
    (stays : ∀ table scope position, (change table).scopedDeclarations scope position = []) :
    Records function entry := by
  intro start scope position state record recorded
  unfold Ensures
  rw [runs, nothing]
  refine ⟨record, ?_⟩
  rw [stays]
  exact .nothing recorded

theorem statements_recorded {entries : List Statement}
    (each : ∀ entry ∈ entries, Records function entry) {scope : List Nat} (position : List Nat)
    (number : Nat) (recorded : Recorded start (.object function scope) state record) :
    Ensures (statements entries) state fun result after => ∃ later,
      Continues start (.object function scope) function state record
        (Statement.listScopedDeclarations scope position number entries)
        (Statement.listScopedDeclarations scope position number result) after later := by
  induction entries generalizing state record number with
  | nil =>
    rw [statements]
    exact ⟨record, .nothing recorded⟩
  | cons entry entries ih =>
    rw [statements]
    refine (each entry (by simp) start scope (number :: position) state record recorded).bind
      fun first middle holds => ?_
    obtain ⟨between, former⟩ := holds
    refine (ih (fun other member => each other (by simp [member])) (number + 1)
      former.recorded).bind fun rest after holds => ?_
    obtain ⟨later, latter⟩ := holds
    exact .pure ⟨later, former.append latter⟩

theorem block_recorded {entries : List Statement} (each : ∀ entry ∈ entries, Records function entry)
    (span : Span) (scope position : List Nat) (recorded : Recorded start opened state record) :
    Ensures (statement (.block span entries)) state fun result after => ∃ later,
      Continues start opened function state record
        ((Statement.block span entries).scopedDeclarations scope position)
        (result.scopedDeclarations scope position) after later := by
  rw [statement]
  refine .bindModify ((statements_recorded each position 0
    (recorded.enter (.object function position))).bind fun result after holds => ?_)
  obtain ⟨later, continues⟩ := holds
  exact .bindModify (.pure ⟨later, continues.leave recorded⟩)

theorem statement_records (entry : Statement) : Records function entry := by
  induction entry with
  | expression span value =>
    refine .leaf (fun table => .expression span (Id.run (value.traverse (aliasing table))))
      (fun state => ?_) (fun _ _ => rfl) fun _ _ _ => rfl
    rw [statement]
    rfl
  | typeDefinition span type =>
    refine .leaf (fun table => .typeDefinition span (Id.run (type.traverse (aliasing table))))
      (fun state => ?_) (fun _ _ => rfl) fun _ _ _ => rfl
    rw [statement]
    rfl
  | returnStatement span value =>
    refine .leaf (fun table => .returnStatement span (value.map fun value =>
      Id.run (value.traverse (aliasing table)))) (fun state => ?_) (fun _ _ => rfl) fun _ _ _ => rfl
    rw [statement]
    cases value <;> rfl
  | breakStatement | continueStatement | gotoStatement | empty =>
    exact .leaf (fun _ => _) (fun _ => by rw [statement]; rfl) (fun _ _ => rfl) fun _ _ _ => rfl
  | declaration span given =>
    intro start scope position state record recorded
    rw [statement]
    exact (declarations_recorded function scope given recorded).bind fun result after holds =>
      .pure holds
  | block span entries ih =>
    intro start scope position state record recorded
    exact block_recorded ih span scope position recorded
  | ifThen span condition thenBranch ih =>
    intro start scope position state record recorded
    rw [statement]
    refine (expr_ensures condition state).bind fun value same holds => ?_
    obtain ⟨-, rfl⟩ := holds
    exact (ih start scope (0 :: position) state record recorded).bind fun result after holds => .pure holds
  | ifElse span condition thenBranch elseBranch thenIh elseIh =>
    intro start scope position state record recorded
    rw [statement]
    refine (expr_ensures condition state).bind fun value same holds => ?_
    obtain ⟨-, rfl⟩ := holds
    refine (thenIh start scope (0 :: position) state record recorded).bind fun result middle holds => ?_
    obtain ⟨between, former⟩ := holds
    refine (elseIh start scope (1 :: position) middle between former.recorded).bind fun other after holds => ?_
    obtain ⟨later, latter⟩ := holds
    exact .pure ⟨later, former.append latter⟩
  | whileLoop span value body ih | switch span value body ih | caseLabel span value body ih =>
    intro start scope position state record recorded
    rw [statement]
    refine (expr_ensures value state).bind fun renamed same holds => ?_
    obtain ⟨-, rfl⟩ := holds
    exact (ih start scope (0 :: position) state record recorded).bind fun result after holds => .pure holds
  | bareLoop span condition update body ih =>
    intro start scope position state record recorded
    rw [statement]
    refine (option_ensures condition state).bind fun first same holds => ?_
    obtain ⟨-, rfl⟩ := holds
    refine (option_ensures update state).bind fun second same holds => ?_
    obtain ⟨-, rfl⟩ := holds
    exact (ih start scope (0 :: position) state record recorded).bind fun result after holds => .pure holds
  | forLoop span init condition update body initIh bodyIh =>
    intro start scope position state record recorded
    rw [statement]
    refine .bindModify ((initIh start position (0 :: position) _ record
      (recorded.enter (.object function position))).bind fun head middle holds => ?_)
    obtain ⟨between, former⟩ := holds
    refine (option_ensures condition middle).bind fun first same holds => ?_
    obtain ⟨-, rfl⟩ := holds
    refine (option_ensures update middle).bind fun second same holds => ?_
    obtain ⟨-, rfl⟩ := holds
    refine (bodyIh start position (1 :: position) middle between former.recorded).bind fun result after holds => ?_
    obtain ⟨later, latter⟩ := holds
    exact .bindModify (.pure ⟨later, (former.append latter).leave recorded⟩)
  | doWhile span body condition ih =>
    intro start scope position state record recorded
    rw [statement]
    refine (ih start scope (0 :: position) state record recorded).bind fun result after holds => ?_
    refine (expr_ensures condition after).bind fun value same sameHolds => ?_
    obtain ⟨-, rfl⟩ := sameHolds
    exact .pure holds
  | defaultLabel _ _ ih | labelled _ _ _ ih =>
    intro start scope position state record recorded
    rw [statement]
    exact (ih start scope (0 :: position) state record recorded).bind fun result after holds => .pure holds

/-! ## Parameters -/

/-- The names of a parameter of the macro and of the copy of its argument stand in a record. -/
structure NamedParameter (function : Nat) (record : List (Origin × String)) (number : Nat)
    (given : Parameter) (result : RenamedParameter) : Prop where
  argument : ∀ name, result.parameter.name = some name →
    (.argument function number, name) ∈ record
  copy : ∀ declared, result.copy = some (.ofDeclaration declared) →
    ∃ stem, given.name = some stem ∧ (.copy function stem, declared.name) ∈ record

theorem NamedParameter.mono {later : List (Origin × String)} (older : record ⊆ later) {number : Nat}
    {given : Parameter} {result : RenamedParameter}
    (named : NamedParameter function record number given result) :
    NamedParameter function later number given result where
  argument name same := older (named.argument name same)
  copy declared same := by
    obtain ⟨stem, stemmed, made⟩ := named.copy declared same
    exact ⟨stem, stemmed, older made⟩

theorem fresh_recorded (stem : String) (origin : Origin) (recorded : Recorded start opened state record) :
    Ensures (fresh stem) state fun name after =>
      Recorded start opened after (record ++ [(origin, name)]) := by
  refine .bindGet (.bindSet (.pure ⟨?_, fun name given found => ?_⟩))
  · rw [List.map_append]
    exact recorded.issues.trans (Registry.fresh_issues stem state.registry)
  · exact List.mem_append_left _ (recorded.current name given found)

theorem parameter_recorded (number : Nat) (given : Parameter)
    (recorded : Recorded start (.copy function) state record) :
    Ensures (parameter given) state fun result after => ∃ later, record ⊆ later ∧
      Recorded start (.copy function) after later ∧ NamedParameter function later number given result := by
  obtain ⟨name, given, span⟩ := given
  cases name with
  | none =>
    refine Ensures.pure ⟨record, List.Subset.refl _, recorded, ?_, ?_⟩
    · intro name same
      cases same
    · intro declared same
      cases same
  | some stem =>
    refine (fresh_recorded stem (.argument function number) recorded).bind
      fun argument middle recorded => ?_
    have made : (Origin.argument function number, argument) ∈
        record ++ [(.argument function number, argument)] :=
      List.mem_append_right _ List.mem_cons_self
    have typed : Ensures (type given) middle fun _ after => middle = after := rfl
    refine typed.bind fun renamedType after same => ?_
    subst same
    dsimp only
    split
    · refine (declare_recorded stem recorded).bind fun copied after holds => ?_
      obtain ⟨later, older, -, recorded, copyMade⟩ := holds
      refine .pure ⟨later, fun _ member => older (List.mem_append_left _ member), recorded, ?_, ?_⟩
      · intro name same
        cases same
        exact older made
      · intro declared same
        cases same
        exact ⟨stem, rfl, copyMade⟩
    · refine .bindModify (.pure ⟨_, List.subset_append_left _ _, recorded.bind _ _, ?_, ?_⟩)
      · intro name same
        cases same
        exact made
      · intro declared same
        cases same

theorem parameters_recorded (given : List Parameter) (number : Nat)
    (recorded : Recorded start (.copy function) state record) :
    Ensures (parameters given) state fun result after => ∃ later, record ⊆ later ∧
      Recorded start (.copy function) after later ∧
        ∀ index parameter renamed, given[index]? = some parameter → result[index]? = some renamed →
            NamedParameter function later (number + index) parameter renamed := by
  induction given generalizing state record number with
  | nil => exact Ensures.pure ⟨record, List.Subset.refl _, recorded, fun _ _ _ found => by cases found⟩
  | cons first rest ih =>
    refine (parameter_recorded number first recorded).bind fun renamed middle holds => ?_
    obtain ⟨between, older, recorded, named⟩ := holds
    refine (ih (number + 1) recorded).bind fun others after holds => ?_
    obtain ⟨later, olderToo, recorded, namedToo⟩ := holds
    refine .pure ⟨later, List.Subset.trans older olderToo, recorded, fun index parameter result found given => ?_⟩
    cases index with
    | zero =>
      cases found
      cases given
      exact named.mono olderToo
    | succ index =>
      have behind := namedToo index parameter result found given
      rwa [Nat.add_right_comm] at behind

end Renaming

/-! ## Functions -/

def Function.renamedParts (function : Function) (registry : Registry) :
    List Renaming.RenamedParameter × Statement :=
  ((Renaming.whole function).run ⟨{}, registry⟩).1

/-- The names that renaming makes up in the function with a number. -/
inductive Function.Renames (number : Nat) (function : Function) (registry : Registry) :
    Origin → String → Prop where
  | argument {index : Nat} {parameter : Parameter} {renamed : Renaming.RenamedParameter}
      {name : String} (given : function.parameters[index]? = some parameter)
      (found : (function.renamedParts registry).1[index]? = some renamed)
      (named : renamed.parameter.name = some name) :
      Renames number function registry (.argument number index) name
  | copy {index : Nat} {parameter : Parameter} {renamed : Renaming.RenamedParameter}
      {name : String} {declared : Declaration}
      (given : function.parameters[index]? = some parameter) (stem : parameter.name = some name)
      (found : (function.renamedParts registry).1[index]? = some renamed)
      (copied : renamed.copy = some (.ofDeclaration declared)) :
      Renames number function registry (.copy number name) declared.name
  | object {given result : List Nat × Declaration}
      (found : (given, result) ∈ function.scopedDeclarations.zip
        ((function.renamedParts registry).2.scopedDeclarations [] []))
      (renamed : Renaming.keepsName given.2.type given.2.storage = false) :
      Renames number function registry (.object number given.1 given.2.name) result.2.name

theorem Renaming.whole_recorded (number : Nat) (function : Function) (registry : Registry)
    (isBlock : function.body.isBlock) : Ensures (whole function) ⟨{}, registry⟩ fun result after => ∃ later,
      Registry.Issues registry after.registry (later.map Prod.snd) ∧
        (∀ index parameter renamed, function.parameters[index]? = some parameter →
          result.1[index]? = some renamed → NamedParameter number later index parameter renamed) ∧
        List.Forall₂ (Named number later) function.scopedDeclarations
          (result.2.scopedDeclarations [] []) := by
  have start : Recorded registry (.copy number) ⟨{}, registry⟩ [] :=
    ⟨.nothing registry, fun _ _ found => by cases found⟩
  refine (parameters_recorded function.parameters 0 start).bind fun parameters middle holds => ?_
  obtain ⟨between, -, recorded, named⟩ := holds
  have body : Ensures (statement function.body) middle fun result after => ∃ later,
      Continues registry (.copy number) number middle between function.scopedDeclarations
        (result.scopedDeclarations [] []) after later := by
    unfold Function.scopedDeclarations
    generalize function.body = body at isBlock
    cases body with
    | block span entries =>
      exact block_recorded (fun entry _ => statement_records entry) span [] [] recorded
    | _ => cases isBlock
  refine body.bind fun result after holds => ?_
  obtain ⟨later, continues⟩ := holds
  refine .pure ⟨later, continues.recorded.issues, fun index parameter renamed given found => ?_,
    continues.named⟩
  have parameterNamed := named index parameter renamed given found
  rw [Nat.zero_add] at parameterNamed
  exact parameterNamed.mono continues.older

theorem Function.renameLocals_accounts (number : Nat) (function : Function) (registry : Registry)
    (isBlock : function.body.isBlock) : Registry.Accounts registry (function.renameLocals registry).2.2
      (function.Renames number registry) := by
  obtain ⟨record, issues, parameters, objects⟩ :=
    Renaming.whole_recorded number function registry isBlock
  refine ⟨record, issues, fun origin name made => ?_⟩
  cases made with
  | argument given found named => exact (parameters _ _ _ given found).argument _ named
  | copy given stem found copied =>
    obtain ⟨parameterName, same, made⟩ := (parameters _ _ _ given found).copy _ copied
    obtain rfl := Option.some.inj (stem.symm.trans same)
    exact made
  | object found renamed => exact (List.forall₂_iff_zip.mp objects).2 found |>.2 renamed

end InlineMacro
