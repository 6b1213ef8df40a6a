import InlineMacro.Proofs.Pass.FlattenedWords
import InlineMacro.Proofs.Pass.RenameCalls

/-!
# Words behind renaming

Renaming puts aliases in the places of names, and every alias is fresh. The parameters of a macro are
fresh, too. Where its argument is copied, a parameter stands in the copy and in no word besides; the others
stand for values only.
-/

set_option autoImplicit false

namespace InlineMacro

open Node (Within)
open Text (IsWhole)

theorem CType.isMovable_traverse (traversal : Traversal Id) (type : CType) :
    (Id.run (type.traverse traversal)).isMovable = type.isMovable := by
  have pointed : ∀ type : CType,
      (Id.run (type.traverse traversal)).isFunctionPointer = type.isFunctionPointer := by
    intro type
    induction type using CType.isFunctionPointer.induct with
    | case1 qualifiers inner ih => exact ih
    | case2 qualifiers target ih =>
      change ((Id.run (target.traverse traversal)).isFunction ||
        (Id.run (target.traverse traversal)).isFunctionPointer) = _
      rw [target.isFunction_traverse traversal, ih]
      rfl
    | case3 type notQualified notPointer =>
      cases type with
      | qualified qualifiers inner => exact absurd rfl (notQualified qualifiers inner)
      | pointer qualifiers target => exact absurd rfl (notPointer qualifiers target)
      | array element size => cases size <;> rfl
      | record kind tag fields => cases fields <;> rfl
      | enumeration tag enumerators => cases enumerators <;> rfl
      | _ => rfl
  rw [isMovable, isMovable, type.isArray_traverse traversal, type.isFunction_traverse traversal, pointed]

namespace Renaming

/-- The parameters of a macro, and those among them whose arguments are copied. -/
structure Taken where
  copied : List String
  parameters : List String
  among : copied ⊆ parameters

namespace Taken

def nothing : Taken := ⟨[], [], List.nil_subset _⟩

def append (first second : Taken) : Taken :=
  ⟨first.copied ++ second.copied, first.parameters ++ second.parameters,
    List.append_subset.mpr ⟨fun _ member => List.mem_append_left _ (first.among member),
      fun _ member => List.mem_append_right _ (second.among member)⟩⟩

/-- The parameters that are not to be copied. -/
def direct (taken : Taken) : Taken := ⟨[], taken.parameters, List.nil_subset _⟩

def copy (argument : String) : Taken := ⟨[argument], [argument], List.Subset.refl _⟩

theorem append_nothing (taken : Taken) : taken.append nothing = taken := by
  simp [append, nothing]

theorem append_assoc (first second third : Taken) :
    (first.append second).append third = first.append (second.append third) := by
  simp [append]

end Taken

/-! ## Words of its own -/

/-- A name in use that is one token and none of the given names. -/
structure Own (names : List String) (registry : Registry) (name : String) : Prop where
  used : name ∈ registry.used
  whole : IsWhole name
  other : name ∉ names

/-- A word that is no parameter, unless it is a value and the parameter stands for its argument. -/
def Apart (taken : Taken) (registry : Registry) : Word → Prop
  | .value name => Own taken.copied registry name
  | .label name | .other name => Own taken.parameters registry name
  | .designated _ => True

def AllOwn (taken : Taken) (registry : Registry) : List Node → Prop := Within (Apart taken registry)

variable {names : List String} {taken others : Taken} {registry after : Registry} {name : String}

theorem Own.later (own : Own names registry name) (grows : registry.used ⊆ after.used) : Own names after name :=
  ⟨grows own.used, own.whole, own.other⟩

theorem Own.sub {fewer : List String} (own : Own names registry name) (among : fewer ⊆ names) :
    Own fewer registry name :=
  ⟨own.used, own.whole, fun member => own.other (among member)⟩

/-- Names that were not in use are none of the names in use. -/
theorem Own.beside (own : Own names registry name) {more : List String}
    (unused : ∀ other ∈ more, other ∉ registry.used) : Own (names ++ more) registry name :=
  ⟨own.used, own.whole, fun member => (List.mem_append.mp member).elim own.other
    fun new => unused name new own.used⟩

theorem Apart.map {given : Word} (apart : Apart taken registry given)
    (values : ∀ name, Own taken.copied registry name → Own others.copied after name)
    (names : ∀ name, Own taken.parameters registry name → Own others.parameters after name) :
    Apart others after given := by
  cases given with
  | value name => exact values name apart
  | label name | other name => exact names name apart
  | designated name => trivial

variable {nodes : List Node}

theorem AllOwn.later (all : AllOwn taken registry nodes) (grows : registry.used ⊆ after.used) :
    AllOwn taken after nodes :=
  Within.mono all fun _ apart => apart.map (fun _ own => own.later grows) fun _ own => own.later grows

theorem AllOwn.sub (all : AllOwn taken registry nodes) (copied : others.copied ⊆ taken.copied)
    (parameters : others.parameters ⊆ taken.parameters) : AllOwn others registry nodes :=
  Within.mono all fun _ apart => apart.map (fun _ own => own.sub copied) fun _ own => own.sub parameters

theorem AllOwn.beside (all : AllOwn taken registry nodes) (others : Taken)
    (unused : ∀ name ∈ others.parameters, name ∉ registry.used) : AllOwn (taken.append others) registry nodes :=
  Within.mono all fun _ apart => apart.map
    (fun _ own => own.beside fun name member => unused name (others.among member))
    fun _ own => own.beside unused

theorem AllOwn.own (all : AllOwn taken registry nodes) {name : String} (stands : name ∈ Node.allNames nodes) :
    Own taken.copied registry name := by
  refine Node.spelled_iff.mp (Within.mono all fun given apart => ?_) name stands
  cases given with
  | value name => exact apart
  | label name | other name => exact apart.sub taken.among
  | designated name => trivial

/-! ## Tables -/

variable {state : RenameState}

/-- The parameters are in use, and no name that is declared has one of them as its alias. -/
structure Holds (taken : Taken) (state : RenameState) : Prop where
  used : taken.parameters ⊆ state.registry.used
  values : ∀ name, state.table.aliasOf name = name ∨ Own taken.copied state.registry (state.table.aliasOf name)
  settled : state.table.Settled (Own taken.parameters state.registry)

namespace Holds

theorem carries (holds : Holds taken state) : (aliasing state.table).Carries (Apart taken state.registry)
    (Apart taken state.registry) where
  stays _ := id
  name name own := by
    change Own taken.copied state.registry (state.table.aliasOf name)
    rcases holds.values name with same | isOwn
    · exact same.symm ▸ own
    · exact isOwn
  declared _ := id
  label _ := id

theorem enter (holds : Holds taken state) : Holds taken { state with table := state.table.enter } :=
  ⟨holds.used, holds.values, holds.settled.enter⟩

theorem set (holds : Holds taken state) (name : String) {entry : Alias} {registry : Registry}
    (grows : state.registry.used ⊆ registry.used)
    (value : entry.name = name ∨ Own taken.copied registry entry.name)
    (isOwn : entry.isReplaceable = false → Own taken.parameters registry entry.name) :
    Holds taken ⟨state.table.set name entry, registry⟩ where
  used _ member := grows (holds.used member)
  values other := by
    change (state.table.set name entry).aliasOf other = other ∨ Own _ _ ((state.table.set name entry).aliasOf other)
    rw [AliasTable.aliasOf_set]
    split
    · next same => exact same ▸ value
    · exact (holds.values other).imp_right fun own => own.later grows
  settled := (holds.settled.mono fun _ own => own.later grows).set name isOwn

theorem fresh (holds : Holds taken state) {stem : String} (whole : IsWhole stem) :
    Own taken.parameters (state.registry.fresh stem).2 (state.registry.fresh stem).1 := by
  have issues := Registry.fresh_issues stem state.registry
  exact ⟨(issues.used _).mpr (.inl List.mem_cons_self), Registry.isWhole_fresh whole _,
    fun member => issues.fresh _ List.mem_cons_self (holds.used member)⟩

theorem beside (holds : Holds taken state) (others : Taken) {registry : Registry} {names : List String}
    (issues : Registry.Issues state.registry registry names) (same : others.parameters = names) :
    Holds (taken.append others) { state with registry := registry } where
  used := by
    subst same
    exact List.append_subset.mpr ⟨fun _ member => issues.mem_used (holds.used member),
      fun name member => (issues.used name).mpr (.inl member)⟩
  values name := (holds.values name).imp_right fun own =>
    (own.beside fun name member => issues.fresh name (same ▸ others.among member)).later fun _ => issues.mem_used
  settled := holds.settled.mono fun _ own =>
    (own.beside (same ▸ issues.fresh)).later fun _ => issues.mem_used

end Holds

/-- Behind a part of a function the outer scopes are as before, and names have been given out. -/
structure Keeps (taken : Taken) (state after : RenameState) : Prop where
  outer : after.table.outer = state.table.outer
  grows : state.registry.used ⊆ after.registry.used
  holds : Holds taken after

theorem Keeps.refl (holds : Holds taken state) : Keeps taken state state := ⟨rfl, List.Subset.refl _, holds⟩

theorem Keeps.trans {middle after : RenameState} (former : Keeps taken state middle)
    (latter : Keeps taken middle after) : Keeps taken state after :=
  ⟨latter.outer.trans former.outer, List.Subset.trans former.grows latter.grows, latter.holds⟩

theorem Keeps.leave (holds : Holds taken state) {after : RenameState}
    (keeps : Keeps taken { state with table := state.table.enter } after) :
    Keeps taken state { after with table := after.table.leave } := by
  have closed := closed_table keeps.outer
  refine ⟨?_, keeps.grows, keeps.holds.used, ?_, ?_⟩
  · change after.table.leave.outer = _
    rw [closed]
  · change ∀ name, after.table.leave.aliasOf name = name ∨ Own _ _ (after.table.leave.aliasOf name)
    rw [closed]
    exact fun name => (holds.values name).imp_right fun own => own.later keeps.grows
  · change after.table.leave.Settled _
    rw [closed]
    exact holds.settled.mono fun _ own => own.later keeps.grows

/-! ## Declarations -/

theorem initializer_within (holds : Holds taken state) {given : Option Initializer}
    (all : AllOwn taken state.registry (optionalNodes Initializer.nodes given)) :
    Ensures (option initializer given) state fun result after =>
      state = after ∧ AllOwn taken state.registry (optionalNodes Initializer.nodes result) := by
  cases given with
  | none => exact ⟨rfl, Node.within_nil⟩
  | some value => exact ⟨rfl, value.within_traverse holds.carries all⟩

theorem declare_keeps (own : Own taken.parameters state.registry name) (holds : Holds taken state) :
    Ensures (declare name) state fun given after =>
      Keeps taken state after ∧ Own taken.parameters after.registry given := by
  refine declare_cases (fun given found _ => ?_) fun issues => ?_
  · exact ⟨.refl holds, holds.settled _ List.mem_cons_self name given found⟩
  · have fresh := holds.fresh own.whole
    have grows : state.registry.used ⊆ (state.registry.fresh name).2.used := fun _ => issues.mem_used
    exact ⟨⟨rfl, grows, holds.set name grows (.inr (fresh.sub taken.among)) fun _ => fresh⟩, fresh⟩

theorem declaration_within (given : Declaration) (holds : Holds taken state)
    (all : AllOwn taken state.registry given.nodes) :
    Ensures (declaration given) state fun result after =>
      Keeps taken state after ∧ AllOwn taken after.registry result.nodes := by
  obtain ⟨name, parts⟩ := Node.within_declaration.mp all
  have separate := Node.within_append.mp parts
  have typed : Ensures (type given.type) state fun result after =>
      result = Id.run (given.type.traverse (aliasing state.table)) ∧ state = after := ⟨rfl, rfl⟩
  refine typed.bind fun renamedType same holdsType => ?_
  obtain ⟨rfl, rfl⟩ := holdsType
  rw [keepsName_traverse]
  have renamedType := given.type.within_traverse holds.carries separate.1
  have finish (known : String) (middle : RenameState) (own : Own taken.parameters middle.registry known)
      (keeps : Keeps taken state middle) :
      Ensures (do
        let initializer ← option initializer given.initializer
        return { given with
          name := known
          type := Id.run (given.type.traverse (aliasing state.table))
          initializer := initializer }) middle fun result after =>
        Keeps taken state after ∧ AllOwn taken after.registry result.nodes := by
    refine (initializer_within keeps.holds (AllOwn.later separate.2 keeps.grows)).bind fun value after given => ?_
    obtain ⟨rfl, value⟩ := given
    exact .pure ⟨keeps, Node.within_declaration.mpr
      ⟨own, Node.within_append.mpr ⟨AllOwn.later renamedType keeps.grows, value⟩⟩⟩
  cases keepsName given.type given.storage with
  | true =>
    have named : Ensures (pure given.name : Renaming String)
        { state with table := state.table.bind given.name given.name } fun known after =>
          known = given.name ∧
            { state with table := state.table.bind given.name given.name } = after := ⟨rfl, rfl⟩
    refine .bindModify (named.bind fun known middle same => ?_)
    obtain ⟨rfl, rfl⟩ := same
    exact finish _ _ name ⟨rfl, List.Subset.refl _, holds.set given.name (List.Subset.refl _) (.inl rfl) nofun⟩
  | false =>
    exact (declare_keeps name holds).bind fun known middle kept => finish known middle kept.2 kept.1

theorem declarations_within (given : List Declaration) (holds : Holds taken state)
    (all : ∀ declared ∈ given, AllOwn taken state.registry declared.nodes) :
    Ensures (declarations given) state fun result after =>
      Keeps taken state after ∧ ∀ declared ∈ result, AllOwn taken after.registry declared.nodes := by
  induction given generalizing state with
  | nil => exact ⟨.refl holds, fun _ member => absurd member List.not_mem_nil⟩
  | cons first rest ih =>
    rw [List.forall_mem_cons] at all
    refine (declaration_within first holds all.1).bind fun renamed middle former => ?_
    refine (ih former.1.holds fun declared member => (all.2 declared member).later former.1.grows).bind
      fun others after latter => ?_
    exact .pure ⟨former.1.trans latter.1,
      List.forall_mem_cons.mpr ⟨former.2.later latter.1.grows, latter.2⟩⟩

theorem option_within (holds : Holds taken state) {given : Option Expr}
    (all : AllOwn taken state.registry (optionalNodes Expr.nodes given)) :
    Ensures (option expr given) state fun result after =>
      state = after ∧ AllOwn taken state.registry (optionalNodes Expr.nodes result) := by
  cases given with
  | none => exact ⟨rfl, Node.within_nil⟩
  | some value => exact ⟨rfl, value.within_traverse holds.carries all⟩

theorem expr_within (holds : Holds taken state) {given : Expr} (all : AllOwn taken state.registry given.nodes) :
    Ensures (expr given) state fun result after => state = after ∧ AllOwn taken state.registry result.nodes :=
  ⟨rfl, given.within_traverse holds.carries all⟩

/-! ## Statements -/

def KeepsWithin (taken : Taken) (entry : Statement) : Prop :=
  ∀ state : RenameState, Holds taken state → AllOwn taken state.registry entry.nodes →
    Ensures (statement entry) state fun result after =>
      Keeps taken state after ∧ AllOwn taken after.registry result.nodes

theorem statements_within {entries : List Statement} (each : ∀ entry ∈ entries, KeepsWithin taken entry)
    (state : RenameState) (holds : Holds taken state)
    (all : ∀ entry ∈ entries, AllOwn taken state.registry entry.nodes) :
    Ensures (statements entries) state fun results after =>
      Keeps taken state after ∧ ∀ result ∈ results, AllOwn taken after.registry result.nodes := by
  induction entries generalizing state with
  | nil =>
    rw [statements]
    exact ⟨.refl holds, fun _ member => absurd member List.not_mem_nil⟩
  | cons entry entries ih =>
    rw [List.forall_mem_cons] at each all
    rw [statements]
    refine (each.1 state holds all.1).bind fun first middle former => ?_
    refine (ih each.2 middle former.1.holds fun entry member => (all.2 entry member).later former.1.grows).bind
      fun rest after latter => ?_
    exact .pure ⟨former.1.trans latter.1,
      List.forall_mem_cons.mpr ⟨former.2.later latter.1.grows, latter.2⟩⟩

theorem statement_within (entry : Statement) : KeepsWithin taken entry := by
  induction entry with
  | expression span value =>
    intro state holds all
    obtain ⟨own, inside⟩ := Node.within_cons.mp all
    rw [statement]
    refine (expr_within holds inside).bind fun result after given => ?_
    obtain ⟨rfl, renamed⟩ := given
    exact .pure ⟨.refl holds, Node.within_cons.mpr ⟨own, renamed⟩⟩
  | typeDefinition span type =>
    intro state holds all
    obtain ⟨own, inside⟩ := Node.within_cons.mp all
    rw [statement]
    exact ⟨.refl holds, Node.within_cons.mpr ⟨own, type.within_traverse holds.carries inside⟩⟩
  | returnStatement span value =>
    intro state holds all
    obtain ⟨own, inside⟩ := Node.within_cons.mp all
    rw [statement]
    refine (option_within holds inside).bind fun result after given => ?_
    obtain ⟨rfl, renamed⟩ := given
    exact .pure ⟨.refl holds, Node.within_cons.mpr ⟨own, renamed⟩⟩
  | declaration span given =>
    intro state holds all
    obtain ⟨-, inside⟩ := Node.within_cons.mp all
    rw [statement]
    refine (declarations_within given holds
      (Node.within_flatMap.mp inside)).bind fun result after kept => .pure ⟨kept.1, ?_⟩
    exact (Node.within_inside rfl).mpr (Node.within_flatMap.mpr kept.2)
  | block span entries ih =>
    intro state holds all
    rw [statement]
    refine .bindModify ((statements_within ih _ holds.enter
      (Statement.within_block.mp all)).bind fun results after kept => ?_)
    exact .bindModify (.pure ⟨kept.1.leave holds, Statement.within_block.mpr kept.2⟩)
  | ifThen span condition thenBranch ih =>
    intro state holds all
    obtain ⟨parts, -⟩ := Node.within_append.mp ((Node.within_inside rfl).mp all)
    obtain ⟨tests, inside⟩ := Node.within_append.mp parts
    rw [statement]
    refine (expr_within holds tests).bind fun value after given => ?_
    obtain ⟨rfl, renamed⟩ := given
    refine (ih _ holds inside).bind fun result after kept => .pure ⟨kept.1, (Node.within_inside rfl).mpr ?_⟩
    exact Node.within_append.mpr ⟨Node.within_append.mpr ⟨renamed.later kept.1.grows, kept.2⟩, Node.within_nil⟩
  | ifElse span condition thenBranch elseBranch thenIh elseIh =>
    intro state holds all
    obtain ⟨parts, last⟩ := Node.within_append.mp ((Node.within_inside rfl).mp all)
    obtain ⟨tests, inside⟩ := Node.within_append.mp parts
    rw [statement]
    refine (expr_within holds tests).bind fun value after given => ?_
    obtain ⟨rfl, renamed⟩ := given
    refine (thenIh _ holds inside).bind fun first middle former => ?_
    refine (elseIh _ former.1.holds (AllOwn.later last former.1.grows)).bind fun second after latter => ?_
    have whole := former.1.trans latter.1
    refine .pure ⟨whole, (Node.within_inside rfl).mpr (Node.within_append.mpr ⟨?_, latter.2⟩)⟩
    exact Node.within_append.mpr ⟨renamed.later whole.grows, former.2.later latter.1.grows⟩
  | whileLoop span value body ih | switch span value body ih | caseLabel span value body ih =>
    intro state holds all
    obtain ⟨tests, inside⟩ := Node.within_append.mp ((Node.within_inside rfl).mp all)
    rw [statement]
    refine (expr_within holds tests).bind fun renamedValue after given => ?_
    obtain ⟨rfl, renamed⟩ := given
    refine (ih _ holds inside).bind fun result after kept => .pure ⟨kept.1, (Node.within_inside rfl).mpr ?_⟩
    exact Node.within_append.mpr ⟨renamed.later kept.1.grows, kept.2⟩
  | bareLoop span condition update body ih =>
    intro state holds all
    obtain ⟨parts, inside⟩ := Node.within_append.mp ((Node.within_inside rfl).mp all)
    obtain ⟨tests, updates⟩ := Node.within_append.mp parts
    rw [statement]
    refine (option_within holds tests).bind fun first after given => ?_
    obtain ⟨rfl, tested⟩ := given
    refine (option_within holds updates).bind fun second after given => ?_
    obtain ⟨rfl, updated⟩ := given
    refine (ih _ holds inside).bind fun result after kept => .pure ⟨kept.1, (Node.within_inside rfl).mpr ?_⟩
    exact Node.within_append.mpr ⟨Node.within_append.mpr
      ⟨AllOwn.later tested kept.1.grows, AllOwn.later updated kept.1.grows⟩, kept.2⟩
  | forLoop span init condition update body initIh bodyIh =>
    intro state holds all
    obtain ⟨parts, inside⟩ := Node.within_append.mp ((Node.within_inside rfl).mp all)
    obtain ⟨parts, updates⟩ := Node.within_append.mp parts
    obtain ⟨starts, tests⟩ := Node.within_append.mp parts
    rw [statement]
    refine .bindModify ((initIh _ holds.enter starts).bind fun head middle former => ?_)
    refine (option_within former.1.holds (AllOwn.later tests former.1.grows)).bind fun first after given => ?_
    obtain ⟨rfl, tested⟩ := given
    refine (option_within former.1.holds (AllOwn.later updates former.1.grows)).bind fun second after given => ?_
    obtain ⟨rfl, updated⟩ := given
    refine (bodyIh _ former.1.holds (AllOwn.later inside former.1.grows)).bind fun result after latter => ?_
    refine .bindModify (.pure ⟨(former.1.trans latter.1).leave holds, (Node.within_inside rfl).mpr ?_⟩)
    have grows := latter.1.grows
    exact Node.within_append.mpr ⟨Node.within_append.mpr ⟨Node.within_append.mpr
      ⟨former.2.later grows, tested.later grows⟩, updated.later grows⟩, latter.2⟩
  | doWhile span body condition ih =>
    intro state holds all
    obtain ⟨inside, tests⟩ := Node.within_append.mp ((Node.within_inside rfl).mp all)
    rw [statement]
    refine (ih _ holds inside).bind fun result after kept => ?_
    refine (expr_within kept.1.holds (AllOwn.later tests kept.1.grows)).bind fun value last given => ?_
    obtain ⟨rfl, renamed⟩ := given
    exact .pure ⟨kept.1, (Node.within_inside rfl).mpr (Node.within_append.mpr ⟨kept.2, renamed⟩)⟩
  | defaultLabel span marked ih | labelled span marker marked ih =>
    intro state holds all
    rw [statement]
    refine (ih _ holds (Node.within_cons.mp all).2).bind fun result after kept => .pure ⟨kept.1, ?_⟩
    exact Node.within_cons.mpr ⟨(Node.within_cons.mp (all.later kept.1.grows)).1, kept.2⟩
  | breakStatement | continueStatement | gotoStatement | empty =>
    intro state holds all
    rw [statement]
    exact .pure ⟨.refl holds, all⟩

/-! ## Parameters and the copies of arguments -/

/-- A name for a parameter: one token with a number that was not in use. -/
structure IsNew (registry : Registry) (name : String) : Prop where
  unused : name ∉ registry.used
  whole : IsWhole name
  isNumbered : Registry.IsNumbered name

theorem isNew_fresh {stem : String} (whole : IsWhole stem) (registry : Registry) :
    IsNew registry (registry.fresh stem).1 :=
  ⟨(Registry.fresh_issues stem registry).fresh _ List.mem_cons_self,
    Registry.isWhole_fresh whole registry, ⟨_, _, rfl⟩⟩

/-- Behind renaming some parameters there are new ones. Those whose arguments are copied stand in the copies,
each in its own, and nowhere else in them. -/
structure Copies (earlier : Taken) (state after : RenameState) (taken : Taken) (copies : List Declaration) :
    Prop where
  grows : state.registry.used ⊆ after.registry.used
  holds : Holds (earlier.append taken) after
  fresh : ∀ name ∈ taken.parameters, IsNew state.registry name
  initialized : List.Forall₂ (fun argument copied => ∃ span,
    copied.initializer = some (.expression span (.ofName argument))) taken.copied copies
  own : AllOwn (earlier.append taken.direct) after.registry (copies.flatMap Declaration.nodes)
  once : ∀ argument ∈ taken.copied,
    (Node.allNames (copies.flatMap Declaration.nodes)).count argument = 1

namespace Copies

variable {earlier taken others : Taken} {middle after : RenameState} {copies otherCopies : List Declaration}

theorem nothing (holds : Holds taken state) : Copies taken state state .nothing [] where
  grows := List.Subset.refl _
  holds := by rwa [Taken.append_nothing]
  fresh _ member := absurd member List.not_mem_nil
  initialized := .nil
  own := Node.within_nil
  once _ member := absurd member List.not_mem_nil

theorem unused (copied : Copies earlier state after taken copies) :
    ∀ name ∈ taken.parameters, name ∉ state.registry.used :=
  fun name member => (copied.fresh name member).unused

theorem append (former : Copies earlier state middle taken copies)
    (latter : Copies (earlier.append taken) middle after others otherCopies) :
    Copies earlier state after (taken.append others) (copies ++ otherCopies) where
  grows := List.Subset.trans former.grows latter.grows
  holds := Taken.append_assoc _ _ _ ▸ latter.holds
  fresh := by
    refine List.forall_mem_append.mpr ⟨former.fresh, fun name member => ?_⟩
    have new := latter.fresh name member
    exact ⟨fun old => new.unused (former.grows old), new.whole, new.isNumbered⟩
  initialized := List.rel_append former.initialized latter.initialized
  own := by
    have first : AllOwn (earlier.append (taken.append others).direct) after.registry
        (copies.flatMap Declaration.nodes) :=
      Taken.append_assoc earlier taken.direct others.direct ▸
        AllOwn.later (former.own.beside others.direct latter.unused) latter.grows
    rw [List.flatMap_append]
    exact Node.within_append.mpr ⟨first, latter.own.sub (by simp [Taken.append, Taken.direct])
      (by simp [Taken.append, Taken.direct])⟩
  once := by
    rw [List.flatMap_append, Node.allNames_append]
    refine List.forall_mem_append.mpr ⟨fun argument member => ?_, fun argument member => ?_⟩
    · have absent : argument ∉ Node.allNames (otherCopies.flatMap Declaration.nodes) := fun stands =>
        (latter.own.own stands).other (List.mem_append_left _ (List.mem_append_right _ member))
      rw [List.count_append, former.once argument member, List.count_eq_zero.mpr absent]
    · have absent : argument ∉ Node.allNames (copies.flatMap Declaration.nodes) := fun stands =>
        latter.unused argument (others.among member) (former.own.own stands).used
      rw [List.count_append, latter.once argument member, List.count_eq_zero.mpr absent]

theorem allNames_copy (name argument : String) (type : CType) (span : Span) :
    Node.allNames (Declaration.nodes { Declaration.ofVariable name type with
      initializer := some (.expression span (.ofName argument)) }) =
        name :: (Node.allNames type.nodes ++ [argument]) := by
  simp [Declaration.nodes, Declaration.ofVariable, optionalNodes, Initializer.nodes, Expr.ofName,
    Expr.nodes, Node.allNames, Node.names]

theorem single {argument name : String} {type : CType} (span : Span)
    (grows : state.registry.used ⊆ after.registry.used) (fresh : IsNew state.registry argument)
    (holds : Holds (earlier.append (.copy argument)) after) (argumentOwn : Own earlier.parameters after.registry argument)
    (own : Own (earlier.append (.copy argument)).parameters after.registry name)
    (typed : AllOwn (earlier.append (.copy argument)) after.registry type.nodes) :
    Copies earlier state after (.copy argument) [{ Declaration.ofVariable name type with
      initializer := some (.expression span (.ofName argument)) }] where
  grows := grows
  holds := holds
  fresh := List.forall_mem_singleton.mpr fresh
  initialized := .cons ⟨span, rfl⟩ .nil
  own := by
    have direct : earlier.copied ++ [] ⊆ earlier.parameters := by simpa using earlier.among
    rw [List.flatMap_singleton]
    refine Node.within_declaration.mpr ⟨own, Node.within_append.mpr ⟨typed.sub (by simp [Taken.append, Taken.direct])
      (List.Subset.refl _), ?_⟩⟩
    exact (Node.within_inside rfl).mpr (Node.within_cons.mpr
      ⟨List.forall_mem_singleton.mpr (argumentOwn.sub direct), Node.within_nil⟩)
  once := by
    have notOwn (isOwn : Own (earlier.append (.copy argument)).parameters after.registry argument) : False :=
      isOwn.other (List.mem_append_right _ List.mem_cons_self)
    have otherName : name ≠ argument := fun same => notOwn (same ▸ own)
    have absent : argument ∉ Node.allNames type.nodes := fun stands =>
      (typed.own stands).other (List.mem_append_right _ List.mem_cons_self)
    refine List.forall_mem_singleton.mpr ?_
    rw [List.flatMap_singleton, allNames_copy, List.count_cons_of_ne otherName, List.count_append,
      List.count_eq_zero.mpr absent, List.count_singleton_self]

end Copies

def RenamedParameter.copied? (renamed : RenamedParameter) : Option String :=
  if renamed.copy.isSome then renamed.parameter.name else none

theorem filterMap_cons_toList {α β : Type} (change : α → Option β) (first : α) (rest : List α) :
    (first :: rest).filterMap change = (change first).toList ++ rest.filterMap change := by
  rw [List.filterMap_cons]
  cases change first <;> rfl

def RenamedParameter.listTaken (renamed : List RenamedParameter) : Taken where
  copied := renamed.filterMap copied?
  parameters := renamed.filterMap fun renamed => renamed.parameter.name
  among name member := by
    obtain ⟨renamed, among, copied⟩ := List.mem_filterMap.mp member
    unfold copied? at copied
    split at copied
    · exact List.mem_filterMap.mpr ⟨renamed, among, copied⟩
    · cases copied

theorem RenamedParameter.listTaken_cons (first : RenamedParameter) (rest : List RenamedParameter) :
    listTaken (first :: rest) = (listTaken [first]).append (listTaken rest) := by
  simp only [listTaken, Taken.append, filterMap_cons_toList, List.filterMap_nil, List.append_nil]

/-- What becomes of a parameter of a macro, by its type: its argument is copied or stands for it. -/
structure TurnsInto (given : Parameter) (renamed : RenamedParameter) : Prop where
  named : renamed.parameter.name.isSome = given.name.isSome
  copied : renamed.copied? =
    if given.type.isMovable then renamed.parameter.name else none

theorem copies_of_parameter (given : Parameter) (holds : Holds taken state)
    (named : ∀ name, given.name = some name → Own taken.parameters state.registry name)
    (typed : AllOwn taken state.registry given.type.nodes) :
    Ensures (parameter given) state fun renamed after => TurnsInto given renamed ∧
      ∃ copies : List Declaration, renamed.copy.toList = copies.map .ofDeclaration ∧
        Copies taken state after (RenamedParameter.listTaken [renamed]) copies := by
  obtain ⟨name, given, span⟩ := given
  cases name with
  | none =>
    refine Ensures.pure ⟨⟨rfl, ?_⟩, [], rfl, .nothing holds⟩
    simp [RenamedParameter.copied?]
  | some stem =>
    have own := named stem rfl
    have issues := Registry.fresh_issues stem state.registry
    have new : IsNew state.registry (state.registry.fresh stem).1 := isNew_fresh own.whole _
    have unused : ∀ name ∈ [(state.registry.fresh stem).1], name ∉ state.registry.used := issues.fresh
    have grows : state.registry.used ⊆ (state.registry.fresh stem).2.used := fun _ old => issues.mem_used old
    have argumentOwn : Own taken.parameters (state.registry.fresh stem).2 (state.registry.fresh stem).1 :=
      holds.fresh own.whole
    have movable := given.isMovable_traverse (aliasing state.table)
    have typeOwn : AllOwn taken state.registry
        (Id.run (given.traverse (aliasing state.table))).withoutBodies.nodes :=
      CType.within_withoutBodies _ (given.within_traverse holds.carries typed)
    refine parameter_cases (fun isMovable => ?_) fun notMovable => ?_
    · have besides := holds.beside (.copy (state.registry.fresh stem).1) issues rfl
      refine (declare_keeps ((own.beside unused).later grows) besides).mono fun known after given => ?_
      obtain ⟨keeps, knownOwn⟩ := given
      refine ⟨⟨rfl, ?_⟩, [_], rfl, ?_⟩
      · rw [movable] at isMovable
        simp [RenamedParameter.copied?, RenamedParameter.copying, isMovable]
      · exact .single span (List.Subset.trans grows keeps.grows) new keeps.holds (argumentOwn.later keeps.grows)
          knownOwn ((typeOwn.beside _ unused).later (List.Subset.trans grows keeps.grows))
    · have besides := holds.beside (Taken.copy (state.registry.fresh stem).1).direct issues rfl
      have value : Own (taken.append (Taken.copy (state.registry.fresh stem).1).direct).copied
          (state.registry.fresh stem).2 (state.registry.fresh stem).1 :=
        argumentOwn.sub (by simpa [Taken.append, Taken.direct] using taken.among)
      have bound : Holds _ ⟨state.table.bind stem (state.registry.fresh stem).1, _⟩ :=
        besides.set stem (List.Subset.refl _) (.inr value) nofun
      refine ⟨⟨rfl, ?_⟩, [], rfl, grows, bound, List.forall_mem_singleton.mpr new, .nil, Node.within_nil, ?_⟩
      · rw [movable] at notMovable
        simp [RenamedParameter.copied?, notMovable]
      · exact fun _ member => absurd member List.not_mem_nil

theorem copies_of_parameters (given : List Parameter) (holds : Holds taken state)
    (named : ∀ name ∈ given.filterMap Parameter.name, Own taken.parameters state.registry name)
    (typed : AllOwn taken state.registry (Parameter.listNodes given)) :
    Ensures (parameters given) state fun renamed after => List.Forall₂ TurnsInto given renamed ∧
      ∃ copies : List Declaration, renamed.filterMap RenamedParameter.copy = copies.map .ofDeclaration ∧
        Copies taken state after (RenamedParameter.listTaken renamed) copies := by
  induction given generalizing state taken with
  | nil => exact Ensures.pure ⟨.nil, [], rfl, .nothing holds⟩
  | cons first rest ih =>
    have parts : AllOwn taken state.registry first.type.nodes ∧
        AllOwn taken state.registry (Parameter.listNodes rest) := by
      cases first
      exact Node.within_append.mp typed
    have firstNamed : ∀ name, first.name = some name → Own taken.parameters state.registry name :=
      fun name same => named name (List.mem_filterMap.mpr ⟨first, List.mem_cons_self, same⟩)
    refine (copies_of_parameter first holds firstNamed parts.1).bind fun renamed middle here => ?_
    obtain ⟨turns, copies, same, copied⟩ := here
    have restNamed : ∀ name ∈ rest.filterMap Parameter.name,
        Own (taken.append (RenamedParameter.listTaken [renamed])).parameters middle.registry name := by
      intro name member
      obtain ⟨parameter, among, known⟩ := List.mem_filterMap.mp member
      have own := named name (List.mem_filterMap.mpr ⟨parameter, List.mem_cons_of_mem _ among, known⟩)
      exact (own.beside copied.unused).later copied.grows
    refine (ih copied.holds restNamed ((AllOwn.beside parts.2 _ copied.unused).later copied.grows)).bind
      fun others after behind => ?_
    obtain ⟨othersTurn, otherCopies, otherSame, othersCopied⟩ := behind
    refine .pure ⟨.cons turns othersTurn, copies ++ otherCopies, ?_, ?_⟩
    · rw [filterMap_cons_toList, same, otherSame, List.map_append]
    · rw [RenamedParameter.listTaken_cons]
      exact copied.append othersCopied

end Renaming

end InlineMacro
