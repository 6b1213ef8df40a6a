import InlineMacro.Proofs.Syntax.Visits

/-!
# Words in a tree

The names that stand in a tree, each as what it is: a value, a label, a member that an initializer
designates, or something else. A property of all words of a tree is one of all words of its parts, and a
traversal carries it over if its replacements do.
-/

set_option autoImplicit false

namespace InlineMacro

inductive Word where
  | value (name : String)
  | label (name : String)
  | designated (name : String)
  | other (name : String)

/-- The members that initializers designate are not counted among the names of a tree. -/
def Word.Spells (property : String → Prop) : Word → Prop
  | designated _ => True
  | value name | label name | other name => property name

def Designator.member? : Designator → Option String
  | member name => some name
  | index _ => none

namespace Node

def words : Node → List Word
  | .expression (.identifier _ name) => [.value name]
  | .initializer (.designated _ designators _) =>
    (designators.filterMap Designator.member?).map .designated
  | .statement entry => (Node.statement entry).names.map .label
  | node => node.names.map .other

theorem spells_words {property : String → Prop} (node : Node) :
    (∀ word ∈ node.words, word.Spells property) ↔ ∀ name ∈ node.names, property name := by
  cases node with
  | expression value => cases value <;> simp [words, names, Word.Spells]
  | initializer given =>
    cases given with
    | designated =>
      refine ⟨fun _ name stands => (by cases stands), fun _ word stands => ?_⟩
      obtain ⟨name, -, rfl⟩ := List.mem_map.mp stands
      trivial
    | _ => simp [words, names]
  | _ => simp [words, Word.Spells]

def Within (word : Word → Prop) (nodes : List Node) : Prop := ∀ node ∈ nodes, ∀ given ∈ node.words, word given

abbrev Spelled (property : String → Prop) : List Node → Prop := Within (Word.Spells property)

variable {word : Word → Prop}

@[simp] theorem within_nil : Within word [] := fun _ member => absurd member List.not_mem_nil

@[simp] theorem within_append {first second : List Node} :
    Within word (first ++ second) ↔ Within word first ∧ Within word second :=
  List.forall_mem_append

variable {nodes : List Node}

@[simp] theorem within_cons {node : Node} : Within word (node :: nodes) ↔
      (∀ given ∈ node.words, word given) ∧ Within word nodes :=
  List.forall_mem_cons

theorem within_flatMap {α : Type} {parts : List α} {nodes : α → List Node} :
    Within word (parts.flatMap nodes) ↔ ∀ part ∈ parts, Within word (nodes part) := by
  unfold Within
  simp only [List.mem_flatMap]
  exact ⟨fun all part member node inside => all node ⟨part, member, inside⟩,
    fun all node ⟨part, member, inside⟩ => all part member node inside⟩

/-- A node without words of its own. -/
theorem within_inside {node : Node} (wordless : node.words = []) :
    Within word (node :: nodes) ↔ Within word nodes := by
  simp [wordless]

theorem within_type {type : CType} : Within word (.type type :: nodes) ↔
      (∀ name ∈ (Node.type type).names, word (.other name)) ∧ Within word nodes := by
  simp [words]

theorem within_declaration {declared : Declaration} :
    Within word (.declaration declared :: nodes) ↔ word (.other declared.name) ∧ Within word nodes := by
  simp [words, names]

theorem Within.mono {wider : Word → Prop} (within : Within word nodes)
    (words : ∀ given, word given → wider given) : Within wider nodes :=
  fun node member given stands => words given (within node member given stands)

theorem spelled_iff {property : String → Prop} : Spelled property nodes ↔ ∀ name ∈ allNames nodes, property name := by
  unfold Spelled Within allNames
  simp only [spells_words, List.mem_flatMap]
  exact ⟨fun all name ⟨node, member, stands⟩ => all node member name stands,
    fun all node member name stands => all name ⟨node, member, stands⟩⟩

end Node

/-! ## Traversals -/

/-- A traversal carries a property of words over to another. -/
structure Traversal.Carries (traversal : Traversal Id) (word word' : Word → Prop) : Prop where
  stays : ∀ given, word given → word' given
  name : ∀ name, word (.value name) → word' (.value (Id.run (traversal.name name)))
  declared : ∀ name, word (.other name) → word' (.other (Id.run (traversal.declared name)))
  label : ∀ name, word (.label name) → word' (.label (Id.run (traversal.label name)))

section Traverse

open Node (Within)

variable {traversal : Traversal Id} {word word' : Word → Prop}

theorem Parameter.names_traverse (traversal : Traversal Id) (parameters : List Parameter) :
    (Id.run (Parameter.traverseList traversal parameters)).filterMap Parameter.name =
      parameters.filterMap Parameter.name := by
  induction parameters with
  | nil => rfl
  | cons parameter rest ih =>
    obtain ⟨name, type, span⟩ := parameter
    change List.filterMap Parameter.name (⟨name, _, span⟩ ::
      Id.run (Parameter.traverseList traversal rest)) = _
    cases name <;> simp only [List.filterMap_cons, ih]

theorem Field.names_traverse (traversal : Traversal Id) : ∀ fields : List Field,
    (Id.run (Field.traverseList traversal fields)).filterMap Field.name = fields.filterMap Field.name
  | [] => rfl
  | ⟨name, type, width⟩ :: rest => by
    have ih := Field.names_traverse traversal rest
    cases width with
    | none =>
      change List.filterMap Field.name (⟨name, _, none⟩ :: Id.run (Field.traverseList traversal rest)) = _
      simp only [List.filterMap_cons, ih]
    | some width =>
      change List.filterMap Field.name (⟨name, _, some _⟩ :: Id.run (Field.traverseList traversal rest)) = _
      simp only [List.filterMap_cons, ih]

theorem Enumerator.names_traverse (traversal : Traversal Id) (enumerators : List Enumerator) :
    (Id.run (Enumerator.traverseList traversal enumerators)).map Enumerator.name =
      enumerators.map Enumerator.name := by
  induction enumerators with
  | nil => rfl
  | cons enumerator rest ih =>
    obtain ⟨name, value⟩ := enumerator
    cases value with
    | none => exact congrArg (name :: ·) ih
    | some value => exact congrArg (name :: ·) ih

theorem Designator.members_traverse (traversal : Traversal Id) (designators : List Designator) :
    (Id.run (Designator.traverseList traversal designators)).filterMap Designator.member? =
      designators.filterMap Designator.member? := by
  induction designators with
  | nil => rfl
  | cons designator rest ih =>
    cases designator with
    | index index => exact ih
    | member name => exact congrArg (name :: ·) ih

theorem CType.words_traverse (traversal : Traversal Id) (type : CType) :
    (Node.type (Id.run (type.traverse traversal))).words = (Node.type type).words := by
  cases type with
  | array element size => cases size <;> rfl
  | function result parameters => exact congrArg (List.map Word.other) (Parameter.names_traverse traversal parameters)
  | record kind tag fields =>
    cases fields with
    | none => rfl
    | some fields =>
      exact congrArg (fun names => (tag.toList ++ names).map Word.other) (Field.names_traverse traversal fields)
  | enumeration tag enumerators =>
    cases enumerators with
    | none => rfl
    | some enumerators =>
      exact congrArg (fun names => (tag.toList ++ names).map Word.other)
        (Enumerator.names_traverse traversal enumerators)
  | _ => rfl

theorem Node.Within.traverse {nodes : List Node} (within : Within word nodes)
    (carries : traversal.Carries word word') : Within word' (nodes.map (Node.traverse traversal)) := by
  refine List.forall_mem_map.mpr fun node member => ?_
  have own := within node member
  have same (kept : (node.traverse traversal).words = node.words) :
      ∀ given ∈ (node.traverse traversal).words, word' given :=
    kept ▸ fun given stands => carries.stays given (own given stands)
  have one {before after : Word} (stood : node.words = [before]) (stands : (node.traverse traversal).words = [after])
      (becomes : word before → word' after) : ∀ given ∈ (node.traverse traversal).words, word' given := by
    rw [stands]
    exact List.forall_mem_singleton.mpr (becomes (own _ (stood ▸ List.mem_singleton_self _)))
  cases node with
  | type type => exact same (type.words_traverse traversal)
  | declaration declared => exact one rfl rfl (carries.declared declared.name)
  | initializer given =>
    cases given with
    | designated _ designators =>
      exact same (congrArg (List.map Word.designated) (Designator.members_traverse traversal designators))
    | _ => exact same rfl
  | expression value =>
    cases value with
    | identifier _ name => exact one rfl rfl (carries.name name)
    | _ => exact same rfl
  | statement entry =>
    cases entry with
    | gotoStatement _ label | labelled _ label => exact one rfl rfl (carries.label label)
    | _ => exact same rfl
  | function definition =>
    refine same ?_
    exact congrArg (fun names => (definition.name :: names).map Word.other)
      (Parameter.names_traverse traversal definition.parameters)

section

variable (carries : traversal.Carries word word')

include carries

theorem CType.within_traverse (type : CType) (within : Within word type.nodes) :
    Within word' (Id.run (type.traverse traversal)).nodes :=
  type.nodes_traverse traversal ▸ within.traverse carries

theorem Expr.within_traverse (value : Expr) (within : Within word value.nodes) :
    Within word' (Id.run (value.traverse traversal)).nodes :=
  value.nodes_traverse traversal ▸ within.traverse carries

theorem Initializer.within_traverse (initializer : Initializer) (within : Within word initializer.nodes) :
    Within word' (Id.run (initializer.traverse traversal)).nodes :=
  initializer.nodes_traverse traversal ▸ within.traverse carries

theorem Statement.within_traverse {entry : Statement} (within : Within word entry.nodes) :
    Within word' (Id.run (entry.traverse traversal)).nodes :=
  entry.nodes_traverse traversal ▸ within.traverse carries

end

theorem Statement.within_listNodes {statements : List Statement} : Within word (listNodes statements) ↔
      ∀ statement ∈ statements, Within word statement.nodes := by
  induction statements with
  | nil => exact ⟨fun _ => by simp, fun _ => Node.within_nil⟩
  | cons first rest ih => rw [listNodes, Node.within_append, List.forall_mem_cons, ih]

theorem Statement.within_block {span : Span} {statements : List Statement} :
    Within word (block span statements).nodes ↔ ∀ statement ∈ statements, Within word statement.nodes :=
  (Node.within_inside rfl).trans within_listNodes

theorem Statement.run_traverseList (traversal : Traversal Id) (entries : List Statement) :
    Id.run (traverseList traversal entries) = entries.map fun entry => Id.run (entry.traverse traversal) := by
  induction entries with
  | nil => rfl
  | cons entry entries ih => exact congrArg (Id.run (entry.traverse traversal) :: ·) ih

end Traverse

end InlineMacro
