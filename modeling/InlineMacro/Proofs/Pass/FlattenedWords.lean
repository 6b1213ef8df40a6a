import InlineMacro.Proofs.Pass.FlattenRewriting
import InlineMacro.Proofs.Pass.NormalForm

/-!
# Words before macros are made

Normal form moves statements and adds no word, and flattening adds the names of temporaries, whose
types are written with the words of what is returned.
-/

set_option autoImplicit false

namespace InlineMacro

open Node (Within)

variable {word : Word → Prop}

/-! ## Types -/

namespace CType

theorem within_withoutBodies : ∀ type : CType, Within word type.nodes → Within word type.withoutBodies.nodes
  | .record kind (some tag) fields => fun within => by
    have names : ∀ name ∈ (Node.type (.record kind (some tag) fields)).names, word (.other name) := by
      cases fields <;> exact (Node.within_type.mp within).1
    refine Node.within_type.mpr ⟨fun name stands => names name ?_, Node.within_nil⟩
    exact List.mem_append_left _ ((List.mem_append.mp stands).resolve_right List.not_mem_nil)
  | .enumeration (some tag) enumerators => fun within => by
    have names : ∀ name ∈ (Node.type (.enumeration (some tag) enumerators)).names, word (.other name) := by
      cases enumerators <;> exact (Node.within_type.mp within).1
    refine Node.within_type.mpr ⟨fun name stands => names name ?_, Node.within_nil⟩
    exact List.mem_append_left _ ((List.mem_append.mp stands).resolve_right List.not_mem_nil)
  | .pointer _ target | .array target none | .qualified _ target => fun within =>
    (Node.within_inside rfl).mpr (target.within_withoutBodies ((Node.within_inside rfl).mp within))
  | .array element (some size) => fun within => by
    have parts := Node.within_append.mp ((Node.within_inside rfl).mp within)
    exact (Node.within_inside rfl).mpr (Node.within_append.mpr
      ⟨element.within_withoutBodies parts.1, parts.2⟩)
  | .function result parameters _ => fun within => by
    obtain ⟨names, inside⟩ := Node.within_type.mp within
    have parts := Node.within_append.mp inside
    exact Node.within_type.mpr ⟨names, Node.within_append.mpr ⟨result.within_withoutBodies parts.1, parts.2⟩⟩
  | .record _ none _ | .enumeration none _ | .basic _ | .named _ => id

theorem within_unqualified : ∀ type : CType, Within word type.nodes → Within word type.unqualified.nodes
  | .qualified _ inner => fun within => inner.within_unqualified ((Node.within_inside rfl).mp within)
  | .basic _ | .pointer .. | .array .. | .function .. | .record .. | .enumeration ..
  | .named _ => id

theorem within_valueType {type : CType} (within : Within word type.nodes) : Within word type.valueType.nodes := by
  have bare := type.within_unqualified within
  unfold valueType
  split
  · next same =>
    rw [same] at bare
    exact (Node.within_inside rfl).mpr (Node.within_cons.mp bare).2
  · exact within_withoutBodies _ bare

end CType

/-! ## Normal form -/

namespace Statement

theorem within_ofDeclaration {declared : Declaration} :
    Within word (ofDeclaration declared).nodes ↔ Within word declared.nodes := by
  simp [ofDeclaration, nodes, Node.words, Node.names]

variable {statement : Statement}

theorem within_blockOf {becomes : Statement} (within : Within word becomes.nodes) :
    Within word (statement.blockOf becomes).nodes := by
  unfold blockOf
  split
  · exact within
  · exact within_block.mpr (List.forall_mem_singleton.mpr within)

theorem within_labelledBlockOf {becomes : Statement} (within : Within word becomes.nodes) :
    Within word (statement.labelledBlockOf becomes).nodes := by
  unfold labelledBlockOf
  split
  · exact within
  · exact within_blockOf within

theorem within_brace (within : Within word statement.nodes) :
    Within word statement.brace.nodes := by
  induction statement with
  | block span statements ih =>
    rw [within_block] at within
    rw [brace, within_block, braceList_eq_map]
    exact List.forall_mem_map.mpr fun statement member => ih statement member (within statement member)
  | ifThen span condition thenBranch ih =>
    simp only [brace, nodes, optionNodes, Node.within_cons, Node.within_append] at within ⊢
    exact ⟨within.1, ⟨within.2.1.1, within_blockOf (ih within.2.1.2)⟩,
      within_block.mpr fun _ member => absurd member List.not_mem_nil⟩
  | ifElse span condition thenBranch elseBranch thenIh elseIh =>
    simp only [brace, nodes, optionNodes, Node.within_cons, Node.within_append] at within ⊢
    exact ⟨within.1, ⟨within.2.1.1, within_blockOf (thenIh within.2.1.2)⟩, within_blockOf (elseIh within.2.2)⟩
  | whileLoop span condition body ih | switch span subject body ih =>
    simp only [brace, nodes, Node.within_cons, Node.within_append] at within ⊢
    exact ⟨within.1, within.2.1, within_blockOf (ih within.2.2)⟩
  | bareLoop span condition update body ih =>
    simp only [brace, nodes, optionNodes, Node.within_cons, Node.within_append] at within ⊢
    exact ⟨within.1, within.2.1, within_blockOf (ih within.2.2)⟩
  | forLoop span init condition update body initIh bodyIh =>
    simp only [brace, nodes, optionNodes, Node.within_cons, Node.within_append] at within ⊢
    exact ⟨within.1, ⟨⟨initIh within.2.1.1.1, within.2.1.1.2⟩, within.2.1.2⟩,
      within_blockOf (bodyIh within.2.2)⟩
  | doWhile span body condition ih =>
    simp only [brace, nodes, Node.within_cons, Node.within_append] at within ⊢
    exact ⟨within.1, within_blockOf (ih within.2.1), within.2.2⟩
  | caseLabel span value marked ih =>
    simp only [brace, nodes, Node.within_cons, Node.within_append] at within ⊢
    exact ⟨within.1, within.2.1, within_labelledBlockOf (ih within.2.2)⟩
  | defaultLabel span marked ih | labelled span marker marked ih =>
    simp only [brace, nodes, Node.within_cons] at within ⊢
    exact ⟨within.1, within_labelledBlockOf (ih within.2)⟩
  | expression | declaration | typeDefinition | returnStatement | breakStatement
  | continueStatement | gotoStatement | empty => exact within

theorem within_precededBy {body : Statement} {front : List Statement}
    (fronts : ∀ statement ∈ front, Within word statement.nodes)
    (within : Within word body.nodes) : Within word (body.precededBy front).nodes := by
  cases body with
  | block span statements =>
    exact within_block.mpr (List.forall_mem_append.mpr ⟨fronts, within_block.mp within⟩)
  | _ => exact within

theorem within_of_mem_declared (within : Within word statement.nodes)
    {declared : Declaration} (member : declared ∈ statement.declared) : Within word declared.nodes := by
  cases statement with
  | declaration span declarations =>
    exact Node.within_flatMap.mp (Node.within_cons.mp within).2 declared member
  | _ => cases member

end Statement

theorem Declaration.Yields.within (values : ∀ name, word (.other name) → word (.value name))
    {declared : Declaration} {statement : Statement} (yields : declared.Yields statement)
    (within : Within word declared.nodes) : Within word statement.nodes := by
  obtain ⟨name, parts⟩ := Node.within_declaration.mp within
  have separate := Node.within_append.mp parts
  cases yields with
  | whole => exact Statement.within_ofDeclaration.mpr within
  | bare =>
    refine Statement.within_ofDeclaration.mpr (Node.within_declaration.mpr ⟨name, ?_⟩)
    exact Node.within_append.mpr ⟨separate.1, Node.within_nil⟩
  | firstValue span value initialized =>
    rw [initialized] at separate
    have given := (Node.within_inside rfl).mp separate.2
    refine (Node.within_inside rfl).mpr ((Node.within_inside rfl).mpr (Node.within_append.mpr
      ⟨Node.within_cons.mpr ⟨List.forall_mem_singleton.mpr (values _ name), Node.within_nil⟩, given⟩))

namespace Statement

theorem within_splitDeclarations (values : ∀ name, word (.other name) → word (.value name))
    {statement : Statement} (within : Within word statement.nodes) :
    Within word statement.splitDeclarations.nodes := by
  induction statement with
  | block span entries ih =>
    rw [within_block] at within
    rw [splitDeclarations, within_block]
    intro statement member
    obtain ⟨entry, found, stems⟩ := stemsFrom_of_mem_splitBlock statement member
    cases stems with
    | declaration => exact within _ found
    | yields declared among statement yields =>
      exact yields.within values (within_of_mem_declared (within _ found) among)
    | inside => exact ih entry found (within _ found)
  | ifThen span condition thenBranch ih =>
    simp only [splitDeclarations, nodes, optionNodes, Node.within_cons, Node.within_append] at within ⊢
    exact ⟨within.1, ⟨within.2.1.1, ih within.2.1.2⟩, within.2.2⟩
  | ifElse span condition thenBranch elseBranch thenIh elseIh =>
    simp only [splitDeclarations, nodes, optionNodes, Node.within_cons, Node.within_append] at within ⊢
    exact ⟨within.1, ⟨within.2.1.1, thenIh within.2.1.2⟩, elseIh within.2.2⟩
  | whileLoop span condition body ih | switch span subject body ih
  | caseLabel span value marked ih =>
    simp only [splitDeclarations, nodes, Node.within_cons, Node.within_append] at within ⊢
    exact ⟨within.1, within.2.1, ih within.2.2⟩
  | bareLoop span condition update body ih =>
    simp only [splitDeclarations, nodes, optionNodes, Node.within_cons, Node.within_append] at within ⊢
    exact ⟨within.1, within.2.1, ih within.2.2⟩
  | forLoop span init condition update body initIh bodyIh =>
    simp only [splitDeclarations, nodes, optionNodes, Node.within_cons, Node.within_append] at within ⊢
    exact ⟨within.1, ⟨⟨initIh within.2.1.1.1, within.2.1.1.2⟩, within.2.1.2⟩, bodyIh within.2.2⟩
  | doWhile span body condition ih =>
    simp only [splitDeclarations, nodes, Node.within_cons, Node.within_append] at within ⊢
    exact ⟨within.1, ih within.2.1, within.2.2⟩
  | defaultLabel span marked ih | labelled span marker marked ih =>
    simp only [splitDeclarations, nodes, Node.within_cons] at within ⊢
    exact ⟨within.1, ih within.2⟩
  | expression | declaration | typeDefinition | returnStatement | breakStatement
  | continueStatement | gotoStatement | empty => exact within

end Statement

/-! ## Functions -/

namespace Function

variable {function : Function}

theorem within_nodes : Within word function.nodes ↔
      (word (.other function.name) ∧ ∀ name ∈ function.parameters.filterMap Parameter.name, word (.other name)) ∧
        (Within word function.result.nodes ∧ Within word (Parameter.listNodes function.parameters)) ∧
        Within word function.body.nodes := by
  simp only [nodes, Node.words, Node.names, Node.within_cons, Node.within_append, List.forall_mem_map,
    List.forall_mem_cons, and_assoc]

variable (values : ∀ name, word (.other name) → word (.value name))

include values

theorem within_normalize (within : Within word function.nodes) : Within word function.normalize.nodes := by
  rw [within_nodes] at within ⊢
  exact ⟨within.1, within.2.1, Statement.within_splitDeclarations values (Statement.within_brace within.2.2)⟩

/-- The words of a flattened function are those of the function, of what is returned by the functions
that are called, and the names of temporaries. -/
theorem Flattening.within {targets : Association CType} {result : Function}
    {registry after : Registry} {temporaries : List Declaration} {body : Statement}
    (flattening : function.Flattening targets registry result after temporaries body)
    (within : Within word function.nodes)
    (types : ∀ callee type, targets.find? callee = some type → Within word type.nodes)
    (new : ∀ callee number, targets.contains callee →
      Registry.numbered (callee ++ "_ret") number ∈ after.used →
        word (.other (Registry.numbered (callee ++ "_ret") number))) :
    Within word result.nodes := by
  rw [within_nodes] at within
  have rewrites := flattening.rewrites word fun callee before isTarget _ inUse =>
    values _ (new callee _ isTarget inUse)
  have inside : Within word body.nodes := rewrites.within (fun _ isWord => isWord) within.2.2
  have objects : ∀ statement ∈ temporaries.map Statement.ofDeclaration,
      Within word statement.nodes := by
    refine List.forall_mem_map.mpr fun temporary member => Statement.within_ofDeclaration.mpr ?_
    obtain ⟨callee, type, found, same⟩ := flattening.made temporary member
    obtain ⟨stem, number, isTarget, named⟩ := flattening.named temporary member
    have inUse := (flattening.issues.used _).mpr (.inl (List.mem_map_of_mem member))
    refine Node.within_declaration.mpr ⟨?_, Node.within_append.mpr ⟨?_, ?_⟩⟩
    · rw [named] at inUse ⊢
      exact new stem number isTarget inUse
    · rw [same]
      exact CType.within_valueType (types callee type found)
    · rw [same]
      exact Node.within_nil
  rw [flattening.result, within_nodes]
  exact ⟨within.1, within.2.1, Statement.within_precededBy objects inside⟩

end Function

end InlineMacro
