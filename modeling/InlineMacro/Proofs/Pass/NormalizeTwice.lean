import InlineMacro.Proofs.Run.Success

/-!
# Normalizing twice

Bracing what is braced changes nothing. A block in order comes out of a second ordering as it went
in if its first statement behind the declarations at its start is no declaration: what stayed where
it was the first time was kept there by something that is still in front of it. A declaration that
does not come apart may stand in front of that statement, held there by the one that does; it is one
of the declarations at the start the second time, so it must not name anything declared behind it.
-/

set_option autoImplicit false

namespace InlineMacro

/-! ## Declarations that are taken apart cleanly -/

def Declaration.comesApart (declared : Declaration) : Bool :=
  declared.isSplittable &&
    match declared.initializer with
    | some (.expression _ _) => true
    | _ => false

variable {declared : Declaration}

theorem Declaration.comesApart_of_needsSplit (needsSplit : declared.needsSplit) : declared.comesApart := by
  rw [Declaration.needsSplit, Bool.and_eq_true] at needsSplit
  obtain ⟨splittable, calls⟩ := needsSplit
  rw [comesApart, splittable, Bool.true_and]
  cases initialized : declared.initializer with
  | none => simp [initialized] at calls
  | some initializer =>
    cases initializer with
    | expression span value => rfl
    | _ => simp [initialized] at calls

namespace Statement

def introducesType : Statement → Bool
  | .typeDefinition .. => true
  | .declaration _ declarations => declarations.any Declaration.isTypedef
  | _ => false

def leads (statement : Statement) : Bool :=
  statement.isDeclaration && !statement.declared.any Declaration.needsSplit

end Statement

theorem Statement.leads_ofDeclaration
    (whole : declared.comesApart = false) : (ofDeclaration declared).leads := by
  have stays : declared.needsSplit = false := by
    rw [Bool.eq_false_iff]
    exact fun split => Bool.eq_false_iff.mp whole (Declaration.comesApart_of_needsSplit split)
  simp [leads, ofDeclaration, isDeclaration, Statement.declared, stays]

/-- Whether the first declaration of a block that is taken apart leaves in front of itself, in its
own statement, nothing that names what is declared behind. -/
def Statement.splitCleanly : List Statement → Bool
  | [] => true
  | first :: rest =>
    if first.leads then splitCleanly rest
    else
      let held := first.declared.takeWhile (!·.comesApart)
      let later := first.declared.dropWhile (!·.comesApart) ++ rest.flatMap Statement.declared
      held.all (!·.isTypedef) &&
        later.all fun declared =>
          !declared.isSplittable || !mention (held.map ofDeclaration) declared.name

def Statement.isCleanBlock : Statement → Bool
  | .block _ statements => splitCleanly statements
  | _ => true

/-- Whether declarations are taken apart cleanly in each block of the body, once there are all the
blocks that it gets. -/
def Function.splitsCleanly (function : Function) : Bool :=
  function.braced.body.parts.all Statement.isCleanBlock

/-! ## Bracing twice -/

namespace Statement

variable {statement : Statement}

theorem blockOf_of_isBlock (isBlock : statement.isBlock)
    (becomes : Statement) : statement.blockOf becomes = becomes :=
  if_pos isBlock

theorem labelledBlockOf_of_isMarked (marked : statement.isMarked)
    (becomes : Statement) : statement.labelledBlockOf becomes = becomes := by
  unfold labelledBlockOf
  split
  · rfl
  · next other =>
    refine blockOf_of_isBlock ?_ becomes
    unfold isMarked at marked
    cases isBlock : statement.isBlock with
    | true => rfl
    | false =>
      rw [isBlock, Bool.false_or] at marked
      exact absurd marked other

theorem Braced.brace_eq (braced : statement.Braced) : statement.brace = statement := by
  induction braced with
  | block span statements each ih =>
    rw [brace, braceList_eq_map]
    exact congrArg (Statement.block span) ((List.map_congr_left ih).trans (List.map_id' statements))
  | ifElse span condition thenBranch elseBranch thenBlock elseBlock _ _ thenIh elseIh =>
    rw [brace, blockOf_of_isBlock thenBlock, blockOf_of_isBlock elseBlock, thenIh, elseIh]
  | whileLoop span condition body bodyBlock _ ih => rw [brace, blockOf_of_isBlock bodyBlock, ih]
  | bareLoop span condition update body bodyBlock _ ih =>
    rw [brace, blockOf_of_isBlock bodyBlock, ih]
  | forLoop span init condition update body head bodyBlock _ ih =>
    rw [brace, brace_of_head head, blockOf_of_isBlock bodyBlock, ih]
  | doWhile span body condition bodyBlock _ ih => rw [brace, blockOf_of_isBlock bodyBlock, ih]
  | switch span subject body bodyBlock _ ih => rw [brace, blockOf_of_isBlock bodyBlock, ih]
  | caseLabel span value statement marked _ ih =>
    rw [brace, labelledBlockOf_of_isMarked marked, ih]
  | defaultLabel span statement marked _ ih => rw [brace, labelledBlockOf_of_isMarked marked, ih]
  | labelled span label statement marked _ ih =>
    rw [brace, labelledBlockOf_of_isMarked marked, ih]
  | _ => rfl

end Statement

/-! ## Expressions stay -/

theorem Statement.mem_listNodes {statements : List Statement} {node : Node} :
    node ∈ listNodes statements ↔ ∃ statement ∈ statements, node ∈ statement.nodes := by
  induction statements with
  | nil => simp [listNodes]
  | cons first rest ih => simp [listNodes, ih]

theorem Statement.mention_iff {statements : List Statement} {name : String} :
    mention statements name ↔ ∃ statement ∈ statements, ∃ span,
      .expression (.identifier span name) ∈ statement.nodes := by
  unfold mention
  rw [List.any_eq_true]
  constructor
  · rintro ⟨node, member, isName⟩
    obtain ⟨statement, found, inside⟩ := mem_listNodes.mp member
    cases node with
    | expression value =>
      cases value with
      | identifier span other =>
        simp only [Expr.identifier?, beq_iff_eq, Option.some.injEq] at isName
        exact ⟨statement, found, span, isName ▸ inside⟩
      | _ => simp [Expr.identifier?] at isName
    | _ => cases isName
  · rintro ⟨statement, found, span, inside⟩
    exact ⟨_, mem_listNodes.mpr ⟨statement, found, inside⟩, by simp [Expr.identifier?]⟩

theorem Statement.mention_append (first second : List Statement) (name : String) :
    mention (first ++ second) name = (mention first name || mention second name) := by
  rw [Bool.eq_iff_iff, Bool.or_eq_true, mention_iff, mention_iff, mention_iff]
  simp only [List.mem_append, or_and_right, exists_or]

theorem Statement.mention_mono {some all : List Statement} {name : String} (among : some ⊆ all)
    (mentioned : mention some name) : mention all name := by
  obtain ⟨statement, member, span, inside⟩ := mention_iff.mp mentioned
  exact mention_iff.mpr ⟨statement, among member, span, inside⟩

namespace BlockParts

def Contains (parts : BlockParts) (value : Expr) : Prop :=
  ∃ statement ∈ parts.statements, .expression value ∈ statement.nodes

variable {parts : BlockParts} {value : Expr}

theorem Contains.widen {wider : BlockParts} (contains : parts.Contains value)
    (leading : parts.leading ⊆ wider.leading) (hoisted : parts.hoisted ⊆ wider.hoisted)
    (rest : parts.rest ⊆ wider.rest) : wider.Contains value := by
  obtain ⟨statement, member, inside⟩ := contains
  refine ⟨statement, mem_statements.mpr ?_, inside⟩
  rcases mem_statements.mp member with member | member | member
  · exact .inl (leading member)
  · exact .inr (.inl (hoisted member))
  · exact .inr (.inr (List.map_subset Prod.snd rest member))

theorem addDeclaration_extends (parts : BlockParts) (declared : Declaration) :
    (parts.addDeclaration declared).leading = parts.leading ∧
      parts.hoisted ⊆ (parts.addDeclaration declared).hoisted ∧
      ∃ more, (parts.addDeclaration declared).rest = parts.rest ++ more := by
  unfold addDeclaration
  split
  · split
    · exact ⟨rfl, List.subset_append_left _ _, [], (List.append_nil _).symm⟩
    · exact ⟨rfl, List.subset_append_left _ _, _, rfl⟩
    · exact ⟨rfl, List.Subset.refl _, _, rfl⟩
  · exact ⟨rfl, List.Subset.refl _, _, rfl⟩

theorem foldl_addDeclaration_extends (declarations : List Declaration) (parts : BlockParts) :
    (declarations.foldl addDeclaration parts).leading = parts.leading ∧
      parts.hoisted ⊆ (declarations.foldl addDeclaration parts).hoisted ∧
      ∃ more, (declarations.foldl addDeclaration parts).rest = parts.rest ++ more := by
  induction declarations generalizing parts with
  | nil => exact ⟨rfl, List.Subset.refl _, [], (List.append_nil _).symm⟩
  | cons first rest ih =>
    obtain ⟨leading, hoisted, more, same⟩ := parts.addDeclaration_extends first
    obtain ⟨laterLeading, laterHoisted, others, laterSame⟩ := ih (parts.addDeclaration first)
    refine ⟨laterLeading.trans leading, List.Subset.trans hoisted laterHoisted, more ++ others, ?_⟩
    rw [List.foldl_cons, laterSame, same, List.append_assoc]

theorem Contains.addAll (contains : parts.Contains value) (declarations : List Declaration) :
    (declarations.foldl addDeclaration parts).Contains value := by
  obtain ⟨leading, hoisted, more, same⟩ := foldl_addDeclaration_extends declarations parts
  exact contains.widen (leading ▸ List.Subset.refl _) hoisted (same ▸ List.subset_append_left _ _)

theorem contains_addDeclaration {declared : Declaration} (inside : .expression value ∈ declared.nodes) :
    (parts.addDeclaration declared).Contains value := by
  have whole : .expression value ∈ (Statement.ofDeclaration declared).nodes := by
    simpa [Statement.ofDeclaration, Statement.nodes] using inside
  unfold addDeclaration
  split
  · split
    · refine ⟨_, mem_statements.mpr (.inr (.inl ?_)), whole⟩
      exact List.mem_append_right _ (List.mem_singleton_self _)
    · next span first initialized =>
      simp only [Declaration.nodes, initialized, optionalNodes, Initializer.nodes, List.mem_cons,
        List.mem_append, reduceCtorEq, false_or] at inside
      rcases inside with inType | inValue
      · refine ⟨_, mem_statements.mpr
          (.inr (.inl (List.mem_append_right _ (List.mem_singleton_self _)))), ?_⟩
        simp [Statement.ofDeclaration, Statement.nodes, Declaration.nodes, optionalNodes, inType]
      · refine ⟨_, mem_statements.mpr (.inr (.inr (List.mem_map_of_mem
          (List.mem_append_right _ (List.mem_singleton_self _))))), ?_⟩
        simp [Statement.nodes, Expr.assignment, Expr.nodes, inValue]
    · exact ⟨_, mem_statements.mpr (.inr (.inr (List.mem_map_of_mem
        (List.mem_append_right _ (List.mem_singleton_self _))))), whole⟩
  · exact ⟨_, mem_statements.mpr (.inr (.inr (List.mem_map_of_mem
      (List.mem_append_right _ (List.mem_singleton_self _))))), whole⟩

theorem contains_addAll {declarations : List Declaration} {declared : Declaration}
    (member : declared ∈ declarations) (inside : .expression value ∈ declared.nodes) :
    (declarations.foldl addDeclaration parts).Contains value := by
  induction declarations generalizing parts with
  | nil => cases member
  | cons first rest ih =>
    rcases List.mem_cons.mp member with rfl | member
    · exact (contains_addDeclaration inside).addAll rest
    · exact ih member

theorem Contains.add (contains : parts.Contains value) (entry becomes : Statement) :
    (parts.add entry becomes).Contains value := by
  unfold BlockParts.add
  split
  · split
    · exact contains.widen (List.subset_append_left _ _) (List.Subset.refl _) (List.Subset.refl _)
    · have still : Contains { parts with inLeading := false } value :=
        contains.widen (List.Subset.refl _) (List.Subset.refl _) (List.Subset.refl _)
      exact still.addAll _
  · split
    · exact contains.widen (List.subset_append_left _ _) (List.Subset.refl _) (List.Subset.refl _)
    · exact contains.widen (List.Subset.refl _) (List.Subset.refl _) (List.subset_append_left _ _)

theorem contains_add {entry becomes : Statement} (inside : .expression value ∈ entry.nodes)
    (still : .expression value ∈ becomes.nodes) : (parts.add entry becomes).Contains value := by
  unfold BlockParts.add
  split
  · next span declarations =>
    split
    · exact ⟨_, mem_statements.mpr (.inl (List.mem_append_right _ (List.mem_singleton_self _))),
        inside⟩
    · simp only [Statement.nodes, List.mem_cons, reduceCtorEq, List.mem_flatMap, false_or] at inside
      obtain ⟨declared, member, inside⟩ := inside
      exact contains_addAll member inside
  · split
    · exact ⟨_, mem_statements.mpr (.inl (List.mem_append_right _ (List.mem_singleton_self _))),
        inside⟩
    · exact ⟨_, mem_statements.mpr (.inr (.inr (List.mem_map_of_mem
        (List.mem_append_right _ (List.mem_singleton_self _))))), still⟩

end BlockParts

theorem contains_splitBlock {entries : List Statement} {entry : Statement} {value : Expr}
    (member : entry ∈ entries) (inside : .expression value ∈ entry.nodes)
    (still : .expression value ∈ entry.splitDeclarations.nodes) :
    ∃ statement ∈ splitBlock entries (Statement.splitDeclarationsList entries),
      .expression value ∈ statement.nodes := by
  rw [splitBlock_eq_foldl]
  have later : ∀ (rest : List Statement) (parts : BlockParts), parts.Contains value →
      BlockParts.Contains (rest.foldl (fun parts entry => parts.add entry entry.splitDeclarations)
        parts) value := by
    intro rest
    induction rest with
    | nil => exact fun _ contains => contains
    | cons first rest ih => exact fun parts contains => ih _ (contains.add first _)
  have all : ∀ (rest : List Statement) (parts : BlockParts), entry ∈ rest →
      BlockParts.Contains (rest.foldl (fun parts entry => parts.add entry entry.splitDeclarations)
        parts) value := by
    intro rest
    induction rest with
    | nil => exact fun _ impossible => absurd impossible List.not_mem_nil
    | cons first rest ih =>
      intro parts among
      rcases List.mem_cons.mp among with rfl | among
      · exact later rest _ (BlockParts.contains_add inside still)
      · exact ih _ among
  exact all entries {} member

variable {statement : Statement}

theorem Statement.expression_mem_splitDeclarations {value : Expr}
    (inside : .expression value ∈ statement.nodes) :
    .expression value ∈ statement.splitDeclarations.nodes := by
  induction statement with
  | block span statements each =>
    simp only [nodes, List.mem_cons, reduceCtorEq, mem_listNodes, false_or] at inside
    obtain ⟨entry, member, inside⟩ := inside
    simp only [splitDeclarations, nodes, List.mem_cons, reduceCtorEq, mem_listNodes, false_or]
    exact contains_splitBlock member inside (each entry member inside)
  | ifThen span condition thenBranch ih =>
    simp only [splitDeclarations, nodes, optionNodes, List.mem_cons, reduceCtorEq, List.mem_append,
      false_or] at inside ⊢
    exact inside.imp_left (·.imp_right ih)
  | ifElse span condition thenBranch elseBranch thenIh elseIh =>
    simp only [splitDeclarations, nodes, optionNodes, List.mem_cons, reduceCtorEq, List.mem_append,
      false_or] at inside ⊢
    exact inside.imp (·.imp_right thenIh) elseIh
  | bareLoop span condition update body ih =>
    simp only [splitDeclarations, nodes, optionNodes, List.mem_cons, reduceCtorEq, List.mem_append,
      false_or] at inside ⊢
    exact inside.imp_right ih
  | forLoop span init condition update body initIh bodyIh =>
    simp only [splitDeclarations, nodes, optionNodes, List.mem_cons, reduceCtorEq, List.mem_append,
      false_or] at inside ⊢
    exact inside.imp (·.imp_left (·.imp_left initIh)) bodyIh
  | doWhile span body condition ih =>
    simp only [splitDeclarations, nodes, List.mem_cons, reduceCtorEq, List.mem_append, false_or] at inside ⊢
    exact inside.imp_left ih
  | whileLoop _ _ _ ih | switch _ _ _ ih | caseLabel _ _ _ ih =>
    simp only [splitDeclarations, nodes, List.mem_cons, reduceCtorEq, List.mem_append, false_or] at inside ⊢
    exact inside.imp_right ih
  | defaultLabel _ _ ih | labelled _ _ _ ih =>
    simp only [splitDeclarations, nodes, List.mem_cons, reduceCtorEq, false_or] at inside ⊢
    exact ih inside
  | _ => exact inside

/-! ## What stays where it is -/

/-- The declaration does not move over the statements in front of it: a type was introduced there,
its name is used there, or it cannot be parted from its value. -/
def Declaration.StaysBehind (earlier : List Statement) (declared : Declaration) : Prop :=
  earlier.any Statement.introducesType = false → declared.isSplittable →
    Statement.mention earlier declared.name = false →
      ∃ initializer, declared.initializer = some initializer ∧
        ∀ span value, initializer ≠ .expression span value

def Statement.StaysBehind (earlier : List Statement) (statement : Statement) : Prop :=
  ∀ span declarations, statement = .declaration span declarations →
    ∃ declared : Declaration, statement = .ofDeclaration declared ∧ declared.StaysBehind earlier

/-- What becomes of a statement is in order, introduces the same types and has its expressions. -/
structure Statement.Settles (entry becomes : Statement) : Prop where
  inOrder : becomes.splitDeclarations = becomes
  introducesType : becomes.introducesType = entry.introducesType
  expressions : ∀ value, .expression value ∈ entry.nodes → .expression value ∈ becomes.nodes

theorem Statement.Settles.refl
    (inOrder : statement.splitDeclarations = statement) : statement.Settles statement :=
  ⟨inOrder, rfl, fun _ inside => inside⟩

theorem Statement.introducesType_splitDeclarations (statement : Statement) :
    statement.splitDeclarations.introducesType = statement.introducesType := by
  induction statement <;> rfl

theorem Statement.isDeclaration_splitDeclarations (statement : Statement) :
    statement.splitDeclarations.isDeclaration = statement.isDeclaration := by
  induction statement <;> rfl

theorem Statement.introducesType_of_not_declaration
    (other : statement.isDeclaration = false) : statement.introducesType = false := by
  cases statement with
  | declaration | typeDefinition => cases other
  | _ => rfl

theorem Statement.staysBehind_of_not_declaration (statement : Statement)
    (other : ∀ span declarations, statement ≠ .declaration span declarations)
    (earlier : List Statement) : statement.StaysBehind earlier :=
  fun span declarations same => absurd same (other span declarations)

theorem Declaration.staysBehind_of_not_canMove {parts : BlockParts}
    (canHoist : parts.canHoist = !(parts.rest.map Prod.fst).any Statement.introducesType)
    (stays : ¬ parts.canMove declared) :
    (Statement.ofDeclaration declared).StaysBehind (parts.rest.map Prod.fst) := by
  intro span declarations _
  refine ⟨declared, rfl, fun noType splittable unmentioned => absurd ?_ stays⟩
  rw [BlockParts.canMove, canHoist, noType, splittable, unmentioned]
  rfl

theorem Declaration.not_isTypedef_of_isSplittable
    (splittable : declared.isSplittable) : declared.isTypedef = false := by
  unfold isTypedef
  cases storage : declared.storage with
  | none => rfl
  | some storageClass =>
    cases storageClass with
    | typeAlias => simp [isSplittable, storage] at splittable
    | _ => rfl

namespace BlockParts

/-- The parts of a block in which nothing has to be moved any more. -/
structure Ordered (parts : BlockParts) : Prop where
  leads : ∀ statement ∈ parts.leading ++ parts.hoisted, statement.leads
  canHoist : parts.canHoist = !(parts.rest.map Prod.fst).any Statement.introducesType
  stays : ∀ before entry after, parts.rest = before ++ entry :: after →
    entry.2.StaysBehind (before.map Prod.fst)
  settles : ∀ entry ∈ parts.rest, entry.1.Settles entry.2

namespace Ordered

variable {parts : BlockParts}

theorem lead (ordered : parts.Ordered) {statement : Statement} (leads : statement.leads) :
    Ordered { parts with leading := parts.leading ++ [statement] } where
  leads := by
    intro other member
    simp only [List.append_assoc, List.mem_append, List.mem_singleton] at member
    rcases member with member | rfl | member
    · exact ordered.leads other (List.mem_append_left _ member)
    · exact leads
    · exact ordered.leads other (List.mem_append_right _ member)
  canHoist := ordered.canHoist
  stays := ordered.stays
  settles := ordered.settles

theorem hoist (ordered : parts.Ordered) {declared : Declaration}
    (bare : declared.initializer = none) : (parts.hoist declared).Ordered where
  leads := by
    intro other member
    simp only [BlockParts.hoist, ← List.append_assoc, List.mem_append, List.mem_singleton] at member
    rcases member with member | rfl
    · exact ordered.leads other (List.mem_append.mpr member)
    · simp [Statement.leads, Statement.ofDeclaration, Statement.isDeclaration, Statement.declared,
        Declaration.needsSplit, bare]
  canHoist := ordered.canHoist
  stays := ordered.stays
  settles := ordered.settles

theorem rest (ordered : parts.Ordered) {entry becomes : Statement}
    (stays : becomes.StaysBehind (parts.rest.map Prod.fst)) (settles : entry.Settles becomes) :
    Ordered { parts with
      canHoist := parts.canHoist && !entry.introducesType
      rest := parts.rest ++ [(entry, becomes)] } where
  leads := ordered.leads
  canHoist := by simp [ordered.canHoist]
  stays := by
    intro before other after same
    rcases List.eq_nil_or_concat after with rfl | ⟨others, last, rfl⟩
    · obtain ⟨front, last⟩ := List.append_inj' same rfl
      obtain rfl := List.singleton_inj.mp last
      rw [← front]
      exact stays
    · rw [List.concat_eq_append, ← List.cons_append, ← List.append_assoc] at same
      exact ordered.stays before other others (List.append_inj' same rfl).1
  settles := by
    intro other member
    rcases List.mem_append.mp member with member | member
    · exact ordered.settles other member
    · rw [List.mem_singleton.mp member]
      exact settles

theorem addDeclaration (ordered : parts.Ordered) (declared : Declaration) :
    (parts.addDeclaration declared).Ordered := by
  have declares : (Statement.ofDeclaration declared).introducesType = declared.isTypedef :=
    Bool.or_false _
  unfold BlockParts.addDeclaration
  split
  · next moves =>
    have splittable : declared.isSplittable := by
      simp only [canMove, Bool.and_eq_true] at moves
      exact moves.1.2
    split
    · next bare => exact ordered.hoist bare
    · next span value initialized =>
      have hoisted : (parts.hoist { declared with initializer := none }).Ordered :=
        ordered.hoist rfl
      have added := hoisted.rest (Statement.staysBehind_of_not_declaration
        (.expression declared.span (.assignment (.identifier declared.span declared.name) value))
        (by simp) _) (.refl rfl)
      refine ⟨added.leads, ?_, added.stays, added.settles⟩
      simpa [Statement.introducesType, keep] using added.canHoist
    · next initializer other initialized =>
      have stays : (Statement.ofDeclaration declared).StaysBehind (parts.rest.map Prod.fst) :=
        fun _ _ _ => ⟨declared, rfl, fun _ _ _ => ⟨initializer, initialized, other⟩⟩
      have added := ordered.rest stays (.refl rfl)
      rwa [declares, Declaration.not_isTypedef_of_isSplittable splittable, Bool.not_false,
        Bool.and_true] at added
  · next stays =>
    have added := ordered.rest (Declaration.staysBehind_of_not_canMove ordered.canHoist stays) (.refl rfl)
    rwa [declares] at added

theorem addAll (ordered : parts.Ordered) (declarations : List Declaration) :
    (declarations.foldl BlockParts.addDeclaration parts).Ordered := by
  induction declarations generalizing parts with
  | nil => exact ordered
  | cons first rest ih => exact ih (ordered.addDeclaration first)

theorem add (ordered : parts.Ordered) {entry : Statement}
    (inOrder : entry.splitDeclarations.splitDeclarations = entry.splitDeclarations) :
    (parts.add entry entry.splitDeclarations).Ordered := by
  unfold BlockParts.add
  split
  · next span declarations =>
    split
    · next leads =>
      refine ordered.lead ?_
      rw [Bool.and_eq_true] at leads
      exact leads.2
    · have started : Ordered { parts with inLeading := false } :=
        ⟨ordered.leads, ordered.canHoist, ordered.stays, ordered.settles⟩
      exact started.addAll declarations
  · next other =>
    have declaresNone : entry.declared = [] := by
      cases entry with
      | declaration span declarations => exact absurd rfl (other span declarations)
      | _ => rfl
    have introduces : entry.isDeclaration = entry.introducesType := by
      cases entry with
      | declaration span declarations => exact absurd rfl (other span declarations)
      | _ => rfl
    split
    · next leads =>
      refine ordered.lead ?_
      rw [Bool.and_eq_true] at leads
      rw [Statement.leads, leads.2, declaresNone]
      rfl
    · have stays := Statement.staysBehind_of_not_declaration entry.splitDeclarations
        (fun span declarations same => by
          cases entry with
          | declaration span declarations => exact other span declarations rfl
          | ifElse span condition thenBranch elseBranch => cases elseBranch <;> cases same
          | forLoop span init condition update body => cases init <;> cases same
          | _ => cases same) (parts.rest.map Prod.fst)
      have added := ordered.rest stays ⟨inOrder, entry.introducesType_splitDeclarations,
        fun value => Statement.expression_mem_splitDeclarations⟩
      rw [introduces]
      exact ⟨added.leads, added.canHoist, added.stays, added.settles⟩

end Ordered

end BlockParts

/-! ## Ordering a block twice -/

def BlockParts.addEach (parts : BlockParts) (entries : List Statement) : BlockParts :=
  entries.foldl (fun parts entry => parts.add entry entry.splitDeclarations) parts

namespace BlockParts

variable {parts : BlockParts}

theorem addEach_append (parts : BlockParts) (first second : List Statement) :
    parts.addEach (first ++ second) = (parts.addEach first).addEach second :=
  List.foldl_append

def IsOpened (parts : BlockParts) : Prop :=
  ∃ entry others, parts.rest = entry :: others ∧ entry.2.isDeclaration = false

theorem IsOpened.addAll (opened : parts.IsOpened) (declarations : List Declaration) :
    (declarations.foldl addDeclaration parts).IsOpened := by
  obtain ⟨entry, others, same, other⟩ := opened
  obtain ⟨-, -, more, rest⟩ := foldl_addDeclaration_extends declarations parts
  exact ⟨entry, others ++ more, by rw [rest, same, List.cons_append], other⟩

theorem IsOpened.add (opened : parts.IsOpened) (entry becomes : Statement) :
    (parts.add entry becomes).IsOpened := by
  have extended : ∃ more, (parts.add entry becomes).rest = parts.rest ++ more := by
    unfold BlockParts.add
    split
    · next span declarations =>
      split
      · exact ⟨[], (List.append_nil _).symm⟩
      · exact (foldl_addDeclaration_extends declarations { parts with inLeading := false }).2.2
    · split
      · exact ⟨[], (List.append_nil _).symm⟩
      · exact ⟨_, rfl⟩
  obtain ⟨first, others, same, other⟩ := opened
  obtain ⟨more, rest⟩ := extended
  exact ⟨first, others ++ more, by rw [rest, same, List.cons_append], other⟩

theorem IsOpened.addEach (opened : parts.IsOpened) (entries : List Statement) :
    (parts.addEach entries).IsOpened := by
  induction entries generalizing parts with
  | nil => exact opened
  | cons first rest ih => exact ih (opened.add first _)

variable {entries : List Statement}

theorem Ordered.addEach (ordered : parts.Ordered) (inOrder : ∀ entry ∈ entries,
      entry.splitDeclarations.splitDeclarations = entry.splitDeclarations) :
    (parts.addEach entries).Ordered := by
  induction entries generalizing parts with
  | nil => exact ordered
  | cons first rest ih =>
    rw [List.forall_mem_cons] at inOrder
    exact ih (ordered.add inOrder.1) inOrder.2

variable {declared : Declaration}

theorem isOpened_addDeclaration (parts : BlockParts)
    (comesApart : declared.comesApart) (empty : parts.rest = []) (canHoist : parts.canHoist) :
    (parts.addDeclaration declared).IsOpened := by
  rw [Declaration.comesApart, Bool.and_eq_true] at comesApart
  obtain ⟨splittable, hasValue⟩ := comesApart
  have moves : parts.canMove declared := by
    simp [canMove, canHoist, splittable, empty, Statement.mention, Statement.listNodes]
  rw [addDeclaration, if_pos moves]
  cases initialized : declared.initializer with
  | none => simp [initialized] at hasValue
  | some initializer =>
    cases initializer with
    | expression span value => exact ⟨_, [], congrArg (· ++ [_]) empty, rfl⟩
    | _ => simp [initialized] at hasValue

/-! ### Statements that are held in front -/

theorem inLeading_addAll (declarations : List Declaration) (parts : BlockParts) :
    (declarations.foldl addDeclaration parts).inLeading = parts.inLeading := by
  induction declarations generalizing parts with
  | nil => rfl
  | cons first rest ih =>
    refine (ih _).trans ?_
    unfold addDeclaration
    split
    · split <;> rfl
    · rfl

theorem inLeading_add (started : parts.inLeading = false) (entry becomes : Statement) :
    (parts.add entry becomes).inLeading = false := by
  unfold BlockParts.add
  split
  · split
    · exact started
    · exact inLeading_addAll _ _
  · split
    · exact started
    · rfl

def behind (parts : BlockParts) (held : List Statement) : BlockParts :=
  { parts with rest := held.map (fun statement => (statement, statement)) ++ parts.rest }

variable {held : List Statement}

theorem statements_behind (parts : BlockParts) (held : List Statement) :
    (parts.behind held).statements =
      { parts with hoisted := parts.hoisted ++ held }.statements := by
  simp [behind, statements, Function.comp_def]

theorem keep_behind (parts : BlockParts) (held : List Statement) (statement : Statement) :
    (parts.behind held).keep statement = (parts.keep statement).behind held :=
  congrArg (fun rest => { parts with rest := rest }) (List.append_assoc ..)

theorem canMove_behind (unnamed : declared.isSplittable → Statement.mention held declared.name = false) :
    (parts.behind held).canMove declared = parts.canMove declared := by
  cases splittable : declared.isSplittable with
  | false => simp [canMove, splittable]
  | true =>
    have same : Statement.mention ((parts.behind held).rest.map Prod.fst) declared.name =
        Statement.mention (parts.rest.map Prod.fst) declared.name := by
      simp [behind, Function.comp_def, Statement.mention_append, unnamed splittable]
    rw [canMove, canMove, same]
    rfl

theorem addDeclaration_behind
    (unnamed : declared.isSplittable → Statement.mention held declared.name = false) :
    (parts.behind held).addDeclaration declared = (parts.addDeclaration declared).behind held := by
  unfold addDeclaration
  rw [canMove_behind unnamed]
  split
  · split
    · rfl
    · exact keep_behind (parts.hoist { declared with initializer := none }) held _
    · exact keep_behind parts held _
  · rw [keep_behind]
    rfl

theorem addAll_behind (parts : BlockParts) {declarations : List Declaration}
    (unnamed : ∀ declared ∈ declarations,
      declared.isSplittable → Statement.mention held declared.name = false) :
    declarations.foldl addDeclaration (parts.behind held) =
      (declarations.foldl addDeclaration parts).behind held := by
  induction declarations generalizing parts with
  | nil => rfl
  | cons first rest ih =>
    rw [List.forall_mem_cons] at unnamed
    rw [List.foldl_cons, List.foldl_cons, addDeclaration_behind unnamed.1, ih _ unnamed.2]

theorem addEach_behind (started : parts.inLeading = false)
    (unnamed : ∀ declared ∈ entries.flatMap Statement.declared,
      declared.isSplittable → Statement.mention held declared.name = false) :
    (parts.behind held).addEach entries = (parts.addEach entries).behind held := by
  induction entries generalizing parts with
  | nil => rfl
  | cons first rest ih =>
    rw [List.flatMap_cons, List.forall_mem_append] at unnamed
    have added : (parts.behind held).add first first.splitDeclarations =
        (parts.add first first.splitDeclarations).behind held := by
      unfold BlockParts.add
      split
      · next span declarations =>
        rw [if_neg (by simp [behind, started]), if_neg (by simp [started])]
        exact addAll_behind { parts with inLeading := false } unnamed.1
      · rw [if_neg (by simp [behind, started]), if_neg (by simp [started])]
        exact congrArg (fun rest => { parts with
          inLeading := false, canHoist := parts.canHoist && !first.isDeclaration, rest := rest })
          (List.append_assoc ..)
    have still : (parts.add first first.splitDeclarations).inLeading = false :=
      inLeading_add started first _
    change ((parts.behind held).add first first.splitDeclarations).addEach rest = _
    rw [added, ih still unnamed.2]
    rfl

theorem addAll_held (parts : BlockParts) {declarations : List Declaration}
    (whole : ∀ declared ∈ declarations, declared.comesApart = false ∧ declared.isTypedef = false)
    (empty : parts.rest = []) (held : List Statement) :
    ∃ moved others,
      declarations.foldl addDeclaration (parts.behind held) =
        { parts with hoisted := parts.hoisted ++ moved }.behind (held ++ others) ∧
      ∀ statement ∈ moved ++ others, statement ∈ declarations.map Statement.ofDeclaration := by
  induction declarations generalizing parts held with
  | nil => exact ⟨[], [], by simp, by simp⟩
  | cons first rest ih =>
    rw [List.forall_mem_cons] at whole
    obtain ⟨⟨stays, noType⟩, others⟩ := whole
    have kept : (parts.behind held).keep (.ofDeclaration first) =
        parts.behind (held ++ [.ofDeclaration first]) := by
      simp [behind, keep, empty]
    have step : (parts.behind held).addDeclaration first = (parts.hoist first).behind held ∨
        (parts.behind held).addDeclaration first =
          parts.behind (held ++ [.ofDeclaration first]) := by
      unfold addDeclaration
      split
      · next moves =>
        split
        · exact .inl rfl
        · next span value initialized =>
          have splittable : first.isSplittable := by
            simp only [canMove, Bool.and_eq_true] at moves
            exact moves.1.2
          simp [Declaration.comesApart, splittable, initialized] at stays
        · exact .inr kept
      · rw [noType, Bool.not_false, Bool.and_true, kept]
        exact .inr rfl
    rw [List.foldl_cons]
    rcases step with hoists | keeps
    · obtain ⟨moved, later, same, among⟩ := ih (parts.hoist first) others empty held
      refine ⟨.ofDeclaration first :: moved, later, ?_, ?_⟩
      · rw [hoists, same]
        simp [hoist]
      · rw [List.cons_append, List.map_cons, List.forall_mem_cons]
        exact ⟨List.mem_cons_self, fun statement member => List.mem_cons_of_mem _ (among _ member)⟩
    · obtain ⟨moved, later, same, among⟩ := ih parts others empty (held ++ [.ofDeclaration first])
      refine ⟨moved, .ofDeclaration first :: later, ?_, ?_⟩
      · rw [keeps, same, List.append_assoc, List.singleton_append]
      · simp only [List.mem_append, List.mem_cons, List.map_cons] at among ⊢
        rintro statement (member | rfl | member)
        · exact .inr (among statement (.inl member))
        · exact .inl rfl
        · exact .inr (among statement (.inr member))

/-! ### The second time -/

theorem addEach_leads (parts : BlockParts)
    (leads : ∀ entry ∈ entries, entry.leads) (inLeading : parts.inLeading) :
    parts.addEach entries = { parts with leading := parts.leading ++ entries } := by
  induction entries generalizing parts with
  | nil => simp [addEach]
  | cons first rest ih =>
    rw [List.forall_mem_cons] at leads
    have added : parts.add first first.splitDeclarations =
        { parts with leading := parts.leading ++ [first] } := by
      obtain ⟨isDeclaration, noSplit⟩ := Bool.and_eq_true _ _ ▸ leads.1
      cases first with
      | declaration span declarations => exact if_pos (by rw [inLeading]; exact noSplit)
      | typeDefinition span type => exact if_pos (by rw [inLeading]; rfl)
      | _ => cases isDeclaration
    change (parts.add first first.splitDeclarations).addEach rest = _
    rw [added]
    refine (ih { parts with leading := parts.leading ++ [first] } leads.2 inLeading).trans ?_
    rw [List.append_assoc, List.singleton_append]

theorem add_of_not_declaration (parts : BlockParts) {statement : Statement}
    (other : statement.isDeclaration = false) (becomes : Statement) :
    parts.add statement becomes =
      { parts with inLeading := false, rest := parts.rest ++ [(statement, becomes)] } := by
  cases statement with
  | declaration | typeDefinition => cases other
  | _ => simp [BlockParts.add, other]

theorem statements_add_stays {statement : Statement} (behind : parts.inLeading = false)
    (canHoist : parts.canHoist = !(parts.rest.map Prod.fst).any Statement.introducesType)
    (stays : statement.StaysBehind (parts.rest.map Prod.fst))
    (inOrder : statement.splitDeclarations = statement) :
    parts.add statement statement.splitDeclarations = { parts with
      canHoist := parts.canHoist && !statement.introducesType
      rest := parts.rest ++ [(statement, statement)] } := by
  rw [inOrder]
  unfold BlockParts.add
  split
  · next span declarations =>
    obtain ⟨declared, same, unmoved⟩ := stays span declarations rfl
    cases same
    rw [behind, Bool.false_and, if_neg Bool.false_ne_true]
    change { parts with inLeading := false }.addDeclaration declared = _
    have declares : (Statement.declaration .synthetic [declared]).introducesType =
        declared.isTypedef := Bool.or_false _
    rw [declares, ← behind]
    unfold addDeclaration
    split
    · next moves =>
      have conditions := moves
      simp only [canMove, Bool.and_eq_true, Bool.not_eq_true', canHoist] at conditions
      obtain ⟨⟨noType, splittable⟩, unmentioned⟩ := conditions
      obtain ⟨initializer, initialized, other⟩ := unmoved noType splittable unmentioned
      rw [Declaration.not_isTypedef_of_isSplittable splittable, Bool.not_false, Bool.and_true,
        initialized]
      cases initializer with
      | expression span value => exact absurd rfl (other span value)
      | list | designated => rfl
    · rfl
  · next other =>
    have introduces : statement.isDeclaration = statement.introducesType := by
      cases statement with
      | declaration span declarations => exact absurd rfl (other span declarations)
      | _ => rfl
    rw [behind, Bool.false_and, if_neg Bool.false_ne_true, introduces]

theorem statements_addEach_stays (parts : BlockParts) (behind : parts.inLeading = false)
    (canHoist : parts.canHoist = !(parts.rest.map Prod.fst).any Statement.introducesType)
    (stays : ∀ before entry after, entries = before ++ entry :: after →
      entry.StaysBehind (parts.rest.map Prod.fst ++ before))
    (inOrder : ∀ entry ∈ entries, entry.splitDeclarations = entry) :
    (parts.addEach entries).statements = parts.statements ++ entries := by
  induction entries generalizing parts with
  | nil => exact (List.append_nil _).symm
  | cons first rest ih =>
    rw [List.forall_mem_cons] at inOrder
    have added := statements_add_stays behind canHoist
      (by simpa using stays [] first rest rfl) inOrder.1
    change ((parts.add first first.splitDeclarations).addEach rest).statements = _
    rw [added]
    refine (ih { parts with
      canHoist := parts.canHoist && !first.introducesType
      rest := parts.rest ++ [(first, first)] } behind (by simp [canHoist])
      (fun before entry after same => ?_) inOrder.2).trans ?_
    · simpa using stays (first :: before) entry after (by rw [same, List.cons_append])
    · simp [statements]

end BlockParts

theorem Declaration.StaysBehind.mono {earlier later : List Statement} (stays : declared.StaysBehind earlier)
    (types : later.any Statement.introducesType = earlier.any Statement.introducesType)
    (mentions : ∀ name, Statement.mention earlier name → Statement.mention later name) :
    declared.StaysBehind later := by
  intro noType splittable unmentioned
  refine stays (types ▸ noType) splittable ?_
  rw [Bool.eq_false_iff] at unmentioned ⊢
  exact fun mentioned => unmentioned (mentions _ mentioned)

namespace BlockParts

theorem Ordered.stays_become {parts : BlockParts} (ordered : parts.Ordered)
    {before after : List Statement} {statement : Statement}
    (same : parts.rest.map Prod.snd = before ++ statement :: after) : statement.StaysBehind before := by
  obtain ⟨first, others, rest, rfl, tail⟩ := List.map_eq_append_iff.mp same
  obtain ⟨entry, last, rfl, rfl, rfl⟩ := List.map_eq_cons_iff.mp tail
  intro span declarations isDeclaration
  obtain ⟨declared, sole, stays⟩ :=
    ordered.stays first entry last rest span declarations isDeclaration
  have settles : ∀ earlier ∈ first, earlier.1.Settles earlier.2 := fun earlier member =>
    ordered.settles earlier (by rw [rest]; exact List.mem_append_left _ member)
  refine ⟨declared, sole, stays.mono ?_ fun name mentioned => ?_⟩
  · have same := List.map_congr_left fun earlier member => (settles earlier member).introducesType
    simpa [Function.comp_def] using congrArg (List.any · id) same
  · obtain ⟨source, member, span, inside⟩ := Statement.mention_iff.mp mentioned
    obtain ⟨earlier, among, rfl⟩ := List.mem_map.mp member
    exact Statement.mention_iff.mpr
      ⟨_, List.mem_map_of_mem among, span, (settles earlier among).expressions _ inside⟩

theorem Ordered.addEach_statements {parts : BlockParts} (ordered : parts.Ordered)
    (placed : parts.rest = [] ∨ parts.IsOpened) :
    (({} : BlockParts).addEach parts.statements).statements = parts.statements := by
  have leading := addEach_leads {} ordered.leads rfl
  have all : parts.statements = (parts.leading ++ parts.hoisted) ++ parts.rest.map Prod.snd := rfl
  rw [all, addEach_append, leading, List.nil_append]
  rcases placed with empty | ⟨entry, others, same, other⟩
  · simp [empty, BlockParts.addEach, statements]
  · have settles := fun entry member => (ordered.settles entry member).inOrder
    rw [same, List.forall_mem_cons] at settles
    have stays : ∀ before statement after, parts.rest.map Prod.snd = before ++ statement :: after →
        statement.StaysBehind before := fun _ _ _ => ordered.stays_become
    rw [same, List.map_cons] at stays
    have opens := add_of_not_declaration { leading := parts.leading ++ parts.hoisted } other entry.2
    rw [same, List.map_cons]
    change ((BlockParts.add { leading := parts.leading ++ parts.hoisted } entry.2
      entry.2.splitDeclarations).addEach (others.map Prod.snd)).statements = _
    rw [settles.1, opens]
    refine (statements_addEach_stays _ rfl ?_ (fun before statement after split => ?_) ?_).trans ?_
    · simp [Statement.introducesType_of_not_declaration other]
    · exact stays (entry.2 :: before) statement after (by rw [split, List.cons_append])
    · exact List.forall_mem_map.mpr settles.2
    · simp [statements]

end BlockParts

/-! ## Normalizing twice -/

namespace BlockParts

theorem Ordered.hoistAll {parts : BlockParts} (ordered : parts.Ordered) {others : List Statement}
    (leads : ∀ statement ∈ others, statement.leads) :
    Ordered { parts with hoisted := parts.hoisted ++ others } :=
  ⟨by rw [← List.append_assoc]; exact List.forall_mem_append.mpr ⟨ordered.leads, leads⟩,
    ordered.canHoist, ordered.stays, ordered.settles⟩

theorem ordered_leading (front moved : List Statement)
    (leads : ∀ statement ∈ front ++ moved, statement.leads) (inLeading : Bool) :
    Ordered { leading := front, hoisted := moved, inLeading := inLeading } :=
  ⟨leads, rfl, fun _ _ _ same => by simp at same, fun _ member => absurd member List.not_mem_nil⟩

/-- A block has parts in order from the first declaration on that is taken apart, with what is held
in front of that counted among the declarations at the start. -/
theorem exists_ordered_of_declaration {front rest : List Statement} {span : Span}
    {declarations : List Declaration} (leads : ∀ statement ∈ front, statement.leads)
    (inOrder : ∀ entry ∈ rest, entry.splitDeclarations.splitDeclarations = entry.splitDeclarations)
    (needsSplit : declarations.any Declaration.needsSplit)
    (cleanly : Statement.splitCleanly (.declaration span declarations :: rest)) :
    ∃ parts : BlockParts, parts.Ordered ∧ parts.IsOpened ∧ parts.statements =
      (BlockParts.addEach { leading := front } (.declaration span declarations :: rest)).statements := by
  have behind : (Statement.declaration span declarations).leads = false := by
    rw [Statement.leads, Bool.and_eq_false_imp]
    intro _
    rw [Bool.not_eq_false']
    exact needsSplit
  have started : BlockParts.add { leading := front } (.declaration span declarations)
      (.declaration span declarations) =
        declarations.foldl addDeclaration { leading := front, inLeading := false } :=
    if_neg (by rw [needsSplit]; exact Bool.false_ne_true)
  rw [Statement.splitCleanly, behind, if_neg Bool.false_ne_true, Bool.and_eq_true,
    List.all_eq_true, List.all_eq_true] at cleanly
  obtain ⟨noType, unnamed⟩ := cleanly
  have apart := List.takeWhile_append_dropWhile (p := (!Declaration.comesApart ·)) (l := declarations)
  have whole := List.all_takeWhile (p := (!Declaration.comesApart ·)) (l := declarations)
  have firstApart := List.head?_dropWhile_not (!Declaration.comesApart ·) declarations
  simp only [Statement.declared] at noType unnamed
  generalize declarations.takeWhile (!Declaration.comesApart ·) = held at *
  generalize declarations.dropWhile (!Declaration.comesApart ·) = later at *
  have notApart : ∀ declared ∈ held, declared.comesApart = false := by
    simpa using whole
  cases later with
  | nil =>
    obtain ⟨declared, member, split⟩ := List.any_eq_true.mp needsSplit
    have never := notApart declared (by rwa [← apart, List.append_nil] at member)
    exact absurd (Declaration.comesApart_of_needsSplit split) (by simp [never])
  | cons next more =>
    obtain ⟨moved, kept, same, among⟩ :=
      addAll_held { leading := front, inLeading := false }
        (fun declared member => ⟨notApart declared member, by simpa using noType declared member⟩)
        rfl []
    have unnamedByKept : ∀ declared ∈ (next :: more) ++ rest.flatMap Statement.declared,
        declared.isSplittable → Statement.mention kept declared.name = false := by
      intro declared member splittable
      have never := unnamed declared member
      rw [splittable, Bool.not_true, Bool.false_or, Bool.not_eq_true'] at never
      rw [Bool.eq_false_iff] at never ⊢
      exact fun mentioned => never (Statement.mention_mono
        (fun statement member => among statement (List.mem_append_right _ member)) mentioned)
    rw [List.forall_mem_append] at unnamedByKept
    have holdsLeads : ∀ statement ∈ moved ++ kept, statement.leads := by
      intro statement member
      obtain ⟨declared, isHeld, rfl⟩ := List.mem_map.mp (among statement member)
      exact Statement.leads_ofDeclaration (notApart declared isHeld)
    rw [List.forall_mem_append] at holdsLeads
    obtain ⟨base, isBase⟩ : ∃ base : BlockParts,
        base = { leading := front, hoisted := moved, inLeading := false } := ⟨_, rfl⟩
    have baseOrdered : base.Ordered :=
      isBase ▸ ordered_leading front moved (List.forall_mem_append.mpr ⟨leads, holdsLeads.1⟩) false
    have opened := isOpened_addDeclaration base (by simpa using firstApart)
      (by rw [isBase]) (by rw [isBase])
    have ordered := (baseOrdered.addAll (next :: more)).addEach inOrder
    refine ⟨_, ordered.hoistAll holdsLeads.2, (opened.addAll more).addEach rest, ?_⟩
    rw [← statements_behind, ← addEach_behind ?_ unnamedByKept.2, ← addAll_behind _ unnamedByKept.1]
    · change _ = ((BlockParts.add { leading := front } (.declaration span declarations)
        (.declaration span declarations)).addEach rest).statements
      rw [started, ← apart, List.foldl_append, isBase]
      exact congrArg (fun parts : BlockParts =>
        (((next :: more).foldl addDeclaration parts).addEach rest).statements) same.symm
    · rw [inLeading_addAll, isBase]

/-- A block whose declarations are taken apart cleanly has parts in order, which start behind the
leading declarations with something else. -/
theorem exists_ordered {entries : List Statement} (inOrder : ∀ entry ∈ entries,
      entry.splitDeclarations.splitDeclarations = entry.splitDeclarations)
    (cleanly : Statement.splitCleanly entries) (front : List Statement)
    (leads : ∀ statement ∈ front, statement.leads) :
    ∃ parts : BlockParts, parts.Ordered ∧ (parts.rest = [] ∨ parts.IsOpened) ∧
      parts.statements = (BlockParts.addEach { leading := front } entries).statements := by
  induction entries generalizing front with
  | nil => exact ⟨_, ordered_leading front [] (by simpa using leads) true, .inl rfl, rfl⟩
  | cons first rest ih =>
    have whole := cleanly
    rw [List.forall_mem_cons] at inOrder
    unfold Statement.splitCleanly at cleanly
    split at cleanly
    · next lead =>
      have added := addEach_leads { leading := front } (List.forall_mem_singleton.mpr lead) rfl
      have all : ∀ statement ∈ front ++ [first], statement.leads :=
        List.forall_mem_append.mpr ⟨leads, List.forall_mem_singleton.mpr lead⟩
      change ∃ parts : BlockParts, _ ∧ _ ∧ parts.statements =
        ((BlockParts.addEach { leading := front } [first]).addEach rest).statements
      rw [added]
      exact ih inOrder.2 cleanly _ all
    · next behind =>
      cases isDeclaration : first.isDeclaration with
      | false =>
        have added := add_of_not_declaration { leading := front } isDeclaration
          first.splitDeclarations
        have ordered := (ordered_leading front [] (by simpa using leads) true).add inOrder.1
        have opened :
            (BlockParts.add { leading := front } first first.splitDeclarations).IsOpened := ⟨_, [], congrArg BlockParts.rest added,
            first.isDeclaration_splitDeclarations.trans isDeclaration⟩
        exact ⟨_, ordered.addEach inOrder.2, .inr (opened.addEach rest), rfl⟩
      | true =>
        have needsSplit : first.declared.any Declaration.needsSplit := by
          simpa [Statement.leads, isDeclaration] using behind
        cases first with
        | declaration span declarations =>
          obtain ⟨parts, ordered, opened, same⟩ :=
            exists_ordered_of_declaration leads inOrder.2 needsSplit whole
          exact ⟨parts, ordered, .inr opened, same⟩
        | _ => cases needsSplit

end BlockParts

theorem splitBlock_eq_addEach (entries : List Statement) :
    splitBlock entries (Statement.splitDeclarationsList entries) =
      (({} : BlockParts).addEach entries).statements :=
  splitBlock_eq_foldl entries

theorem splitBlock_twice {entries : List Statement} (inOrder : ∀ entry ∈ entries,
      entry.splitDeclarations.splitDeclarations = entry.splitDeclarations)
    (cleanly : Statement.splitCleanly entries) {result : List Statement}
    (splits : splitBlock entries (Statement.splitDeclarationsList entries) = result) :
    splitBlock result (Statement.splitDeclarationsList result) = result := by
  obtain ⟨parts, ordered, placed, same⟩ :=
    BlockParts.exists_ordered inOrder cleanly [] (by simp)
  obtain rfl := (splitBlock_eq_addEach entries ▸ same).trans splits
  rw [splitBlock_eq_addEach, ordered.addEach_statements placed]

namespace Statement

theorem splitDeclarations_twice {statement : Statement}
    (cleanly : ∀ part ∈ statement.parts, part.isCleanBlock) :
    statement.splitDeclarations.splitDeclarations = statement.splitDeclarations := by
  induction statement with
  | block span statements each =>
    simp only [parts_block, List.forall_mem_cons, listParts, List.mem_flatMap] at cleanly
    have inOrder : ∀ entry ∈ statements,
        entry.splitDeclarations.splitDeclarations = entry.splitDeclarations :=
      fun entry member => each entry member fun part inside =>
        cleanly.2 part ⟨entry, member, inside⟩
    rw [splitDeclarations, splitDeclarations, splitBlock_twice inOrder cleanly.1 rfl]
  | ifThen span condition thenBranch ih =>
    simp only [parts_ifThen, List.forall_mem_cons] at cleanly
    rw [splitDeclarations, splitDeclarations, ih cleanly.2]
  | ifElse span condition thenBranch elseBranch thenIh elseIh =>
    simp only [parts_ifElse, List.forall_mem_cons, List.forall_mem_append] at cleanly
    rw [splitDeclarations, splitDeclarations, thenIh cleanly.2.1, elseIh cleanly.2.2]
  | whileLoop span condition body ih =>
    simp only [parts_whileLoop, List.forall_mem_cons] at cleanly
    rw [splitDeclarations, splitDeclarations, ih cleanly.2]
  | bareLoop span condition update body ih =>
    simp only [parts_bareLoop, List.forall_mem_cons] at cleanly
    rw [splitDeclarations, splitDeclarations, ih cleanly.2]
  | forLoop span init condition update body initIh bodyIh =>
    simp only [parts_forLoop, List.forall_mem_cons, List.forall_mem_append] at cleanly
    rw [splitDeclarations, splitDeclarations, initIh cleanly.2.1, bodyIh cleanly.2.2]
  | doWhile span body condition ih =>
    simp only [parts_doWhile, List.forall_mem_cons] at cleanly
    rw [splitDeclarations, splitDeclarations, ih cleanly.2]
  | switch span subject body ih =>
    simp only [parts_switch, List.forall_mem_cons] at cleanly
    rw [splitDeclarations, splitDeclarations, ih cleanly.2]
  | caseLabel span value statement ih =>
    simp only [parts_caseLabel, List.forall_mem_cons] at cleanly
    rw [splitDeclarations, splitDeclarations, ih cleanly.2]
  | defaultLabel span statement ih =>
    simp only [parts_defaultLabel, List.forall_mem_cons] at cleanly
    rw [splitDeclarations, splitDeclarations, ih cleanly.2]
  | labelled span label statement ih =>
    simp only [parts_labelled, List.forall_mem_cons] at cleanly
    rw [splitDeclarations, splitDeclarations, ih cleanly.2]
  | _ => rfl

end Statement

theorem Function.normalize_normalize {function : Function}
    (heads : function.body.HasLoopHeads) (cleanly : function.splitsCleanly) :
    function.normalize.normalize = function.normalize := by
  have braced : function.normalize.body.brace = function.normalize.body :=
    (Function.braced_normalize heads).brace_eq
  have clean : ∀ part ∈ function.body.brace.parts, part.isCleanBlock :=
    List.all_eq_true.mp cleanly
  change { function with body := function.normalize.body.brace.splitDeclarations } = _
  rw [braced]
  exact congrArg (fun body => { function with body := body })
    (Statement.splitDeclarations_twice clean)

/-- Normalizing what a text defines is idempotent, if declarations are taken apart cleanly. -/
theorem Function.normalize_idempotent {text file : String} {typedefs : List String}
    {unit : CompilationUnit} (parses : CompilationUnit.parse text file typedefs = .ok unit)
    {function : Function} (member : function ∈ unit.functions)
    (cleanly : function.splitsCleanly) :
    function.normalize.normalize = function.normalize :=
  normalize_normalize (CompilationUnit.isFormed_of_parse parses function member).2 cleanly

/-- An array is held in front of a call that is taken out, and later declarations are held by what
uses them. -/
theorem Function.normalize_idempotent_behind_array :
    ∃ unit, CompilationUnit.parse
        "int h(void);
          void f(int n) \x7b
            int xs[1] = \x7b n \x7d, a = h();
            if (a) a = h();
            int b = a, *p = &b, ys[2];
          \x7d" = .ok unit ∧
      ∃ function ∈ unit.functions,
        (function.splitsCleanly ∧
          function.body.parts.length < function.normalize.body.parts.length) ∧
          function.normalize.normalize = function.normalize := by
  refine CompilationUnit.exists_parsed _
    (fun unit => decide (∃ function ∈ unit.functions, function.splitsCleanly ∧
      function.body.parts.length < function.normalize.body.parts.length)) (by decide +kernel) ?_
  intro unit parses checked
  obtain ⟨function, member, cleanly, grows⟩ := of_decide_eq_true checked
  exact ⟨function, member, ⟨cleanly, grows⟩, normalize_idempotent parses member cleanly⟩

/-- An array that names what is declared behind it keeps a call in its declaration the first time,
and as one of the declarations at the start it does not the second time. -/
theorem Function.normalize_not_idempotent :
    ∃ unit, CompilationUnit.parse
        "int h(void); int a; void f(void) \x7b int arr[1] = \x7b a \x7d, a = h(); \x7d" = .ok unit ∧
      ∃ function ∈ unit.functions,
        function.normalize.body.parts.length = 3 ∧
          function.normalize.normalize.body.parts.length = 4 := by
  refine CompilationUnit.exists_parsed _
    (fun unit => decide (∃ function ∈ unit.functions,
      function.normalize.body.parts.length = 3 ∧
        function.normalize.normalize.body.parts.length = 4)) (by decide +kernel) ?_
  exact fun unit _ checked => of_decide_eq_true checked

end InlineMacro
