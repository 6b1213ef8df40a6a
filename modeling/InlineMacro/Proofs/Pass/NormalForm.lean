import InlineMacro.Proofs.Scope.NodeUse
import InlineMacro.Proofs.Scope.Separation

/-!
# Normal form

A block in order has declarations, first values of objects, and what becomes of its other
statements. So what is braced stays braced, and nothing is called that was not called before.
-/

set_option autoImplicit false

namespace InlineMacro

/-! ## Where the statements of a block come from -/

/-- What a declaration yields when its block is put into order. -/
inductive Declaration.Yields (declared : Declaration) : Statement → Prop where
  | whole : Yields declared (.ofDeclaration declared)
  | bare : Yields declared (.ofDeclaration { declared with initializer := none })
  | firstValue (span : Span) (value : Expr)
      (initialized : declared.initializer = some (.expression span value)) :
      Yields declared (.expression declared.span
        (.assignment (.identifier declared.span declared.name) value))

/-- How a statement of a block in order comes from one of the block before. -/
inductive Statement.StemsFrom (entry : Statement) : Statement → Prop where
  | declaration (declares : entry.isDeclaration) : StemsFrom entry entry
  | yields (declared : Declaration) (member : declared ∈ entry.declared) (statement : Statement)
      (yields : declared.Yields statement) : StemsFrom entry statement
  | inside (declaresNone : entry.declared = []) : StemsFrom entry entry.splitDeclarations

theorem Statement.splitDeclarationsList_eq_map (statements : List Statement) :
    splitDeclarationsList statements = statements.map splitDeclarations := by
  induction statements with
  | nil => rfl
  | cons first rest ih => rw [splitDeclarationsList, ih, List.map_cons]

namespace BlockParts

variable {property : Statement → Prop} {parts : BlockParts}

theorem mem_statements {statement : Statement} :
    statement ∈ parts.statements ↔ statement ∈ parts.leading ∨ statement ∈ parts.hoisted ∨
      statement ∈ parts.rest.map Prod.snd := by
  rw [statements, List.mem_append, List.mem_append, or_assoc]

theorem all_lead (all : ∀ statement ∈ parts.statements, property statement) {entry : Statement}
    (holds : property entry) : ∀ statement ∈
      BlockParts.statements { parts with leading := parts.leading ++ [entry] }, property statement := by
  intro statement member
  rcases mem_statements.mp member with member | member
  · rcases List.mem_append.mp member with member | member
    · exact all statement (mem_statements.mpr (.inl member))
    · rw [List.mem_singleton.mp member]
      exact holds
  · exact all statement (mem_statements.mpr (.inr member))

theorem all_rest (all : ∀ statement ∈ parts.statements, property statement)
    {entry becomes : Statement} (holds : property becomes) : ∀ statement ∈
      BlockParts.statements { parts with rest := parts.rest ++ [(entry, becomes)] }, property statement := by
  intro statement member
  rcases mem_statements.mp member with member | member | member
  · exact all statement (mem_statements.mpr (.inl member))
  · exact all statement (mem_statements.mpr (.inr (.inl member)))
  · rw [List.map_append, List.mem_append] at member
    rcases member with member | member
    · exact all statement (mem_statements.mpr (.inr (.inr member)))
    · rw [List.mem_singleton.mp member]
      exact holds

theorem all_hoist (all : ∀ statement ∈ parts.statements, property statement)
    {declared : Declaration} (holds : property (.ofDeclaration declared)) :
    ∀ statement ∈ (parts.hoist declared).statements, property statement := by
  intro statement member
  rcases mem_statements.mp member with member | member | member
  · exact all statement (mem_statements.mpr (.inl member))
  · rcases List.mem_append.mp member with member | member
    · exact all statement (mem_statements.mpr (.inr (.inl member)))
    · rw [List.mem_singleton.mp member]
      exact holds
  · exact all statement (mem_statements.mpr (.inr (.inr member)))

theorem all_addDeclaration (all : ∀ statement ∈ parts.statements, property statement)
    {declared : Declaration} (yields : ∀ statement, declared.Yields statement → property statement) :
    ∀ statement ∈ (parts.addDeclaration declared).statements, property statement := by
  unfold addDeclaration
  split
  · split
    · exact all_hoist all (yields _ .whole)
    · next span value initialized =>
      exact all_rest (all_hoist all (yields _ .bare)) (yields _ (.firstValue span value initialized))
    · exact all_rest all (yields _ .whole)
  · exact all_rest all (yields _ .whole)

theorem all_foldl_addDeclaration (declarations : List Declaration)
    (all : ∀ statement ∈ parts.statements, property statement)
    (yields : ∀ declared ∈ declarations, ∀ statement, declared.Yields statement → property statement) :
    ∀ statement ∈ (declarations.foldl addDeclaration parts).statements, property statement := by
  induction declarations generalizing parts with
  | nil => exact all
  | cons first rest ih =>
    exact ih (all_addDeclaration all (yields first (by simp)))
      fun declared member => yields declared (by simp [member])

theorem all_add {entry : Statement} (all : ∀ statement ∈ parts.statements, property statement)
    (stems : ∀ statement, entry.StemsFrom statement → property statement) :
    ∀ statement ∈ (parts.add entry entry.splitDeclarations).statements, property statement := by
  unfold add
  split
  · next span declarations =>
    split
    · exact all_lead all (stems _ (.declaration rfl))
    · refine all_foldl_addDeclaration declarations all ?_
      intro declared member statement yields
      have among : declared ∈ (Statement.declaration span declarations).declared := member
      exact stems statement (.yields declared among statement yields)
  · next notDeclaration =>
    split
    · next leads => exact all_lead all (stems _ (.declaration (Bool.and_eq_true _ _ ▸ leads).2))
    · have declaresNone : entry.declared = [] := by
        cases entry with
        | declaration span declarations => exact absurd rfl (notDeclaration span declarations)
        | _ => rfl
      exact all_rest all (stems _ (.inside declaresNone))

end BlockParts

theorem splitBlock_eq_foldl (entries : List Statement) :
    splitBlock entries (Statement.splitDeclarationsList entries) =
      (entries.foldl (fun parts entry => parts.add entry entry.splitDeclarations)
        ({} : BlockParts)).statements := by
  have zipped : entries.zip (entries.map Statement.splitDeclarations) =
      entries.map fun entry => (entry, entry.splitDeclarations) := by
    induction entries with
    | nil => rfl
    | cons first rest ih => rw [List.map_cons, List.zip_cons_cons, ih, List.map_cons]
  rw [splitBlock, Statement.splitDeclarationsList_eq_map, zipped, List.foldl_map]

theorem stemsFrom_of_mem_splitBlock {entries : List Statement} :
    ∀ statement ∈ splitBlock entries (Statement.splitDeclarationsList entries),
      ∃ entry ∈ entries, entry.StemsFrom statement := by
  rw [splitBlock_eq_foldl]
  have all : ∀ (done rest : List Statement) (parts : BlockParts),
      (∀ statement ∈ parts.statements, ∃ entry ∈ done, entry.StemsFrom statement) →
      ∀ statement ∈ (rest.foldl (fun parts entry => parts.add entry entry.splitDeclarations)
        parts).statements, ∃ entry ∈ done ++ rest, entry.StemsFrom statement := by
    intro done rest
    induction rest generalizing done with
    | nil => intro parts holds; simpa using holds
    | cons first rest ih =>
      intro parts holds
      have next := ih (done ++ [first]) (parts.add first first.splitDeclarations)
        (BlockParts.all_add (fun statement member =>
            (holds statement member).imp fun entry found => ⟨by simp [found.1], found.2⟩)
          fun statement stems => ⟨first, by simp, stems⟩)
      simpa using next
  exact all [] entries {} (fun statement member => absurd member List.not_mem_nil)

/-! ## The form of what comes out -/

namespace Statement

theorem StemsFrom.braced {entry statement : Statement} (stems : entry.StemsFrom statement)
    (braced : entry.Braced) (inside : entry.splitDeclarations.Braced) : statement.Braced := by
  cases stems with
  | declaration declares => exact braced
  | yields declared member statement yields =>
    cases yields with
    | whole | bare => exact .declaration _ _
    | firstValue => exact .expression _ _
  | inside => exact inside

theorem isBlock_splitDeclarations (statement : Statement) :
    statement.splitDeclarations.isBlock = statement.isBlock := by
  induction statement <;> rfl

theorem isMarked_splitDeclarations (statement : Statement) :
    statement.splitDeclarations.isMarked = statement.isMarked := by
  induction statement <;> rfl

theorem splitDeclarations_of_head {statement : Statement} (head : statement.IsLoopHead) :
    statement.splitDeclarations = statement := by
  cases head <;> rfl

theorem Braced.splitDeclarations {statement : Statement} (braced : statement.Braced) :
    statement.splitDeclarations.Braced := by
  have block {body : Statement} (isBlock : body.isBlock) : body.splitDeclarations.isBlock :=
    body.isBlock_splitDeclarations.trans isBlock
  have mark {body : Statement} (isMarked : body.isMarked) : body.splitDeclarations.isMarked :=
    body.isMarked_splitDeclarations.trans isMarked
  induction braced with
  | expression span value => exact .expression span value
  | block span entries each ih =>
    refine .block span _ fun statement member => ?_
    obtain ⟨entry, found, stems⟩ := stemsFrom_of_mem_splitBlock statement member
    exact stems.braced (each entry found) (ih entry found)
  | declaration span declarations => exact .declaration span declarations
  | typeDefinition span type => exact .typeDefinition span type
  | ifElse span condition thenBranch elseBranch thenBlock elseBlock _ _ thenIh elseIh =>
    exact .ifElse span condition _ _ (block thenBlock) (block elseBlock) thenIh elseIh
  | whileLoop span condition body bodyBlock _ ih =>
    exact .whileLoop span condition _ (block bodyBlock) ih
  | bareLoop span condition update body bodyBlock _ ih =>
    exact .bareLoop span condition update _ (block bodyBlock) ih
  | forLoop span init condition update body head bodyBlock _ ih =>
    rw [Statement.splitDeclarations, splitDeclarations_of_head head]
    exact .forLoop span init condition update _ head (block bodyBlock) ih
  | doWhile span body condition bodyBlock _ ih =>
    exact .doWhile span _ condition (block bodyBlock) ih
  | switch span subject body bodyBlock _ ih => exact .switch span subject _ (block bodyBlock) ih
  | caseLabel span value statement marked _ ih => exact .caseLabel span value _ (mark marked) ih
  | defaultLabel span statement marked _ ih => exact .defaultLabel span _ (mark marked) ih
  | labelled span label statement marked _ ih => exact .labelled span label _ (mark marked) ih
  | breakStatement span => exact .breakStatement span
  | continueStatement span => exact .continueStatement span
  | returnStatement span value => exact .returnStatement span value
  | gotoStatement span label => exact .gotoStatement span label
  | empty span => exact .empty span

end Statement

/-! ## Names that are called -/

namespace Statement

theorem mem_callees_listNodes {statements : List Statement} {name : String} :
    name ∈ Node.callees (listNodes statements) ↔
      ∃ statement ∈ statements, name ∈ Node.callees statement.nodes := by
  induction statements with
  | nil => simp [listNodes]
  | cons first rest ih => simp [listNodes, ih]

theorem callees_yields {declared : Declaration} {statement : Statement} (yields : declared.Yields statement) :
    Node.callees statement.nodes ⊆ Node.callees declared.nodes := by
  cases yields with
  | whole =>
    change Node.callees ([declared].flatMap Declaration.nodes) ⊆ _
    simp
  | bare =>
    change Node.callees ([{ declared with initializer := none }].flatMap Declaration.nodes) ⊆ _
    simp [Declaration.nodes, optionalNodes, Node.callees, Node.callee?, List.filterMap_cons]
  | firstValue span value initialized =>
    intro name called
    have inValue : name ∈ Node.callees value.nodes := called
    change name ∈ Node.callees (_ ++ optionalNodes Initializer.nodes declared.initializer)
    rw [initialized, Node.callees_append]
    exact List.mem_append_right _ inValue

theorem StemsFrom.callees {entry statement : Statement} (stems : entry.StemsFrom statement)
    (inside : Node.callees entry.splitDeclarations.nodes ⊆ Node.callees entry.nodes) :
    Node.callees statement.nodes ⊆ Node.callees entry.nodes := by
  cases stems with
  | declaration declares => exact List.Subset.refl _
  | yields declared member statement yields =>
    cases entry with
    | declaration span declarations =>
      intro name called
      have inDeclared := callees_yields yields called
      obtain ⟨node, found, callee⟩ := List.mem_filterMap.mp inDeclared
      change name ∈ Node.callees (declarations.flatMap Declaration.nodes)
      exact List.mem_filterMap.mpr ⟨node, List.mem_flatMap.mpr ⟨declared, member, found⟩, callee⟩
    | _ => cases member
  | inside => exact inside

theorem callees_splitDeclarations (statement : Statement) :
    Node.callees statement.splitDeclarations.nodes ⊆ Node.callees statement.nodes := by
  induction statement with
  | block span statements each =>
    intro name called
    change name ∈ Node.callees (listNodes _) at called
    obtain ⟨result, member, among⟩ := mem_callees_listNodes.mp called
    obtain ⟨entry, found, stems⟩ := stemsFrom_of_mem_splitBlock result member
    change name ∈ Node.callees (listNodes statements)
    exact mem_callees_listNodes.mpr ⟨entry, found, stems.callees (each entry found) among⟩
  | ifThen span condition thenBranch ih =>
    simp only [splitDeclarations, nodes, optionNodes, Node.callees_statement, Node.callees_append]
    grind
  | ifElse span condition thenBranch elseBranch thenIh elseIh =>
    simp only [splitDeclarations, nodes, optionNodes, Node.callees_statement, Node.callees_append]
    grind
  | whileLoop _ _ _ ih | doWhile _ _ _ ih | switch _ _ _ ih | caseLabel _ _ _ ih =>
    simp only [splitDeclarations, nodes, Node.callees_statement, Node.callees_append]
    grind
  | bareLoop span condition update body ih =>
    simp only [splitDeclarations, nodes, optionNodes, Node.callees_statement, Node.callees_append]
    grind
  | forLoop span init condition update body initIh bodyIh =>
    simp only [splitDeclarations, nodes, optionNodes, Node.callees_statement, Node.callees_append]
    grind
  | defaultLabel span statement ih => exact ih
  | labelled span label statement ih => exact ih
  | _ => exact List.Subset.refl _

theorem callees_blockOf (statement : Statement) (becomes : Statement) :
    Node.callees (statement.blockOf becomes).nodes = Node.callees becomes.nodes := by
  unfold blockOf
  split
  · rfl
  · simp [nodes, listNodes]

theorem callees_labelledBlockOf (statement : Statement) (becomes : Statement) :
    Node.callees (statement.labelledBlockOf becomes).nodes = Node.callees becomes.nodes := by
  unfold labelledBlockOf
  split
  · rfl
  · exact callees_blockOf statement becomes

theorem callees_brace (statement : Statement) :
    Node.callees statement.brace.nodes = Node.callees statement.nodes := by
  induction statement with
  | block span statements each =>
    change Node.callees (listNodes (braceList statements)) = Node.callees (listNodes statements)
    rw [braceList_eq_map]
    induction statements with
    | nil => rfl
    | cons first rest ih =>
      rw [List.map_cons, listNodes, listNodes, Node.callees_append, Node.callees_append,
        each first (by simp), ih fun statement member => each statement (by simp [member])]
  | ifThen span condition thenBranch ih =>
    simp [brace, nodes, optionNodes, callees_blockOf, ih, ofList, listNodes]
  | ifElse span condition thenBranch elseBranch thenIh elseIh =>
    simp [brace, nodes, optionNodes, callees_blockOf, thenIh, elseIh]
  | whileLoop _ _ _ ih | doWhile _ _ _ ih | switch _ _ _ ih =>
    simp [brace, nodes, callees_blockOf, ih]
  | bareLoop span condition update body ih => simp [brace, nodes, callees_blockOf, ih]
  | forLoop span init condition update body initIh bodyIh =>
    simp [brace, nodes, optionNodes, callees_blockOf, initIh, bodyIh]
  | caseLabel span value statement ih => simp [brace, nodes, callees_labelledBlockOf, ih]
  | defaultLabel span statement ih => simp [brace, nodes, callees_labelledBlockOf, ih]
  | labelled span label statement ih => simp [brace, nodes, callees_labelledBlockOf, ih]
  | _ => rfl

end Statement

/-! ## Declarations of something outside -/

namespace Statement

theorem append_objects_subset {objects wider : List String} (subset : objects ⊆ wider)
    (own : List String) : objects ++ own ⊆ wider ++ own :=
  List.append_subset.mpr ⟨List.subset_append_of_subset_left own subset, List.subset_append_right wider own⟩

theorem declaresApart_mono {objects wider : List String} (subset : objects ⊆ wider)
    {statements : List Statement} (apart : declaresApart wider statements) :
    declaresApart objects statements := by
  rw [declaresApart_iff] at apart ⊢
  intro statement member declared among outside inside
  exact apart statement member declared among outside (append_objects_subset subset _ inside)

theorem keepsApart_mono {statement : Statement} {objects wider : List String}
    (subset : objects ⊆ wider) (apart : statement.keepsApart wider) : statement.keepsApart objects := by
  induction statement generalizing objects wider with
  | block span statements each =>
    rw [keepsApart, Bool.and_eq_true, listKeepApart_iff] at apart ⊢
    refine ⟨declaresApart_mono subset apart.1, fun statement member => ?_⟩
    exact each statement member (append_objects_subset subset _) (apart.2 statement member)
  | ifThen span condition thenBranch ih => exact ih subset apart
  | ifElse span condition thenBranch elseBranch thenIh elseIh =>
    rw [keepsApart, Bool.and_eq_true] at apart ⊢
    exact ⟨thenIh subset apart.1, elseIh subset apart.2⟩
  | whileLoop span condition body ih => exact ih subset apart
  | bareLoop span condition update body ih => exact ih subset apart
  | forLoop span init condition update body initIh bodyIh =>
    rw [keepsApart, Bool.and_eq_true] at apart ⊢
    exact ⟨declaresApart_mono subset apart.1, bodyIh (append_objects_subset subset _) apart.2⟩
  | doWhile span body condition ih => exact ih subset apart
  | switch span subject body ih => exact ih subset apart
  | caseLabel span value statement ih => exact ih subset apart
  | defaultLabel span statement ih => exact ih subset apart
  | labelled span label statement ih => exact ih subset apart
  | _ => rfl

theorem declared_yields {declared other : Declaration} {statement : Statement}
    (yields : declared.Yields statement) (member : other ∈ statement.declared) :
    other.name = declared.name ∧ other.bindingKind = declared.bindingKind := by
  cases yields with
  | whole | bare =>
    rw [List.mem_singleton.mp member]
    exact ⟨rfl, rfl⟩
  | firstValue => cases member

theorem declared_splitDeclarations (statement : Statement) :
    statement.splitDeclarations.declared = statement.declared := by
  induction statement <;> rfl

theorem StemsFrom.declared {entry statement : Statement} (stems : entry.StemsFrom statement)
    {other : Declaration} (member : other ∈ statement.declared) :
    ∃ declared ∈ entry.declared, other.name = declared.name ∧ other.bindingKind = declared.bindingKind := by
  cases stems with
  | declaration => exact ⟨other, member, rfl, rfl⟩
  | yields declared among statement yields =>
    exact ⟨declared, among, declared_yields yields member⟩
  | inside declaresNone =>
    rw [declared_splitDeclarations, declaresNone] at member
    cases member

theorem StemsFrom.keepsApart {entry statement : Statement} (stems : entry.StemsFrom statement)
    {objects : List String} (inside : entry.splitDeclarations.keepsApart objects) :
    statement.keepsApart objects := by
  cases stems with
  | declaration declares =>
    cases entry with
    | declaration | typeDefinition => rfl
    | _ => cases declares
  | yields declared member statement yields => cases yields <;> rfl
  | inside => exact inside

theorem objectNames_splitBlock (entries : List Statement) :
    objectNames (splitBlock entries (splitDeclarationsList entries)) ⊆ objectNames entries := by
  intro name member
  obtain ⟨statement, found, declared, among, object, rfl⟩ := mem_objectNames.mp member
  obtain ⟨entry, entryFound, stems⟩ := stemsFrom_of_mem_splitBlock statement found
  obtain ⟨source, sourceFound, sameName, sameKind⟩ := stems.declared among
  exact mem_objectNames.mpr ⟨entry, entryFound, source, sourceFound, sameKind ▸ object, sameName.symm⟩

theorem keepsApart_splitDeclarations {statement : Statement} {objects : List String}
    (apart : statement.keepsApart objects) : statement.splitDeclarations.keepsApart objects := by
  induction statement generalizing objects with
  | block span entries each =>
    rw [keepsApart, Bool.and_eq_true, declaresApart_iff, listKeepApart_iff] at apart
    rw [splitDeclarations, keepsApart, Bool.and_eq_true, declaresApart_iff, listKeepApart_iff]
    have fewer : objects ++ objectNames (splitBlock entries (splitDeclarationsList entries)) ⊆
        objects ++ objectNames entries :=
      List.append_subset.mpr ⟨List.subset_append_left _ _,
        List.subset_append_of_subset_right _ (objectNames_splitBlock entries)⟩
    refine ⟨?_, fun statement member => ?_⟩
    · intro statement member declared among outside inside
      obtain ⟨entry, found, stems⟩ := stemsFrom_of_mem_splitBlock statement member
      obtain ⟨source, sourceFound, sameName, sameKind⟩ := stems.declared among
      refine apart.1 entry found source sourceFound (sameKind ▸ outside) ?_
      exact sameName ▸ fewer inside
    · obtain ⟨entry, found, stems⟩ := stemsFrom_of_mem_splitBlock statement member
      exact stems.keepsApart (keepsApart_mono fewer (each entry found (apart.2 entry found)))
  | ifThen span condition thenBranch ih => exact ih apart
  | ifElse span condition thenBranch elseBranch thenIh elseIh =>
    rw [keepsApart, Bool.and_eq_true] at apart
    rw [splitDeclarations, keepsApart, Bool.and_eq_true]
    exact ⟨thenIh apart.1, elseIh apart.2⟩
  | whileLoop span condition body ih => exact ih apart
  | bareLoop span condition update body ih => exact ih apart
  | forLoop span init condition update body initIh bodyIh =>
    have same : [init.splitDeclarations].flatMap declared = [init].flatMap declared := by
      simp [declared_splitDeclarations]
    rw [keepsApart, Bool.and_eq_true] at apart
    rw [splitDeclarations, keepsApart, Bool.and_eq_true, declaresApart, objectNames, same]
    exact ⟨apart.1, bodyIh apart.2⟩
  | doWhile span body condition ih => exact ih apart
  | switch span subject body ih => exact ih apart
  | caseLabel span value statement ih => exact ih apart
  | defaultLabel span statement ih => exact ih apart
  | labelled span label statement ih => exact ih apart
  | _ => exact apart

end Statement

/-! ## Functions -/

def Function.braced (function : Function) : Function :=
  { function with body := function.body.brace }

theorem Function.callees_normalize (function : Function) :
    Node.callees function.normalize.body.nodes ⊆ Node.callees function.body.nodes := by
  rw [← function.body.callees_brace]
  exact function.body.brace.callees_splitDeclarations

theorem Function.keepsApart_normalize {function : Function} (apart : function.braced.keepsApart) :
    function.normalize.keepsApart :=
  Statement.keepsApart_splitDeclarations apart

theorem Function.braced_normalize {function : Function} (heads : function.body.HasLoopHeads) :
    function.normalize.body.Braced :=
  (Statement.braced_brace function.body heads).splitDeclarations

theorem Function.isBlock_normalize {function : Function} (isBlock : function.body.isBlock) :
    function.normalize.body.isBlock :=
  (Statement.isBlock_splitDeclarations _).trans (Statement.isBlock_brace isBlock)

end InlineMacro
