import InlineMacro.Proofs.Parser.GrammarCoverage
import InlineMacro.Proofs.Syntax.PrintedWords

/-!
# The words of trees that are read

The words and literals in a parsed tree are tokens of its text, each where the printer writes it
again. No verbatim text is read.
-/

set_option autoImplicit false

namespace InlineMacro

/-! ## Nodes -/

/-- The words and literals in a node have a property, and a compound literal has a list. -/
structure Node.IsRead (given : Lexeme → Prop) (node : Node) : Prop where
  lexemes : ∀ kind ∈ node.lexemes, given kind
  list : ∀ span type value, node = .expression (.compoundLiteral span type value) → value.isList

def Node.AllRead (given : Lexeme → Prop) (nodes : List Node) : Prop :=
  ∀ node ∈ nodes, node.IsRead given

variable {given : Lexeme → Prop}

namespace Node

theorem allRead_nil : AllRead given [] := fun _ member => absurd member List.not_mem_nil

theorem allRead_cons {node : Node} {nodes : List Node} :
    AllRead given (node :: nodes) ↔ node.IsRead given ∧ AllRead given nodes :=
  List.forall_mem_cons

theorem allRead_append {first second : List Node} :
    AllRead given (first ++ second) ↔ AllRead given first ∧ AllRead given second :=
  List.forall_mem_append

theorem allRead_flatMap {α : Type} {nodes : α → List Node} {values : List α} :
    AllRead given (values.flatMap nodes) ↔ ∀ value ∈ values, AllRead given (nodes value) :=
  List.forall_mem_flatMap

theorem allRead_optional {α : Type} {nodes : α → List Node} {part : Option α} :
    AllRead given (optionalNodes nodes part) ↔ ∀ value ∈ part, AllRead given (nodes value) := by
  cases part with
  | none => exact ⟨fun _ => nofun, fun _ => allRead_nil⟩
  | some value => exact ⟨fun all _ same => Option.some.inj same ▸ all, fun all => all value rfl⟩

theorem IsRead.of_names {node : Node} (lexemes : node.lexemes = node.names.map .identifier)
    (names : ∀ name ∈ node.names, given (.identifier name))
    (noList : ∀ span type value, node ≠ .expression (.compoundLiteral span type value)) :
    node.IsRead given where
  lexemes kind member := by
    rw [lexemes] at member
    obtain ⟨name, among, rfl⟩ := List.mem_map.mp member
    exact names name among
  list span type value same := absurd same (noList span type value)

end Node

open Node (AllRead allRead_nil allRead_cons allRead_append allRead_flatMap allRead_optional)

/-! ## Lists of parts -/

theorem Expr.allRead_listNodes {values : List Expr} :
    AllRead given (Expr.listNodes values) ↔ ∀ value ∈ values, AllRead given value.nodes := by
  rw [Expr.listNodes_eq, allRead_flatMap]

theorem Initializer.allRead_listNodes {items : List Initializer} :
    AllRead given (Initializer.listNodes items) ↔ ∀ item ∈ items, AllRead given item.nodes := by
  rw [Initializer.listNodes_eq, allRead_flatMap]

theorem Statement.allRead_listNodes {statements : List Statement} :
    AllRead given (Statement.listNodes statements) ↔
      ∀ statement ∈ statements, AllRead given statement.nodes := by
  rw [Statement.listNodes_eq, allRead_flatMap]

theorem Parameter.allRead_listNodes {parameters : List Parameter} :
    AllRead given (Parameter.listNodes parameters) ↔
      ∀ parameter ∈ parameters, AllRead given parameter.type.nodes := by
  rw [Parameter.listNodes_eq, allRead_flatMap]

theorem Field.allRead_listNodes {fields : List Field} :
    AllRead given (Field.listNodes fields) ↔ ∀ field ∈ fields, AllRead given field.type.nodes ∧
      ∀ width ∈ field.width, AllRead given width.nodes := by
  simp only [Field.listNodes_eq, allRead_flatMap, allRead_append, allRead_optional]

theorem Enumerator.allRead_listNodes {enumerators : List Enumerator} :
    AllRead given (Enumerator.listNodes enumerators) ↔
      ∀ enumerator ∈ enumerators, ∀ value ∈ enumerator.value, AllRead given value.nodes := by
  simp only [Enumerator.listNodes_eq, allRead_flatMap, allRead_optional]

theorem Designator.allRead_listNodes {designators : List Designator} :
    AllRead given (Designator.listNodes designators) ↔
      ∀ index, .index index ∈ designators → AllRead given index.nodes := by
  rw [Designator.listNodes_eq, allRead_flatMap]
  refine ⟨fun all index member => all _ member, fun all designator member => ?_⟩
  cases designator with
  | index index => exact all index member
  | member => exact allRead_nil

/-! ## Trees -/

theorem CType.allRead_withoutBodies : ∀ type : CType, AllRead given type.nodes →
    AllRead given type.withoutBodies.nodes
  | .record kind (some tag) fields => fun read => by
    have tagged : given (.identifier tag) := by
      cases fields <;> exact (allRead_cons.mp read).1.lexemes _ List.mem_cons_self
    exact allRead_cons.mpr ⟨.of_names rfl (List.forall_mem_singleton.mpr tagged) nofun, allRead_nil⟩
  | .enumeration (some tag) enumerators => fun read => by
    have tagged : given (.identifier tag) := by
      cases enumerators <;> exact (allRead_cons.mp read).1.lexemes _ List.mem_cons_self
    exact allRead_cons.mpr ⟨.of_names rfl (List.forall_mem_singleton.mpr tagged) nofun, allRead_nil⟩
  | .pointer _ target => fun read =>
    allRead_cons.mpr ⟨.of_names rfl nofun nofun, target.allRead_withoutBodies (allRead_cons.mp read).2⟩
  | .array element none => fun read =>
    allRead_cons.mpr ⟨.of_names rfl nofun nofun, element.allRead_withoutBodies (allRead_cons.mp read).2⟩
  | .array element (some size) => fun read => by
    obtain ⟨elements, sized⟩ := allRead_append.mp (allRead_cons.mp read).2
    exact allRead_cons.mpr ⟨.of_names rfl nofun nofun,
      allRead_append.mpr ⟨element.allRead_withoutBodies elements, sized⟩⟩
  | .function result parameters isVariadic => fun read => by
    obtain ⟨own, parts⟩ := allRead_cons.mp read
    obtain ⟨results, others⟩ := allRead_append.mp parts
    exact allRead_cons.mpr ⟨⟨own.lexemes, nofun⟩,
      allRead_append.mpr ⟨result.allRead_withoutBodies results, others⟩⟩
  | .qualified _ inner => fun read =>
    allRead_cons.mpr ⟨.of_names rfl nofun nofun, inner.allRead_withoutBodies (allRead_cons.mp read).2⟩
  | .record _ none _ | .enumeration none _ | .basic _ | .named _ => id

namespace Parser

def readTree (given : Lexeme → Prop) : TreeProperty where
  expr value := AllRead given value.nodes
  initializer value := AllRead given value.nodes
  specified type := AllRead given type.nodes
  type type := AllRead given type.nodes

theorem readTree_item {item : Initializer} (read : (readTree given).item given item) :
    AllRead given item.nodes := by
  rcases read with read | ⟨span, designators, value, rfl, -, each, read⟩
  · exact read
  · refine allRead_cons.mpr ⟨⟨?_, nofun⟩, allRead_append.mpr ⟨?_, read⟩⟩
    · intro kind member
      obtain ⟨designator, among, same⟩ := List.mem_filterMap.mp member
      cases designator with
      | index index => cases same
      | member name => exact Option.some.inj same ▸ each _ among
    · exact Designator.allRead_listNodes.mpr fun index among => each _ among

theorem readTree_closed (typedefs : List String) : (readTree given).Closed given typedefs := by
  have leaf {node : Node} (own : node.IsRead given) : AllRead given [node] :=
    allRead_cons.mpr ⟨own, allRead_nil⟩
  constructor
  case intLiteral | floatLiteral | charLiteral =>
    exact fun span spelling spelled => leaf ⟨List.forall_mem_singleton.mpr spelled, nofun⟩
  case stringLiteral =>
    exact fun span pieces _ each => leaf ⟨List.forall_mem_map.mpr each, nofun⟩
  case identifier =>
    exact fun span name spelled => leaf ⟨List.forall_mem_singleton.mpr spelled, nofun⟩
  case comma =>
    intro span first second others each
    exact allRead_cons.mpr ⟨.of_names rfl nofun nofun, Expr.allRead_listNodes.mpr each⟩
  case binary =>
    intro span operator left right leftRead rightRead
    exact allRead_cons.mpr ⟨.of_names rfl nofun nofun, allRead_append.mpr ⟨leftRead, rightRead⟩⟩
  case unary | sizeofExpr | sizeofType | value =>
    intros
    exact allRead_cons.mpr ⟨.of_names rfl nofun nofun, by assumption⟩
  case conditional =>
    intro span condition thenValue elseValue conditionRead thenRead elseRead
    exact allRead_cons.mpr ⟨.of_names rfl nofun nofun,
      allRead_append.mpr ⟨allRead_append.mpr ⟨conditionRead, thenRead⟩, elseRead⟩⟩
  case cast =>
    intro span target operand targetRead operandRead
    exact allRead_cons.mpr ⟨.of_names rfl nofun nofun, allRead_append.mpr ⟨targetRead, operandRead⟩⟩
  case compoundLiteral =>
    rintro span target _ targetRead ⟨listSpan, items, rfl, each⟩
    have listRead : AllRead given (Initializer.list listSpan items).nodes := allRead_cons.mpr
      ⟨.of_names rfl nofun nofun, Initializer.allRead_listNodes.mpr fun item among =>
        readTree_item (each item among)⟩
    refine allRead_cons.mpr ⟨⟨nofun, ?_⟩, allRead_append.mpr ⟨targetRead, listRead⟩⟩
    rintro _ _ _ ⟨⟩
    rfl
  case call =>
    intro span function arguments functionRead each
    refine allRead_cons.mpr ⟨.of_names rfl nofun nofun,
      allRead_append.mpr ⟨functionRead, Expr.allRead_listNodes.mpr fun argument among => ?_⟩⟩
    rcases each argument among with read | ⟨-, span, type, rfl, read⟩
    · exact read
    · exact allRead_cons.mpr ⟨.of_names rfl nofun nofun, read⟩
  case member =>
    intro span object name throughPointer objectRead spelled
    exact allRead_cons.mpr ⟨.of_names rfl (List.forall_mem_singleton.mpr spelled) nofun, objectRead⟩
  case list =>
    intro span items each
    exact allRead_cons.mpr ⟨.of_names rfl nofun nofun,
      Initializer.allRead_listNodes.mpr fun item among => readTree_item (each item among)⟩
  case basic => exact fun kind => leaf (.of_names rfl nofun nofun)
  case named =>
    exact fun name spelled _ => leaf (.of_names rfl (List.forall_mem_singleton.mpr spelled) nofun)
  case record =>
    intro kind tag fields tagged each
    have own : (Node.type (.record kind tag fields)).IsRead given := by
      refine .of_names rfl (List.forall_mem_append.mpr ⟨?_, ?_⟩) nofun
      · exact fun name member => tagged name (Option.mem_toList.mp member)
      · intro name member
        obtain ⟨field, among, named⟩ := List.mem_filterMap.mp member
        exact (each field among).1 name named
    cases fields with
    | none => exact leaf own
    | some fields =>
      exact allRead_cons.mpr ⟨own, Field.allRead_listNodes.mpr fun field among => (each field among).2⟩
  case enumeration =>
    intro tag enumerators tagged each
    have own : (Node.type (.enumeration tag enumerators)).IsRead given := by
      refine .of_names rfl (List.forall_mem_append.mpr ⟨?_, ?_⟩) nofun
      · exact fun name member => tagged name (Option.mem_toList.mp member)
      · intro name member
        obtain ⟨enumerator, among, rfl⟩ := List.mem_map.mp member
        exact (each enumerator among).1
    cases enumerators with
    | none => exact leaf own
    | some enumerators =>
      exact allRead_cons.mpr
        ⟨own, Enumerator.allRead_listNodes.mpr fun enumerator among => (each enumerator among).2⟩
  case withoutBodies => exact fun target => target.allRead_withoutBodies
  case ofSpecified => exact fun target read => read
  case qualified =>
    exact fun qualifiers inner _ read => allRead_cons.mpr ⟨.of_names rfl nofun nofun, read⟩
  case pointer =>
    exact fun qualifiers target read => allRead_cons.mpr ⟨.of_names rfl nofun nofun, read⟩
  case array =>
    intro element size read sized
    cases size with
    | none => exact allRead_cons.mpr ⟨.of_names rfl nofun nofun, read⟩
    | some size =>
      exact allRead_cons.mpr ⟨.of_names rfl nofun nofun, allRead_append.mpr ⟨read, sized size rfl⟩⟩
  case function =>
    intro result parameters isVariadic read each
    refine allRead_cons.mpr ⟨.of_names rfl ?_ nofun, allRead_append.mpr
      ⟨read, Parameter.allRead_listNodes.mpr fun parameter among => (each parameter among).2⟩⟩
    intro name member
    obtain ⟨parameter, among, named⟩ := List.mem_filterMap.mp member
    exact (each parameter among).1 name named

/-! ## Statements -/

theorem readTree_base {type : CType} (read : (readTree given).base type) : AllRead given type.nodes :=
  (readTree_closed []).base_type read

def readStatement (given : Lexeme → Prop) : StatementProperty where
  tree _ := readTree given
  statement _ statement _ := AllRead given statement.nodes
  items _ items _ := AllRead given (items.flatMap Item.nodes) ∧
    ∀ item ∈ items, ∀ text span, item ≠ .verbatim text span

variable {before after : List String}

theorem readStatement_declares {words : Specifiers} {base : CType}
    {declaration : Declaration} (baseRead : AllRead given base.nodes)
    (declares : (readStatement given).declares given words base before declaration after) :
    AllRead given declaration.nodes := by
  obtain ⟨⟨declared, read, named, typed⟩, -, -, -, initialized⟩ := declares
  refine allRead_cons.mpr ⟨.of_names rfl ?_ nofun, allRead_append.mpr ⟨?_, ?_⟩⟩
  · exact List.forall_mem_singleton.mpr (read.1 _ named)
  · rw [typed]
    exact (readTree_closed before).type_typeFrom baseRead read
  · exact allRead_optional.mpr initialized

theorem readStatement_declaresAll {words : Specifiers} {declarations : List Declaration}
    (declares : (readStatement given).declaresAll given words before declarations after) :
    ∀ declaration ∈ declarations, AllRead given declaration.nodes := by
  obtain ⟨base, first, others, middle, rfl, firstDeclares, threaded⟩ := declares
  have baseRead := readTree_base base
  rw [List.forall_mem_cons]
  exact ⟨readStatement_declares baseRead firstDeclares, threaded.forall_mem fun _ _ _ declares =>
    readStatement_declares (words.base.allRead_withoutBodies baseRead) declares⟩

theorem readStatement_loopInit {init : Option Statement}
    (head : (readStatement given).loopInit given before init after) :
    AllRead given (Statement.optionNodes init) := by
  unfold StatementProperty.loopInit at head
  split at head
  · exact allRead_nil
  · exact allRead_cons.mpr ⟨.of_names rfl nofun nofun, head.2⟩
  · obtain ⟨words, declares⟩ := head
    exact allRead_cons.mpr
      ⟨.of_names rfl nofun nofun, allRead_flatMap.mpr (readStatement_declaresAll declares)⟩
  · exact allRead_cons.mpr ⟨.of_names rfl nofun nofun, readTree_base head.2⟩
  · cases head

theorem readStatement_closed : (readStatement given).Closed given := by
  constructor
  case trees => exact readTree_closed
  case expression | defaultLabel =>
    intros
    exact allRead_cons.mpr ⟨.of_names rfl nofun nofun, by assumption⟩
  case block =>
    intro types behind span statements threaded
    exact allRead_cons.mpr ⟨.of_names rfl nofun nofun,
      Statement.allRead_listNodes.mpr (threaded.forall_mem fun _ _ _ read => read)⟩
  case declaration =>
    intro types behind span words declarations declares
    exact allRead_cons.mpr
      ⟨.of_names rfl nofun nofun, allRead_flatMap.mpr (readStatement_declaresAll declares)⟩
  case typeDefinition =>
    exact fun types span type base =>
      allRead_cons.mpr ⟨.of_names rfl nofun nofun, readTree_base base⟩
  case ifThen =>
    intro types behind span condition thenBranch conditionRead thenRead
    exact allRead_cons.mpr ⟨.of_names rfl nofun nofun,
      allRead_append.mpr ⟨allRead_append.mpr ⟨conditionRead, thenRead⟩, allRead_nil⟩⟩
  case ifElse =>
    intro types middle behind span condition thenBranch elseBranch conditionRead thenRead _ elseRead
    exact allRead_cons.mpr ⟨.of_names rfl nofun nofun,
      allRead_append.mpr ⟨allRead_append.mpr ⟨conditionRead, thenRead⟩, elseRead⟩⟩
  case whileLoop | doWhile | switch | caseLabel =>
    intro _ _ _ _ _ first second
    exact allRead_cons.mpr ⟨.of_names rfl nofun nofun, allRead_append.mpr ⟨first, second⟩⟩
  case forLoop =>
    intro types middle behind span init condition update body head conditionRead updateRead bodyRead
    refine allRead_cons.mpr ⟨.of_names rfl nofun nofun, ?_⟩
    simp only [allRead_append, allRead_optional]
    exact ⟨⟨⟨readStatement_loopInit head, conditionRead⟩, updateRead⟩, bodyRead⟩
  case breakStatement | continueStatement | empty =>
    exact fun types span => allRead_cons.mpr ⟨.of_names rfl nofun nofun, allRead_nil⟩
  case returnStatement =>
    exact fun types span value read =>
      allRead_cons.mpr ⟨.of_names rfl nofun nofun, allRead_optional.mpr read⟩
  case gotoStatement =>
    exact fun types span label spelled =>
      allRead_cons.mpr ⟨.of_names rfl (List.forall_mem_singleton.mpr spelled) nofun, allRead_nil⟩
  case labelled =>
    exact fun types behind span label statement spelled read =>
      allRead_cons.mpr ⟨.of_names rfl (List.forall_mem_singleton.mpr spelled) nofun, read⟩
  case nothing =>
    exact fun types => ⟨allRead_nil, fun _ member => absurd member List.not_mem_nil⟩
  case typeItem =>
    intro types span type base
    exact ⟨allRead_flatMap.mpr (List.forall_mem_singleton.mpr (readTree_base base)),
      List.forall_mem_singleton.mpr nofun⟩
  case declarations =>
    intro types behind words declarations declares
    refine ⟨allRead_flatMap.mpr (List.forall_mem_map.mpr (readStatement_declaresAll declares)), ?_⟩
    exact List.forall_mem_map.mpr fun _ _ => nofun
  case function =>
    intro types definition spelled header _ body
    obtain ⟨own, parts⟩ := allRead_cons.mp header
    refine ⟨allRead_flatMap.mpr (List.forall_mem_singleton.mpr ?_), List.forall_mem_singleton.mpr nofun⟩
    refine allRead_cons.mpr ⟨⟨?_, nofun⟩, allRead_append.mpr ⟨parts, body⟩⟩
    exact List.forall_mem_cons.mpr ⟨spelled, own.lexemes⟩

end Parser

/-! ## Units -/

theorem Node.endOfFile_notMem_lexemes (node : Node) : .endOfFile ∉ node.lexemes := by
  intro member
  unfold lexemes at member
  split at member <;> simp at member
  obtain ⟨designator, -, same⟩ := member
  cases designator <;> cases same

/-- The words and literals of a parsed unit are tokens that a text can spell, and no item of it is a
verbatim text. -/
theorem CompilationUnit.allRead_of_parse {text file : String} {typedefs : List String}
    {unit : CompilationUnit} (parses : CompilationUnit.parse text file typedefs = .ok unit) :
    AllRead (·.isSpelled) unit.nodes ∧ ∀ item ∈ unit.items, ∀ text span, item ≠ .verbatim text span := by
  obtain ⟨tokens, after, lexed, runs⟩ := exists_run_of_parse parses
  have given : ∀ token ∈ (Parser.State.ofTokens tokens typedefs).tokens,
      token.lexeme ≠ .endOfFile → token.lexeme.isSpelled := fun token member =>
    Lexer.isSpelled_of_tokenize lexed token ( Annotation.mem_of_mem_stripFrom member)
  let isGiven := fun kind : Lexeme => kind ≠ .endOfFile → kind.isSpelled
  obtain ⟨-, groups, whole, threaded⟩ := Parser.compilationUnit_reaches
    (@Parser.readStatement_closed isGiven) _ given unit after runs
  have each : ∀ group ∈ groups,
      AllRead (fun kind => kind ≠ .endOfFile → kind.isSpelled) (group.flatMap Item.nodes) ∧
        ∀ item ∈ group, ∀ text span, item ≠ .verbatim text span := by
    exact threaded.forall_mem fun _ _ _ read => read
  constructor
  · intro node member
    obtain ⟨item, among, inside⟩ := List.mem_flatMap.mp member
    obtain ⟨group, isGroup, among⟩ := List.mem_flatten.mp (whole ▸ among)
    have read := (each group isGroup).1 node (List.mem_flatMap.mpr ⟨item, among, inside⟩)
    refine ⟨fun kind stands => read.lexemes kind stands ?_, read.list⟩
    rintro rfl
    exact node.endOfFile_notMem_lexemes stands
  · intro item among
    obtain ⟨group, isGroup, among⟩ := List.mem_flatten.mp (whole ▸ among)
    exact (each group isGroup).2 item among

end InlineMacro
