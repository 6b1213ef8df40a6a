import InlineMacro.Proofs.Parser.SpelledTrees

/-!
# The names in a printed unit

The identifiers that a printed unit is scanned as are names of the unit, of which fresh names keep
clear. A designator names a member that is no name of the unit by itself, but one of a field if the
record is declared there. A number in front of a point is printed next to it, and where it takes in
only a part of the member behind, the rest is scanned as another name.
-/

set_option autoImplicit false

namespace InlineMacro

def Node.fieldNames : Node → List String
  | .type (.record _ _ fields) => (fields.getD []).filterMap Field.name
  | _ => []

def Node.designatedMembers : Node → List String
  | .initializer (.designated _ designators _) =>
    designators.filterMap fun
      | .member name => some name
      | .index _ => none
  | _ => []

namespace Node

theorem fieldNames_subset (node : Node) : node.fieldNames ⊆ node.names := by
  unfold fieldNames
  split
  · exact List.subset_append_right _ _
  · exact List.nil_subset _

theorem mem_names_of_lexemes {node : Node} {name : String} (stands : .identifier name ∈ node.lexemes) :
    name ∈ node.names ∨ name ∈ node.designatedMembers := by
  unfold lexemes at stands
  split at stands
  case h_5 =>
    obtain ⟨designator, among, same⟩ := List.mem_filterMap.mp stands
    refine .inr (List.mem_filterMap.mpr ⟨designator, among, ?_⟩)
    cases designator with
    | index index => cases same
    | member name =>
      cases same
      rfl
  case h_6 =>
    obtain ⟨other, among, same⟩ := List.mem_map.mp stands
    cases same
    exact .inl among
  all_goals simp at stands

end Node

namespace CompilationUnit

def fieldNames (unit : CompilationUnit) : List String := unit.nodes.flatMap Node.fieldNames

def designatedMembers (unit : CompilationUnit) : List String :=
  unit.nodes.flatMap Node.designatedMembers

variable {text file : String} {typedefs : List String} {unit : CompilationUnit}

theorem mem_identifiers_of_node {node : Node} {name : String} (among : node ∈ unit.nodes)
    (stands : name ∈ node.names) : name ∈ unit.identifiers := by
  rw [identifiers, List.mem_eraseDups]
  exact List.mem_flatMap.mpr ⟨node, among, stands⟩

theorem wordsAmong_identifiers (parses : parse text file typedefs = .ok unit)
    (declared : ∀ name ∈ unit.designatedMembers, name ∈ unit.fieldNames)
    (whole : ∀ node ∈ unit.nodes, node.cutsMember = false) :
    WordsAmong (· ∈ unit.identifiers) unit.text.toList := by
  obtain ⟨read, written⟩ := allRead_of_parse parses
  apply wordsAmong_text written
  intro node member
  have known (name : String) (stands : .identifier name ∈ node.lexemes) : name ∈ unit.identifiers := by
    rcases Node.mem_names_of_lexemes stands with isName | designated
    · exact mem_identifiers_of_node member isName
    · have isField := declared name (List.mem_flatMap.mpr ⟨node, member, designated⟩)
      obtain ⟨record, among, named⟩ := List.mem_flatMap.mp isField
      exact mem_identifiers_of_node among (record.fieldNames_subset named)
  exact ⟨(read node member).lexemes, known, (read node member).list, whole node member⟩

/-- What a printed unit is scanned as has identifiers of the unit only, if its designators name fields
of the unit and no number takes in a part of a member. The text is scanned, unless it is so long that
lines and columns cannot be counted. -/
theorem printed_names_reserved (parses : parse text file typedefs = .ok unit)
    (declared : ∀ name ∈ unit.designatedMembers, name ∈ unit.fieldNames)
    (whole : ∀ node ∈ unit.nodes, node.cutsMember = false) (again : String) :
    (∃ tokens, Lexer.tokenize unit.text again = .ok tokens ∧
      ∀ token ∈ tokens, ∀ name, token.lexeme = .identifier name → name ∈ unit.identifiers) ∨
      Lexer.tokenize unit.text again = .error .overflow ∧ Text.lineBound ≤ unit.text.length + 1 :=
  Lexer.tokenize_of_wordsAmong (wordsAmong_identifiers parses declared whole) again

/-- A designator, a member of a number and names in the types of casts. -/
theorem printed_names_reserved_of_designator :
    ∃ unit, parse "struct P \x7b int x1; union \x7b int u; \x7d; \x7d; struct P p = \x7b .x1 = 1 \x7d;
        int f(int (*g)(int n)) \x7b L: g((int (*)[sizeof(p)])p.u); 1 .x1; goto L; \x7d" = .ok unit ∧
      unit.designatedMembers = ["x1"] ∧
      ((∃ tokens, Lexer.tokenize unit.text = .ok tokens ∧
        ∀ token ∈ tokens, ∀ name, token.lexeme = .identifier name → name ∈ unit.identifiers) ∨
        Lexer.tokenize unit.text = .error .overflow ∧ Text.lineBound ≤ unit.text.length + 1) := by
  refine exists_parsed _ (fun unit => unit.designatedMembers == ["x1"] &&
    unit.fieldNames.contains "x1" && unit.nodes.all (! ·.cutsMember)) (by decide +kernel) ?_
  intro unit parses checked
  simp only [Bool.and_eq_true, beq_iff_eq, List.contains_iff_mem, List.all_eq_true,
    Bool.not_eq_true'] at checked
  obtain ⟨⟨designated, isField⟩, whole⟩ := checked
  refine ⟨designated, printed_names_reserved parses ?_ whole "<input>"⟩
  rw [designated]
  exact List.forall_mem_singleton.mpr isField

/-- The number takes in the member up to its `$`, and the rest of it is another name. -/
theorem printed_names_not_reserved :
    ∃ unit, parse "void f(void) \x7b 1 .a$b; \x7d" = .ok unit ∧ unit.designatedMembers = [] ∧
      ∃ tokens, Lexer.tokenize unit.text = .ok tokens ∧
        ∃ token ∈ tokens, token.lexeme = .identifier "$b" ∧ "$b" ∉ unit.identifiers := by
  refine exists_parsed _ (fun unit => unit.designatedMembers == [] &&
    (Lexer.tokenize unit.text).toOption.any fun tokens => tokens.any fun token =>
      token.lexeme == .identifier "$b" && !unit.identifiers.contains "$b") (by decide +kernel) ?_
  intro unit parses checked
  rw [Bool.and_eq_true, beq_iff_eq] at checked
  obtain ⟨none, found⟩ := checked
  refine ⟨none, ?_⟩
  cases scanned : Lexer.tokenize unit.text with
  | error failure =>
    rw [scanned] at found
    cases found
  | ok tokens =>
    rw [scanned] at found
    obtain ⟨token, among, isOther⟩ := List.any_eq_true.mp found
    rw [Bool.and_eq_true, beq_iff_eq] at isOther
    exact ⟨tokens, rfl, token, among, isOther.1, by simpa using isOther.2⟩

end CompilationUnit

end InlineMacro
