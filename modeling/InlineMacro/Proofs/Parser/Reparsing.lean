import InlineMacro.Proofs.Parser.GrammarCoverage
import InlineMacro.Proofs.Parser.RoundTrip
import InlineMacro.Proofs.Parser.StatementReading
import InlineMacro.Proofs.Parser.WrittenStatement
import InlineMacro.Proofs.Token.Lexing

/-!
# Units that are printed and parsed again

A parsed unit that reads back is printed to a text that is parsed as the unit again, apart from places
and with each name in a block declared on its own. What does not read back are the forms told in
`Node.readsBack` and `Statement.readsBack`; a list as the size of an array is one of them.
-/

set_option autoImplicit false

namespace InlineMacro

open InlineMacro.Parser (FormsItems Threaded writtenStatement)
open Printer

/-! ## Tokens -/

theorem Annotation.isKept_of_mem_stripFrom {tokens : List Token} {last : Option Lexeme} {mode : Mode}
    {token : Token} (spelled : ∀ token ∈ tokens, token.lexeme ≠ .endOfFile → token.lexeme.isSpelled)
    (member : token ∈ stripFrom last mode tokens) : token.lexeme.isKept := by
  have plain {last : Option Lexeme} {mode : Mode} {name : String}
      (kept : nextMode last mode (.identifier name) = none) : announces (.identifier name) = false := by
    have outside : outsideMode last (.identifier name) = none := by
      cases mode with
      | inside => cases kept
      | _ => exact kept
    simp only [outsideMode] at outside
    rw [announces, Bool.or_eq_false_iff]
    split at outside
    · cases outside
    · next noExtension =>
      split at outside
      · cases outside
      · next noAttribute => exact ⟨by simpa using noExtension, by simpa using noAttribute⟩
  induction tokens generalizing last mode with
  | nil => exact absurd member List.not_mem_nil
  | cons first rest ih =>
    obtain ⟨own, others⟩ := List.forall_mem_cons.mp spelled
    rw [stripFrom] at member
    split at member
    · exact ih others member
    · next kept =>
      rcases List.mem_cons.mp member with rfl | member
      · refine fun goesOn => ⟨own goesOn, fun name isName => ?_⟩
        rw [isName] at kept
        exact plain kept
      · exact ih others member

/-! ## Units -/

theorem Printer.unlines_append (first second : List String) :
    unlines (first ++ second) = unlines first ++ unlines second := by
  rw [unlines, List.map_append, String.join_append, unlines, unlines]

namespace Item

theorem listReadBack_append (types : List String) (items others : List Item) :
    listReadBack types (items ++ others) = (listReadBack types items &&
      listReadBack (items.foldl (fun types item => item.typesBehind types) types) others) := by
  induction items generalizing types with
  | nil => rfl
  | cons item items ih => rw [List.cons_append, listReadBack, listReadBack, ih, Bool.and_assoc, List.foldl_cons]

theorem join_text {types : List String} {items : List Item} (readBack : listReadBack types items) :
    String.join (items.map Item.text) = unlines (items.flatMap Item.lines) := by
  induction items generalizing types with
  | nil => rfl
  | cons item items ih =>
    obtain ⟨readsBack, others⟩ := Bool.and_eq_true_iff.mp readBack
    have own : item.text = unlines item.lines := by
      cases item with
      | function definition =>
        rw [text, Function.text, lines, unlines_append]
        rfl
      | declaration | typeDefinition => simp [text, lines, unlines, String.append_assoc]
      | verbatim => cases readsBack
    rw [List.map_cons, String.join_cons, ih others, own, List.flatMap_cons, unlines_append]

end Item

namespace CompilationUnit

def apart (unit : CompilationUnit) : CompilationUnit := { unit with items := unit.items.map Item.apart }

def readsBack (types : List String) (unit : CompilationUnit) : Bool := Item.listReadBack types unit.items

end CompilationUnit

theorem Parser.writtenStatement_groups {types behind : List String} {groups : List (List Item)}
    (threaded : Threaded writtenStatement.items types groups behind)
    (readBack : Item.listReadBack types groups.flatten) :
    ∃ lexemes, FormsItems types (groups.flatten.map Item.apart) lexemes behind ∧
      LinesWritten (groups.flatten.flatMap Item.lines) lexemes := by
  induction threaded with
  | nil => exact ⟨[], .nil _, .nil⟩
  | cons written _ ih =>
    obtain ⟨rfl, written⟩ := written
    rw [List.flatten_cons, Item.listReadBack_append, Bool.and_eq_true] at readBack
    obtain ⟨lexemes, forms, lines⟩ := written readBack.1
    obtain ⟨more, formsMore, linesMore⟩ := ih readBack.2
    rw [List.flatten_cons, List.map_append, List.flatMap_append]
    exact ⟨_, forms.append formsMore, lines.append linesMore⟩

theorem CompilationUnit.exists_written {text file : String} {typedefs : List String} {unit : CompilationUnit}
    (parses : CompilationUnit.parse text file typedefs = .ok unit)
    (readsBack : unit.readsBack (Parser.scopeOf typedefs)) : ∃ lexemes behind, Written unit.text lexemes ∧
        FormsItems (Parser.scopeOf typedefs) (unit.items.map Item.apart) lexemes behind := by
  obtain ⟨tokens, after, lexed, runs⟩ := exists_run_of_parse parses
  have given : ∀ token ∈ (Parser.State.ofTokens tokens typedefs).tokens, token.lexeme.isKept :=
    fun token member => Annotation.isKept_of_mem_stripFrom (Lexer.isSpelled_of_tokenize lexed) member
  obtain ⟨-, groups, whole, threaded⟩ :=
    Parser.compilationUnit_reaches Parser.writtenStatement_closed _ given unit after runs
  unfold CompilationUnit.readsBack at readsBack
  rw [whole] at readsBack
  obtain ⟨lexemes, forms, lines⟩ := Parser.writtenStatement_groups threaded readsBack
  rw [← whole] at forms lines readsBack
  refine ⟨lexemes, after.typedefs, ?_, forms⟩
  rw [CompilationUnit.text, Item.join_text readsBack]
  exact lines.written

/-- A parsed unit that reads back is printed to a text that is parsed as the unit again, apart from places
and with each name in a block declared on its own, unless the text is too long to be counted. -/
theorem CompilationUnit.printed_parses {text file : String} {typedefs : List String}
    {unit : CompilationUnit} (again : String)
    (parses : CompilationUnit.parse text file typedefs = .ok unit)
    (readsBack : unit.readsBack (Parser.scopeOf typedefs)) :
    (∃ reparsed, CompilationUnit.parse unit.text again typedefs = .ok reparsed ∧
      reparsed.unplaced = unit.apart.unplaced) ∨
    CompilationUnit.parse unit.text again typedefs = .error .overflow ∧
      Text.lineBound ≤ unit.text.length + 1 := by
  obtain ⟨lexemes, behind, written, forms⟩ := exists_written parses readsBack
  refine (Lexer.tokenize_of_scans written.scans again).imp ?_ fun ⟨overflows, long⟩ =>
    ⟨by rw [CompilationUnit.parse, overflows]; rfl, long⟩
  rintro ⟨tokens, tokenized, lexed⟩
  have plain : ∀ kind ∈ lexemes ++ [.endOfFile], Annotation.announces kind = false :=
    List.forall_mem_append.mpr ⟨written.plain, List.forall_mem_singleton.mpr rfl⟩
  obtain ⟨fileEnd, start⟩ := Parser.State.ofTokens_eq lexed plain typedefs
  obtain ⟨last, isLast, spelled⟩ := Parser.exists_spelled lexed
  have enough := spelled.cost_le
  obtain ⟨reparsed, reads, same⟩ := Parser.Leads.budgeted
    (Parser.Grammar.unit_leads unit.span forms (by omega) spelled isLast)
  refine ⟨reparsed, ?_, same⟩
  rw [CompilationUnit.parse, tokenized]
  show Parser.runOn _ tokens typedefs = _
  unfold Parser.runOn Parser.compilationUnit
  rw [start, reads]

/-- Two names in one declaration, and a name of a type that an object hides in a block. -/
theorem CompilationUnit.printed_parses_of_hidden_type :
    ∃ unit, CompilationUnit.parse
        "typedef int T; void f(T a) \x7b T b, *c = &a; \x7b T T = 2; b = -T * (a + 1); \x7d if (a) g((T) *c); \x7d" =
        .ok unit ∧
      unit.readsBack (Parser.scopeOf []) ∧
      ∃ reparsed, CompilationUnit.parse unit.text = .ok reparsed ∧
        reparsed.unplaced = unit.apart.unplaced := by
  refine exists_parsed _ (fun unit => unit.readsBack (Parser.scopeOf []) &&
    unit.text.length + 1 < Text.lineBound) (by decide +kernel) fun unit parses checked => ?_
  obtain ⟨readsBack, short⟩ := Bool.and_eq_true_iff.mp checked
  refine ⟨readsBack, (printed_parses _ parses readsBack).resolve_right fun ⟨_, long⟩ => ?_⟩
  exact absurd long (by simpa using short)

/-- A list for the size of an array loses its parentheses and is no size any more. -/
theorem CompilationUnit.printed_not_parsed :
    ∃ unit, CompilationUnit.parse "int a[(1, 2)];" = .ok unit ∧
      ∀ reparsed, CompilationUnit.parse unit.text ≠ .ok reparsed := by
  refine exists_parsed _ (fun unit => (CompilationUnit.parse unit.text).toOption.isNone)
    (by decide +kernel) ?_
  intro unit _ fails reparsed parses
  rw [parses] at fails
  cases fails

end InlineMacro
