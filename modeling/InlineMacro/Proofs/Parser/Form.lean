import InlineMacro.Proofs.Parser.BuiltStatements
import InlineMacro.Proofs.Run.Stages

/-!
# The form of what is parsed

The body of a function that is parsed is a block, and its loops start with an expression or a
declaration, if they start with anything. No other part of the grammar has a say in that.
-/

set_option autoImplicit false

namespace InlineMacro

namespace Parser

def anyTree : TreeProperty where
  expr _ := True
  initializer _ := True
  specified _ := True
  type _ := True

theorem anyTree_closed (given : Lexeme → Prop) (typedefs : List String) : anyTree.Closed given typedefs := by
  constructor <;> intros <;> trivial

def formedStatement : StatementProperty where
  tree _ := anyTree
  statement _ statement _ := statement.HasLoopHeads
  items _ items _ := ∀ function ∈ Item.functions items, function.body.isBlock ∧ function.body.HasLoopHeads

theorem formedStatement_closed (given : Lexeme → Prop) : formedStatement.Closed given := by
  constructor
  case trees => exact anyTree_closed given
  case block =>
    exact fun types behind span statements threaded =>
      (Statement.listHaveLoopHeads_iff statements).mpr (threaded.forall_mem fun _ _ _ heads => heads)
  case ifThen => exact fun types behind span condition thenBranch _ heads => heads
  case ifElse =>
    exact fun types middle behind span condition thenBranch elseBranch _ first _ second => ⟨first, second⟩
  case whileLoop | switch | caseLabel => exact fun types behind span value body _ heads => heads
  case doWhile => exact fun types behind span body condition heads _ => heads
  case defaultLabel => exact fun types behind span statement heads => heads
  case labelled => exact fun types behind span label statement _ heads => heads
  case forLoop =>
    intro types middle behind span init condition update body head _ _ heads
    unfold StatementProperty.loopInit at head
    split at head
    · exact heads
    · exact ⟨.expression _ _, heads⟩
    · exact ⟨.declaration _ _, heads⟩
    · exact ⟨.typeDefinition _ _, heads⟩
    · cases head
  case declarations =>
    intro types behind words declarations _ function member
    obtain ⟨item, among, found⟩ := List.mem_filterMap.mp member
    obtain ⟨declaration, -, rfl⟩ := List.mem_map.mp among
    cases found
  case function =>
    intro types definition _ _ isBlock heads function member
    rw [List.mem_singleton.mp member]
    exact ⟨isBlock, heads⟩
  case nothing | typeItem => nofun
  all_goals intros; trivial

end Parser

namespace CompilationUnit

variable {text file : String} {typedefs : List String} {unit : CompilationUnit}

theorem exists_run_of_parse (parses : parse text file typedefs = .ok unit) :
    ∃ tokens after, Lexer.tokenize text file = .ok tokens ∧
      Parser.compilationUnit.run (.ofTokens tokens typedefs) = .ok unit after := by
  unfold parse at parses
  cases lexed : Lexer.tokenize text file with
  | error failure =>
    rw [lexed] at parses
    cases parses
  | ok tokens =>
    rw [lexed] at parses
    change Parser.runOn Parser.compilationUnit tokens typedefs = .ok unit at parses
    unfold Parser.runOn at parses
    split at parses
    · next result after runs =>
      cases parses
      exact ⟨tokens, after, rfl, runs⟩
    · cases parses

theorem exists_parsed (text : String) (check : CompilationUnit → Bool)
    (checked : (CompilationUnit.parse text).toOption.any check) {property : CompilationUnit → Prop}
    (holds : ∀ unit, CompilationUnit.parse text = .ok unit → check unit → property unit) :
    ∃ unit, CompilationUnit.parse text = .ok unit ∧ property unit := by
  cases parsed : CompilationUnit.parse text with
  | error failure =>
    rw [parsed] at checked
    cases checked
  | ok unit =>
    rw [parsed] at checked
    exact ⟨unit, rfl, holds unit parsed checked⟩

/-- The functions of a parsed unit have blocks for bodies, in which loops start with an expression or
a declaration. -/
theorem isFormed_of_parse (parses : parse text file typedefs = .ok unit) : unit.IsFormed := by
  obtain ⟨tokens, after, -, runs⟩ := exists_run_of_parse parses
  obtain ⟨-, groups, items, threaded⟩ := Parser.compilationUnit_reaches
    (Parser.formedStatement_closed fun _ => True) _ (fun _ _ => trivial) unit after runs
  intro function member
  obtain ⟨item, among, found⟩ := List.mem_filterMap.mp member
  rw [items] at among
  obtain ⟨group, inside, among⟩ := List.mem_flatten.mp among
  exact threaded.forall_mem (fun _ _ _ formed => formed) group inside function
    (List.mem_filterMap.mpr ⟨item, among, found⟩)

end CompilationUnit

end InlineMacro
