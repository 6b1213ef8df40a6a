import InlineMacro.Proofs.Parser.Counters
import InlineMacro.Proofs.Parser.GrammarCoverage

/-!
# Inline assembly is refused

The grammar takes no `asm`, so a unit parses only if the filter has taken out every one of them. It
takes out those behind something that can end a declarator, and no others outside of annotations.
Behind the head of a statement, which ends as a declarator can, it takes out assembly as well.
-/

set_option autoImplicit false

namespace InlineMacro

namespace Annotation

variable {before : List Token} {word : Token}

theorem nextMode_assembly {last : Option Lexeme} {mode : Mode} (outside : ∀ depth, mode ≠ .inside depth) :
    nextMode last mode (.keyword .kwAsm) = if last.any endsDeclarator then some .announced else none := by
  cases mode with
  | outside => rfl
  | announced => rfl
  | inside depth => exact absurd rfl (outside depth)

theorem strip_assembly (after : List Token) (isAsm : word.lexeme = .keyword .kwAsm)
    (outside : ∀ depth, (placeBehind before).2 ≠ .inside depth) :
    strip (before ++ word :: after) = strip before ++ if (placeBehind before).1.any endsDeclarator
      then stripFrom (placeBehind before).1 .announced after
      else word :: stripFrom (some (.keyword .kwAsm)) .outside after := by
  rw [strip_append, stripFrom, isAsm, nextMode_assembly outside]
  by_cases ends : (placeBehind before).1.any endsDeclarator
  · rw [if_pos ends, if_pos ends]
  · rw [if_neg ends, if_neg ends]

end Annotation

namespace Parser

def anyStatement : StatementProperty where
  tree _ := anyTree
  statement _ _ _ := True
  items _ _ _ := True

theorem anyStatement_closed (given : Lexeme → Prop) : anyStatement.Closed given := by
  constructor
  · exact anyTree_closed given
  all_goals intros; trivial

theorem not_isAtEnd {state : State} {token : Token} {behind : List Token}
    (tokens : state.tokens = token :: behind) (goesOn : token.lexeme ≠ .endOfFile) :
    state.isAtEnd = false := by
  have ahead : state.lexeme? = some token.lexeme := by rw [State.lexeme?, tokens]; rfl
  unfold State.isAtEnd
  split
  · next none => rw [none] at ahead; cases ahead
  · next isEnd => exact absurd (Option.some.inj (ahead.symm.trans isEnd)) goesOn
  · rfl

theorem isUsed_of_compilationUnit {state after : State} {unit : CompilationUnit} {front : List Token}
    {token : Token} {behind : List Token} (runs : compilationUnit.run state = .ok unit after)
    (tokens : state.tokens = front ++ token :: behind)
    (within : ∀ other ∈ front ++ [token], other.lexeme ≠ .endOfFile) : token.lexeme.isUsed := by
  obtain ⟨⟨taken, whole, used⟩, -⟩ := compilationUnit_reaches (anyStatement_closed fun _ => True) state
    (fun _ _ => trivial) unit after runs
  have atEnd := isAtEnd_of_compilationUnit runs
  have stops (next : Token) (others : List Token) (rest : after.tokens = next :: others)
      (inside : next ∈ front ++ [token]) : False := by
    rw [not_isAtEnd rest (within next inside)] at atEnd
    cases atEnd
  rw [tokens] at whole
  rcases List.append_eq_append_iff.mp whole with ⟨others, rfl, rest⟩ | ⟨others, rfl, rest⟩
  · cases others with
    | nil => exact (stops token behind rest.symm (by simp)).elim
    | cons first others =>
      rw [List.cons_append, List.cons.injEq] at rest
      exact used token (by simp [rest.1])
  · cases others with
    | nil => exact (stops token behind rest (by simp)).elim
    | cons first others => exact (stops first _ rest (by simp)).elim

/-- Outside of annotations, assembly that stands behind nothing that can end a declarator is refused,
with an error at a place as long as the words `long` can be counted. Behind what can end one it is
taken out, with the group that it announces. -/
theorem runOn_assembly (before : List Token) {word : Token} (after : List Token)
    (typedefs : List String) (isAsm : word.lexeme = .keyword .kwAsm)
    (within : ∀ token ∈ before, token.lexeme ≠ .endOfFile)
    (outside : ∀ depth, ( Annotation.placeBehind before).2 ≠ .inside depth) :
    if ( Annotation.placeBehind before).1.any Annotation.endsDeclarator then
      Annotation.strip (before ++ word :: after) =
        Annotation.strip before ++
          Annotation.stripFrom ( Annotation.placeBehind before).1 .announced after
    else
      ∃ failure, runOn compilationUnit (before ++ word :: after) typedefs = .error failure ∧
        (LongsFit ( Annotation.strip (before ++ word :: after)) → failure.isSyntaxError) := by
  have stripped := Annotation.strip_assembly after isAsm outside
  split
  · next ends => rwa [if_pos ends] at stripped
  · next none =>
    rw [if_neg none] at stripped
    unfold runOn
    split
    · next unit behind runs =>
      exfalso
      have used := isUsed_of_compilationUnit runs stripped fun other inside => by
        rcases List.mem_append.mp inside with inside | inside
        · exact within other ( Annotation.mem_of_mem_stripFrom inside)
        · rw [List.mem_singleton.mp inside, isAsm]
          nofun
      rw [isAsm] at used
      cases used
    · next failure behind runs =>
      exact ⟨failure, rfl, fun fits => compilationUnit_counts.fails _ fits failure behind runs⟩

/-- At the start of a function's body, and behind a declarator. -/
theorem runOn_assembly_in_body :
    let token (kind : Lexeme) : Token := ⟨kind, .point .synthetic⟩
    let header := [token (.keyword .kwVoid), token (.identifier "f"), token (.mark .leftParen),
      token (.mark .rightParen)]
    let behind := [token (.mark .semicolon), token (.mark .rightBrace), token .endOfFile]
    (∃ failure, runOn compilationUnit ((header ++ [token (.mark .leftBrace)]) ++
        token (.keyword .kwAsm) :: behind) [] = .error failure ∧ failure.isSyntaxError) ∧
      Annotation.strip (header ++ token (.keyword .kwAsm) :: behind) = header ++ behind := by
  intro token header behind
  have refused := runOn_assembly (header ++ [token (.mark .leftBrace)]) behind []
    (rfl : (token (.keyword .kwAsm)).lexeme = _) (by decide)
    (by rw [show ( Annotation.placeBehind _).2 = .outside by decide]; nofun)
  have taken := runOn_assembly header behind [] (rfl : (token (.keyword .kwAsm)).lexeme = _)
    (by decide) (by rw [show ( Annotation.placeBehind _).2 = .outside by decide]; nofun)
  rw [if_neg (by decide)] at refused
  rw [if_pos (by decide)] at taken
  refine ⟨?_, taken⟩
  obtain ⟨failure, fails, isError⟩ := refused
  exact ⟨failure, fails, isError (.of_count (by decide))⟩

end Parser

/-- The body of a branch stands behind a parenthesis, and goes when it is assembly. -/
theorem CompilationUnit.parse_drops_assembly :
    ∃ unit, CompilationUnit.parse "void f(int x) \x7b if (x) asm(\"nop\"); \x7d" = .ok unit ∧
      unit.text = "void f(int x)\n\x7b\n    if (x)\n        ;\n\x7d\n\n" :=
  exists_parsed _ (fun unit => unit.text == "void f(int x)\n\x7b\n    if (x)\n        ;\n\x7d\n\n")
    (by decide +kernel) fun _ _ checked => beq_iff_eq.mp checked

end InlineMacro
