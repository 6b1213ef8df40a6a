import InlineMacro.Proofs.Parser.Recognition
import InlineMacro.Proofs.Parser.WrittenTree

/-!
# What is printed is parsed again

An expression that is printed and parsed is the same expression, and a type that is printed around a
name, or without one, is read as the same type and name, apart from places. The only other outcome is
that of a text too long to count its lines and columns.
-/

set_option autoImplicit false

namespace InlineMacro

namespace Parser

def scopeOf (typedefs : List String) : List String := (builtinTypedefs ++ typedefs).eraseDups

variable {tokens : List Token}

theorem State.ofTokens_eq {lexemes : List Lexeme} (lexed : tokens.map Token.lexeme = lexemes)
    (plain : ∀ kind ∈ lexemes, Annotation.announces kind = false) (typedefs : List String) :
    ∃ fileEnd, State.ofTokens tokens typedefs = ⟨tokens, scopeOf typedefs, fileEnd⟩ := by
  have kept : Annotation.strip tokens = tokens :=
    Annotation.stripFrom_eq_self (fun token member =>
      plain _ (lexed ▸ List.mem_map_of_mem member)) none
  exact ⟨_, by rw [State.ofTokens, kept]; rfl⟩

variable {typedefs : List String} {lexemes : List Lexeme}

theorem exists_spelled (lexed : tokens.map Token.lexeme = lexemes ++ [.endOfFile]) :
    ∃ last : Token, last.lexeme = .endOfFile ∧ Spelled lexemes tokens [last] := by
  obtain ⟨front, behind, rfl, same, isEnd⟩ := List.map_eq_append_iff.mp lexed
  obtain ⟨last, rfl, isLast⟩ := List.map_eq_singleton_iff.mp isEnd
  exact ⟨last, isLast, .of_map [last] same⟩

variable {rest : List Token}

theorem Spelled.length_eq (spelled : Spelled lexemes tokens rest) :
    tokens.length = lexemes.length + rest.length := by
  induction lexemes generalizing tokens with
  | nil => rw [show tokens = rest from spelled, List.length_nil, Nat.zero_add]
  | cons kind lexemes ih =>
    obtain ⟨token, behind, rfl, -, spelled⟩ := spelled
    rw [List.length_cons, List.length_cons, ih spelled, Nat.succ_add]

theorem Spelled.cost_le (spelled : Spelled lexemes tokens rest) :
    cost lexemes + 64 ≤ 64 * (tokens.length + 1) := by
  rw [spelled.length_eq, cost]
  omega

theorem Leads.budgeted {α : Type} {fileEnd : Location} {behind : List String}
    {production : Nat → Parse α} {post : α → Prop}
    (takes : Leads typedefs fileEnd (production (64 * (tokens.length + 1))) tokens rest behind post) :
    Leads typedefs fileEnd (Parser.budgeted production) tokens rest behind post := takes

end Parser

/-! ## Expressions -/

theorem Parser.expression_reads {tree : Expr} {lexemes : List Lexeme} {tokens : List Token}
    {typedefs : List String} (fileEnd : Location)
    (derives : Parser.Derives typedefs (.expr .expression tree) lexemes)
    (lexed : tokens.map Token.lexeme = lexemes ++ [.endOfFile]) :
    Parser.Takes typedefs fileEnd (do
      let value ← Parser.expression
      Parser.expect .endOfFile "expression"
      pure value) tokens [] fun value => value.unplaced = tree.unplaced := by
  obtain ⟨last, isLast, spelled⟩ := Parser.exists_spelled lexed
  have enough := spelled.cost_le
  have reads : Parser.Takes typedefs fileEnd (Parser.Grammar.expression (64 * (tokens.length + 1)))
      tokens [last] fun value => value.unplaced = tree.unplaced :=
    derives.isRead (64 * (tokens.length + 1)) (by simp only [Parser.Place.height]; omega) fileEnd tokens
      [last] spelled (.of_next (congrArg some isLast) rfl)
  exact .bind (.budgeted reads) fun value same => .expect isLast (.pure same)

/-- An expression that is printed and parsed is the same expression apart from places, unless its text
is too long to be counted. -/
theorem Expr.parse_text (tree : Expr) (legible : tree.isLegible Parser.builtinTypedefs) :
    (∃ parsed, Expr.parse tree.text = .ok parsed ∧ parsed.unplaced = tree.unplaced) ∨
      Expr.parse tree.text = .error .overflow ∧ Text.lineBound ≤ tree.text.length + 1 := by
  obtain ⟨lexemes, written, derives, -⟩ := Expr.isWritten 0 0 tree legible
  refine (Lexer.tokenize_of_scans written.scans "<input>").imp ?_ fun ⟨overflows, long⟩ =>
    ⟨by rw [Expr.parse, Expr.text, overflows]; rfl, long⟩
  rintro ⟨tokens, tokenized, lexed⟩
  have plain : ∀ kind ∈ lexemes ++ [.endOfFile], Annotation.announces kind = false :=
    List.forall_mem_append.mpr ⟨written.plain, List.forall_mem_singleton.mpr rfl⟩
  obtain ⟨fileEnd, start⟩ := Parser.State.ofTokens_eq lexed plain []
  obtain ⟨parsed, reads, same⟩ := Parser.expression_reads fileEnd derives lexed
  refine ⟨parsed, ?_, same⟩
  have scope : Parser.scopeOf [] = Parser.builtinTypedefs := by decide
  rw [scope] at start
  rw [Expr.parse, Expr.text, tokenized]
  show Parser.runOn _ tokens = _
  unfold Parser.runOn
  rw [start, reads]

/-- Signs in front of signs, and lists and choices below what binds more tightly. -/
theorem Expr.parse_text_nested :
    let tree : Expr := .binary .synthetic .addAssign (.identifier .synthetic "a")
      (.unary .synthetic .minus (.unary .synthetic .preDecrement (.binary .synthetic .index
        (.comma .synthetic [.identifier .synthetic "b", .conditional .synthetic
          (.intLiteral .synthetic "1") (.floatLiteral .synthetic "2.5")
          (.charLiteral .synthetic "'c'")]) (.cast .synthetic (.basic .int)
            (.sizeofExpr .synthetic (.identifier .synthetic "d"))))))
    ∃ parsed, Expr.parse tree.text = .ok parsed ∧ parsed.unplaced = tree.unplaced :=
  (Expr.parse_text _ (by decide +kernel)).resolve_right fun ⟨_, long⟩ => absurd long (by decide +kernel)

/-! ## Types -/

def CType.printed (type : CType) (name : Option String) : String := name.elim type.text type.declare

theorem CType.printed_eq (type : CType) (name : Option String) :
    type.printed name = Printer.specifiersAnd (Printer.declaratorParts 0 none (name.getD "") type) := by
  cases name <;> rfl

/-- A type that is printed around a name, or alone, is read as that type and name, and only the end of
the file is left, unless the text is too long to be counted. -/
theorem CType.parse_printed (type : CType) (name : Option String) (typedefs : List String)
    (legible : type.isLegible (Parser.scopeOf typedefs)) (ordinary : name.all isOrdinary) :
    (∃ tokens given between declared after last, Lexer.tokenize (type.printed name) = .ok tokens ∧
      Parser.declarationSpecifiers.run (.ofTokens tokens typedefs) = .ok given between ∧
      Parser.declarator.run between = .ok declared after ∧ given.storage = none ∧
      given.isInline = false ∧ declared.name = name ∧
      (declared.typeFrom given.base).unplaced = type.unplaced ∧ after.tokens = [last] ∧
      last.lexeme = .endOfFile) ∨
    Lexer.tokenize (type.printed name) = .error .overflow ∧
      Text.lineBound ≤ (type.printed name).length + 1 := by
  obtain ⟨named, writtenName⟩ : ∃ lexemes, Parser.Declarator.WrittenAs (Parser.scopeOf typedefs) true
      { name := name } (name.getD "") lexemes := exists_writtenName ordinary
  have parted : type.PartsWritten (Parser.scopeOf typedefs) name
      (Printer.declaratorParts 0 none (name.getD "") type) :=
    CType.partsWritten 0 type legible (writtenName.ofDirect _)
  obtain ⟨base, spec, inner, lexemes, written, specifiers, derives, sameName, sameType⟩ := parted.written
  rw [← CType.printed_eq] at written
  refine (Lexer.tokenize_of_scans written.scans "<input>").imp ?_ id
  rintro ⟨tokens, tokenized, lexed⟩
  have plain : ∀ kind ∈ spec ++ lexemes ++ [.endOfFile], Annotation.announces kind = false :=
    List.forall_mem_append.mpr ⟨written.plain, List.forall_mem_singleton.mpr rfl⟩
  obtain ⟨fileEnd, start⟩ := Parser.State.ofTokens_eq lexed plain typedefs
  obtain ⟨last, isLast, spelled⟩ := Parser.exists_spelled lexed
  obtain ⟨between, ahead, behind⟩ := spelled.append
  have next : Parser.next? [last] = some .endOfFile := congrArg some isLast
  have stops : Parser.StopsSpecifiers between :=
    Parser.Phrase.IsRead.specifierStops behind derives.startsDeclarator fun kind member => by
      rw [next] at member
      cases member
      exact ⟨nofun, nofun⟩
  have stopsDeclarator : Parser.StopsDeclarator [last] := fun kind member => by
    rw [next] at member
    cases member
    exact ⟨nofun, nofun, nofun, nofun, nofun⟩
  have enough := spelled.cost_le
  have enoughBehind := behind.cost_le
  rw [Parser.cost_append] at enough
  obtain ⟨given, reads, noStorage, notInline, sameBase⟩ :=
    Parser.Leads.budgeted (specifiers.derives.isRead _ (by omega) fileEnd tokens between ahead stops)
  obtain ⟨declared, readsBehind, same⟩ :=
    Parser.Leads.budgeted (derives.isRead _ (by omega) fileEnd between [last] behind stopsDeclarator)
  obtain ⟨named, -⟩ := Parser.Declarator.mk.inj same
  refine ⟨tokens, given, _, declared, _, last, tokenized, ?_, readsBehind, noStorage, notInline,
    named.trans sameName, ?_, rfl, isLast⟩
  · rw [start]
    exact reads
  · rw [Parser.Declarator.unplaced_typeFrom, same, sameBase, ← Parser.Declarator.unplaced_typeFrom,
      sameType]

/-- An array of pointers to functions that take a function and return a pointer to an array. -/
theorem CType.parse_printed_nested :
    let callback : CType := .function (.basic .void) [⟨some "size", .named "size_t", .synthetic⟩] true
    let result : CType := .pointer {} (.array (.qualified { isConst := true }
      (.record .struct (some "node") none)) none)
    let type : CType := .array (.pointer { isVolatile := true } (.function result
      [⟨none, callback, .synthetic⟩, ⟨some "x", .basic .unsignedLongLong, .synthetic⟩] false))
      (some (.intLiteral .synthetic "3"))
    ∃ tokens given between declared after last,
      Lexer.tokenize (type.printed (some "table")) = .ok tokens ∧
      Parser.declarationSpecifiers.run (.ofTokens tokens ["size_t"]) = .ok given between ∧
      Parser.declarator.run between = .ok declared after ∧ given.storage = none ∧
      given.isInline = false ∧ declared.name = some "table" ∧
      (declared.typeFrom given.base).unplaced = type.unplaced ∧ after.tokens = [last] ∧
      last.lexeme = .endOfFile :=
  (CType.parse_printed _ (some "table") ["size_t"] (by decide +kernel) (by decide +kernel)).resolve_right
    fun ⟨_, long⟩ => absurd long (by decide +kernel)

end InlineMacro
