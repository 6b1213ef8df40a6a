import InlineMacro.Proofs.Parser.BracedReading

/-!
# The parser recognizes phrases

Every phrase of the grammar is read as its tree. The induction is over the rules that make up the
phrase; what each part starts with says that the parser does not go on with the part in front of it.
-/

set_option autoImplicit false

namespace InlineMacro.Parser

variable {typedefs : List String} {lexemes : List Lexeme}

/-! ## What the parts start with -/

theorem Derives.startsParts {trees : List Expr} (derives : Derives typedefs (.parts trees) lexemes) :
    lexemes = [] ∧ trees = [] ∨ lexemes.head? = some (.mark .comma) := by
  cases derives with
  | noParts => exact .inl ⟨rfl, rfl⟩
  | part => exact .inr rfl

theorem Derives.startsOperators {level : Nat} {left tree : Expr}
    (derives : Derives typedefs (.operators level left tree) lexemes) :
    lexemes = [] ∨ ∃ sign operator, lexemes.head? = some (.mark sign) ∧
      binaryOperator? sign = some (level, operator) := by
  cases derives with
  | noOperators => exact .inl rfl
  | operator _ isOperator => exact .inr ⟨_, _, rfl, isOperator⟩

theorem Derives.startsSuffixes {operand tree : Expr}
    (derives : Derives typedefs (.suffixes operand tree) lexemes) :
    lexemes = [] ∨ ∃ sign, lexemes.head? = some (.mark sign) := by
  cases derives with
  | noSuffixes => exact .inl rfl
  | _ => exact .inr ⟨_, rfl⟩

theorem Derives.startsTypeName {type : CType} (derives : Derives typedefs (.typeName type) lexemes) :
    ∃ kind, lexemes.head? = some kind ∧ opensType typedefs kind := by
  cases derives with
  | typeName given _ opens _ =>
    obtain ⟨first, others, rfl, -⟩ := given.startsSpecifiers
    exact ⟨first, rfl, opens first rfl⟩

theorem Derives.startsArguments {typesAllowed : Bool} {trees : List Expr}
    (derives : Derives typedefs (.arguments typesAllowed trees) lexemes) :
    ∃ kind, lexemes.head? = some kind ∧ kind ≠ .mark .rightParen := by
  have one {tree : Expr} {lexemes : List Lexeme} (more : List Lexeme)
      (derives : Derives typedefs (.argument typesAllowed tree) lexemes) :
      ∃ kind, (lexemes ++ more).head? = some kind ∧ kind ≠ .mark .rightParen := by
    cases derives with
    | plainArgument value =>
      obtain ⟨first, others, rfl, opens, -⟩ := value.startsExpr
      exact ⟨first, rfl, by rintro rfl; cases opens⟩
    | typeArgument _ names =>
      obtain ⟨kind, head, opens⟩ := names.startsTypeName
      exact ⟨kind, by rw [List.head?_append, head]; rfl, by rintro rfl; cases opens⟩
  cases derives with
  | lastArgument argument => simpa using one [] argument
  | moreArguments argument _ => exact one _ argument

/-! ## Every phrase is read -/

theorem Derives.isRead {phrase : Phrase} (derives : Derives typedefs phrase lexemes) :
    phrase.IsRead typedefs lexemes := by
  induction derives with
  | single _ ih => exact .single ih
  | sequence span _ further notEmpty ih ihMore =>
    refine .sequence span ih ihMore notEmpty ?_
    exact further.startsParts.resolve_left fun none => notEmpty none.2
  | noParts => exact .noParts
  | part _ further ih ihMore => exact .part ih ihMore (further.startsParts.imp_left And.left)
  | value _ ih => exact .value ih
  | assign span _ isOperator _ ih ihRight => exact .assign span ih isOperator ihRight
  | noChoice _ ih => exact .noChoice ih
  | choice span _ _ _ ih ihThen ihElse => exact .choice span ih ihThen ihElse
  | operands isLevel _ further ih ihMore =>
    exact .operands isLevel ih ihMore further.startsOperators
  | noOperators => exact .noOperators
  | operator span isOperator _ further ih ihMore =>
    exact .operator span isOperator ih ihMore further.startsOperators
  | operand _ ih => exact .operand ih
  | noCast inner ih => exact .noCast ih inner.startsExpr
  | cast span names operand ih ihOperand =>
    exact .cast span ih names.startsTypeName ihOperand operand.startsExpr
  | anyOperand _ ih => exact .anyOperand ih
  | plainOperand inner ih => exact .plainOperand ih inner.startsExpr
  | compoundOperand span names list _ ih ihList ihMore =>
    exact .compoundOperand span ih names.startsTypeName ihList list.startsBraced ihMore
  | noPrefix inner ih => exact .noPrefix ih inner.startsExpr
  | prefixed span isOperator _ ih => exact .prefixed span isOperator ih
  | sizeofExpr span operand ih => exact .sizeofExpr span ih operand.startsExpr
  | sizeofType span names ih => exact .sizeofType span ih names.startsTypeName
  | suffixed _ further ih ihMore => exact .suffixed ih ihMore further.startsSuffixes
  | noSuffixes => exact .noSuffixes
  | index span _ _ ih ihMore => exact .index span ih ihMore
  | callNone span _ ih => exact .callNone span ih
  | call span inner _ ih ihMore => exact .call span ih inner.startsArguments ihMore
  | member span _ ih => exact .member span ih
  | counted span isOperator _ ih => exact .counted span isOperator ih
  | plainArgument value ih => exact .plainArgument ih value.startsExpr
  | typeArgument span names ih => exact .typeArgument span ih names.startsTypeName
  | lastArgument _ ih => exact .lastArgument ih
  | moreArguments _ _ ih ihMore => exact .moreArguments ih ihMore
  | intLiteral span spelling => exact .intLiteral span spelling
  | floatLiteral span spelling => exact .floatLiteral span spelling
  | charLiteral span spelling => exact .charLiteral span spelling
  | stringLiteral span notEmpty => exact .stringLiteral span notEmpty
  | identifier span _ => exact .identifier span
  | parenthesized _ ih => exact .parenthesized ih
  | plainInitializer span value ih => exact .plainInitializer span ih value.startsExpr
  | bracedInitializer _ ih => exact .bracedInitializer ih
  | braced span _ ih => exact .braced span ih
  | plainEntry value ih => exact .plainEntry ih value.startsInitializer
  | designated span designators notEmpty _ ih ihValue =>
    exact .designated span ih notEmpty (designators.startsDesignators notEmpty) ihValue
  | noEntries => exact .noEntries
  | lastEntry _ ih => exact .lastEntry ih
  | moreEntries _ _ ih ihMore => exact .moreEntries ih ihMore
  | noDesignators => exact .noDesignators
  | indexDesignator _ _ ih ihMore => exact .indexDesignator ih ihMore
  | memberDesignator name _ ih => exact .memberDesignator name ih
  | typeName given noStorage _ declared ih ihMore =>
    exact .typeName ih noStorage ihMore declared.startsDeclarator
  | specifiers _ hasType some ih => exact .specifiers ih hasType some
  | noWords => exact .noWords
  | word notBodied adds fits _ ih => exact .word notBodied adds fits ih
  | typedefName noType isType _ ih => exact .typedefName noType isType ih
  | bodiedWord isBodied noType _ further ih ihMore =>
    exact .bodiedWord isBodied noType ih ihMore (further.startsWords.imp_left And.left)
  | recordTag kind tag => exact .recordTag kind tag
  | enumerationTag tag => exact .enumerationTag tag
  | recordBody kind tag _ ih => exact .recordBody kind tag ih
  | enumerationBody tag _ ih => exact .enumerationBody tag ih
  | noFields => exact .noFields
  | bareField given _ ih ihMore => exact .bareField ih given.startsSpecifiers ihMore
  | @field given declared fields lexemes more others first second some _ ih ihMore ihRest =>
    have read := Phrase.IsRead.declaredField none ih first.startsSpecifiers ihMore
      (fun none => absurd none some) second.opensHead ⟨rfl, some⟩ ihRest
    rwa [List.append_nil] at read
  | wideField first second _ _ ih ihMore ihWide ihRest =>
    have read := Phrase.IsRead.declaredField (some _) ih first.startsSpecifiers ihMore
      (fun none => (none ▸ second).declarator_nil) second.opensHead ⟨_, rfl, ihWide⟩ ihRest
    rwa [List.append_assoc] at read
  | plainEnumerator name => exact .plainEnumerator name
  | valuedEnumerator name _ ih => exact .valuedEnumerator name ih
  | noEnumerators => exact .noEnumerators
  | lastEnumerator _ ih => exact .lastEnumerator ih
  | moreEnumerators _ _ ih ihMore => exact .moreEnumerators ih ihMore
  | declarator _ core layers ih ihCore ihLayers =>
    exact .declarator ih ihCore ihLayers (core.startsCore layers) layers.startsLayers
  | noPointers => exact .noPointers
  | pointer adds further ih => exact .pointer adds ih further.startsPointers
  | noName => exact .noName
  | name name => exact .name name
  | nested _ ih => exact .nested ih
  | noLayers => exact .noLayers
  | array _ _ ih ihMore => exact .array ih ihMore
  | functionNone _ ih => exact .functionNone ih
  | function inner _ ih ihMore => exact .function ih inner.startsParameters ihMore
  | noSize => exact .noSize
  | someSize value ih => exact .someSize ih value.startsExpr
  | parameter span given declared ih ihMore =>
    exact .parameter span ih ihMore given.startsSpecifiers declared.startsDeclarator
  | ellipsis => exact .ellipsis
  | lastParameter _ ih => exact .lastParameter ih
  | moreParameters _ _ ih ihMore => exact .moreParameters ih ihMore

end InlineMacro.Parser
