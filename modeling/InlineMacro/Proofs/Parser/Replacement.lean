import InlineMacro.Proofs.Parser.BuiltStatements
import InlineMacro.Proofs.Parser.Legible
import InlineMacro.Proofs.Parser.Recognition
import InlineMacro.Proofs.Syntax.Words

/-!
# Values in the places of names

What lexemes are read as when other lexemes take the places of names that are values in them: the same
phrase with the trees of these in the places of the names. A tree that has been read as an operand takes
the place of any name, for it can be put in parentheses, and the address of a name takes the place of one
with no suffix behind it. A name that is no value, of a type or a label or a member, stays as it is.
-/

set_option autoImplicit false

namespace InlineMacro

open InlineMacro.Parser (Derives Derivation Declarator Place Phrase Specifiers SpecifierWords)

/-- What takes the place of a name that is a value: a tree, and the lexemes that are read as it. -/
abbrev Replacement := String → Option (Expr × List Lexeme)

def Expr.isAddress : Expr → Bool
  | .unary _ .addressOf operand => operand.identifier?.isSome
  | _ => false

/-! ## Lexemes and trees -/

def Lexeme.replace (put : Replacement) : Lexeme → List Lexeme
  | .identifier name => (put name).elim [.identifier name] Prod.snd
  | kind => [kind]

mutual

def CType.replace (put : Replacement) : CType → CType
  | .pointer qualifiers target => .pointer qualifiers (target.replace put)
  | .array element none => .array (element.replace put) none
  | .array element (some size) => .array (element.replace put) (some (size.replace put))
  | .function result parameters isVariadic =>
    .function (result.replace put) (Parameter.listReplace put parameters) isVariadic
  | .record kind tag (some fields) => .record kind tag (some (Field.listReplace put fields))
  | .enumeration tag (some constants) => .enumeration tag (some (Enumerator.listReplace put constants))
  | .qualified qualifiers inner => .qualified qualifiers (inner.replace put)
  | type => type

def Parameter.listReplace (put : Replacement) : List Parameter → List Parameter
  | [] => []
  | ⟨name, type, span⟩ :: rest => ⟨name, type.replace put, span⟩ :: Parameter.listReplace put rest

def Field.listReplace (put : Replacement) : List Field → List Field
  | [] => []
  | ⟨name, type, none⟩ :: rest => ⟨name, type.replace put, none⟩ :: Field.listReplace put rest
  | ⟨name, type, some width⟩ :: rest =>
    ⟨name, type.replace put, some (width.replace put)⟩ :: Field.listReplace put rest

def Enumerator.listReplace (put : Replacement) : List Enumerator → List Enumerator
  | [] => []
  | ⟨name, none⟩ :: rest => ⟨name, none⟩ :: Enumerator.listReplace put rest
  | ⟨name, some value⟩ :: rest => ⟨name, some (value.replace put)⟩ :: Enumerator.listReplace put rest

def Expr.replace (put : Replacement) : Expr → Expr
  | .identifier span name => (put name).elim (.identifier span name) Prod.fst
  | .binary span operator left right => .binary span operator (left.replace put) (right.replace put)
  | .unary span operator operand => .unary span operator (operand.replace put)
  | .call span function arguments => .call span (function.replace put) (Expr.listReplace put arguments)
  | .member span object name throughPointer => .member span (object.replace put) name throughPointer
  | .conditional span condition thenValue elseValue =>
    .conditional span (condition.replace put) (thenValue.replace put) (elseValue.replace put)
  | .cast span target operand => .cast span (target.replace put) (operand.replace put)
  | .sizeofExpr span operand => .sizeofExpr span (operand.replace put)
  | .sizeofType span type => .sizeofType span (type.replace put)
  | .compoundLiteral span type initializer =>
    .compoundLiteral span (type.replace put) (initializer.replace put)
  | .comma span parts => .comma span (Expr.listReplace put parts)
  | .typeArgument span type => .typeArgument span (type.replace put)
  | literal => literal

def Expr.listReplace (put : Replacement) : List Expr → List Expr
  | [] => []
  | value :: values => value.replace put :: Expr.listReplace put values

def Initializer.replace (put : Replacement) : Initializer → Initializer
  | .expression span value => .expression span (value.replace put)
  | .list span items => .list span (Initializer.listReplace put items)
  | .designated span designators initializer =>
    .designated span (Designator.listReplace put designators) (initializer.replace put)

def Initializer.listReplace (put : Replacement) : List Initializer → List Initializer
  | [] => []
  | item :: items => item.replace put :: Initializer.listReplace put items

def Designator.listReplace (put : Replacement) : List Designator → List Designator
  | [] => []
  | .index index :: rest => .index (index.replace put) :: Designator.listReplace put rest
  | .member name :: rest => .member name :: Designator.listReplace put rest

end

variable (put : Replacement)

def Replacement.expand (lexemes : List Lexeme) : List Lexeme := lexemes.flatMap (Lexeme.replace put)

def Declaration.replace (declaration : Declaration) : Declaration :=
  { declaration with
    type := declaration.type.replace put
    initializer := declaration.initializer.map (Initializer.replace put) }

mutual

def Statement.replace : Statement → Statement
  | .expression span value => .expression span (value.replace put)
  | .block span statements => .block span (Statement.listReplace statements)
  | .declaration span declarations => .declaration span (declarations.map (Declaration.replace put))
  | .typeDefinition span type => .typeDefinition span (type.replace put)
  | .ifElse span condition thenBranch elseBranch =>
    .ifElse span (condition.replace put) thenBranch.replace (Statement.optionReplace elseBranch)
  | .whileLoop span condition body => .whileLoop span (condition.replace put) body.replace
  | .forLoop span init condition update body =>
    .forLoop span (Statement.optionReplace init) (condition.map (Expr.replace put))
      (update.map (Expr.replace put)) body.replace
  | .doWhile span body condition => .doWhile span body.replace (condition.replace put)
  | .switch span subject body => .switch span (subject.replace put) body.replace
  | .caseLabel span value statement => .caseLabel span (value.replace put) statement.replace
  | .defaultLabel span statement => .defaultLabel span statement.replace
  | .returnStatement span value => .returnStatement span (value.map (Expr.replace put))
  | .labelled span label statement => .labelled span label statement.replace
  | statement => statement

def Statement.listReplace : List Statement → List Statement
  | [] => []
  | statement :: statements => statement.replace :: Statement.listReplace statements

def Statement.optionReplace : Option Statement → Option Statement
  | none => none
  | some statement => some statement.replace

end


/-! ## Where a replacement is allowed -/

/-- Nothing takes the place of a word that is no value or that tells what stands behind it. -/
def Word.Stays (put : Replacement) : Word → Prop
  | value name => Parser.typeArgumentFunctions.contains name → put name = none
  | label name | designated name | other name => put name = none

/-- What stands in front of a suffix. -/
def Node.operand? : Node → Option Expr
  | .expression (.binary _ .index operand _) | .expression (.call _ operand _)
  | .expression (.member _ operand _ _) => some operand
  | .expression (.unary _ operator operand) => if operator.followsOperand then some operand else none
  | _ => none

def Expr.isLoose (put : Replacement) : Expr → Bool
  | .identifier _ name => (put name).any fun argument => argument.1.isAddress
  | _ => false

/-- A place for what has become of a tree, which may be the address of a name. -/
def Parser.Place.loosened : Place → Bool → Place
  | operand, isLoose => if isLoose then unary else operand
  | suffixed, isLoose => if isLoose then unary else suffixed
  | primary, isLoose => if isLoose then unary else primary
  | place, _ => place

structure Replacement.Fits (put : Replacement) (types : List String) : Prop where
  reads : ∀ name argument, put name = some argument →
    Derives types (.expr (Place.loosened .primary argument.1.isAddress) argument.1) argument.2

structure Node.Allows (put : Replacement) (node : Node) : Prop where
  fixed : ∀ word ∈ node.words, word.Stays put
  operand : ∀ value ∈ node.operand?, value.isLoose put = false
  declared : ∀ declaration, node = .declaration declaration →
    ∀ types, put.Fits types → put.Fits (declaration.typesBehind types)

def Node.AllAllow (put : Replacement) (nodes : List Node) : Prop := ∀ node ∈ nodes, node.Allows put

namespace Parser

variable {put : Replacement} {types : List String} {lexemes more : List Lexeme}

/-! ## Phrases -/

def Derivation.replace (put : Replacement) : Derivation → Derivation
  | pointer qualifiers => pointer qualifiers
  | array size => array (size.map (Expr.replace put))
  | function parameters isVariadic => function (Parameter.listReplace put parameters) isVariadic

def Derivation.Allows (put : Replacement) : Derivation → Prop
  | pointer _ => True
  | array size => Node.AllAllow put (optionalNodes Expr.nodes size)
  | function parameters _ => (∀ parameter ∈ parameters, ∀ name ∈ parameter.name, put name = none) ∧
      Node.AllAllow put (Parameter.listNodes parameters)

def Declarator.replace (put : Replacement) (declared : Declarator) : Declarator :=
  ⟨declared.name, declared.derivations.map (Derivation.replace put)⟩

def Declarator.Allows (put : Replacement) (declared : Declarator) : Prop :=
  (∀ name ∈ declared.name, put name = none) ∧ ∀ layer ∈ declared.derivations, layer.Allows put

def Specifiers.replace (put : Replacement) (given : Specifiers) : Specifiers :=
  { given with base := given.base.replace put }

def SpecifierWords.replace (put : Replacement) : SpecifierWords → SpecifierWords :=
  mapNamed (CType.replace put)

def Phrase.replace (put : Replacement) : Phrase → Phrase
  | expr place tree => expr (place.loosened (tree.isLoose put)) (tree.replace put)
  | parts trees => parts (Expr.listReplace put trees)
  | operators level left tree => operators level (left.replace put) (tree.replace put)
  | suffixes operand tree => suffixes (operand.replace put) (tree.replace put)
  | argument typesAllowed tree => argument typesAllowed (tree.replace put)
  | arguments typesAllowed trees => arguments typesAllowed (Expr.listReplace put trees)
  | initializer tree => initializer (tree.replace put)
  | braced tree => braced (tree.replace put)
  | entry tree => entry (tree.replace put)
  | entries trees => entries (Initializer.listReplace put trees)
  | designators list => designators (Designator.listReplace put list)
  | typeName type => typeName (type.replace put)
  | specifiers given => specifiers (given.replace put)
  | words read result => words (read.replace put) (result.replace put)
  | bodied kind type => bodied kind (type.replace put)
  | fields list => fields (Field.listReplace put list)
  | enumerator constant => enumerator ⟨constant.name, constant.value.map (Expr.replace put)⟩
  | enumerators constants => enumerators (Enumerator.listReplace put constants)
  | declarator declared => declarator (declared.replace put)
  | pointers list => pointers (list.map (Derivation.replace put))
  | core declared => core (declared.replace put)
  | layers list => layers (list.map (Derivation.replace put))
  | .size given => .size (given.map (Expr.replace put))
  | parameter given => parameter ⟨given.name, given.type.replace put, given.span⟩
  | parameters list isVariadic => parameters (Parameter.listReplace put list) isVariadic

def Phrase.Allows (put : Replacement) : Phrase → Prop
  | expr _ tree | operators _ _ tree | suffixes _ tree | argument _ tree => Node.AllAllow put tree.nodes
  | parts trees | arguments _ trees => Node.AllAllow put (Expr.listNodes trees)
  | initializer tree | braced tree | entry tree => Node.AllAllow put tree.nodes
  | entries trees => Node.AllAllow put (Initializer.listNodes trees)
  | designators list => (∀ name, .member name ∈ list → put name = none) ∧
      Node.AllAllow put (Designator.listNodes list)
  | typeName type | bodied _ type => Node.AllAllow put type.nodes
  | specifiers given => Node.AllAllow put given.base.nodes
  | words _ result => ∀ type ∈ result.named, Node.AllAllow put type.nodes
  | fields list => (∀ field ∈ list, ∀ name ∈ field.name, put name = none) ∧
      Node.AllAllow put (Field.listNodes list)
  | enumerator constant => put constant.name = none ∧
      Node.AllAllow put (optionalNodes Expr.nodes constant.value)
  | enumerators constants => (∀ constant ∈ constants, put constant.name = none) ∧
      Node.AllAllow put (Enumerator.listNodes constants)
  | declarator declared | core declared => declared.Allows put
  | pointers list | layers list => ∀ layer ∈ list, layer.Allows put
  | .size given => Node.AllAllow put (optionalNodes Expr.nodes given)
  | parameter given => (∀ name ∈ given.name, put name = none) ∧ Node.AllAllow put given.type.nodes
  | parameters list _ => (∀ parameter ∈ list, ∀ name ∈ parameter.name, put name = none) ∧
      Node.AllAllow put (Parameter.listNodes list)

end Parser

/-! ## Lemmas -/

namespace Replacement

variable (put : Replacement)

@[simp] theorem expand_nil : put.expand [] = [] := rfl

@[simp] theorem expand_append (lexemes more : List Lexeme) :
    put.expand (lexemes ++ more) = put.expand lexemes ++ put.expand more := List.flatMap_append

@[simp] theorem expand_mark (sign : Mark) (lexemes : List Lexeme) :
    put.expand (.mark sign :: lexemes) = .mark sign :: put.expand lexemes := rfl

@[simp] theorem expand_keyword (word : Keyword) (lexemes : List Lexeme) :
    put.expand (.keyword word :: lexemes) = .keyword word :: put.expand lexemes := rfl

theorem expand_identifier {name : String} (fixed : put name = none) (lexemes : List Lexeme) :
    put.expand (.identifier name :: lexemes) = .identifier name :: put.expand lexemes := by
  simp [expand, Lexeme.replace, fixed]

theorem expand_map {α : Type} {spell : α → Lexeme} {values : List α}
    (kept : ∀ value ∈ values, (spell value).replace put = [spell value]) :
    put.expand (values.map spell) = values.map spell := by
  induction values with
  | nil => rfl
  | cons value values ih =>
    obtain ⟨first, others⟩ := List.forall_mem_cons.mp kept
    have tail := ih others
    simp_all [expand]

theorem expand_tag {tag : Option String} (fixed : ∀ name ∈ tag.toList, put name = none) :
    put.expand (tag.toList.map .identifier) = tag.toList.map .identifier :=
  put.expand_map fun name member => by rw [Lexeme.replace, fixed name member]; rfl

end Replacement

theorem Node.allAllow_cons {put : Replacement} {node : Node} {nodes : List Node} :
    AllAllow put (node :: nodes) ↔ node.Allows put ∧ AllAllow put nodes := List.forall_mem_cons

theorem Node.allAllow_append {put : Replacement} {nodes others : List Node} :
    AllAllow put (nodes ++ others) ↔ AllAllow put nodes ∧ AllAllow put others := List.forall_mem_append

theorem Node.AllAllow.sub {put : Replacement} {nodes others : List Node} (allow : AllAllow put nodes)
    (sub : others ⊆ nodes) : AllAllow put others := fun node member => allow node (sub member)

namespace Parser

variable {put : Replacement} {types : List String} {lexemes more : List Lexeme}

theorem Derivation.replace_foldl (base : CType) (layers : List Derivation) :
    (layers.foldl Derivation.apply base).replace put =
      (layers.map (Derivation.replace put)).foldl Derivation.apply (base.replace put) := by
  rw [List.foldl_map]
  refine (List.foldl_hom (CType.replace put) fun base layer => ?_).symm
  cases layer with
  | array size => cases size <;> rfl
  | _ => rfl

theorem Declarator.replace_typeFrom (declared : Declarator) (base : CType) :
    (declared.typeFrom base).replace put = (declared.replace put).typeFrom (base.replace put) :=
  Derivation.replace_foldl base declared.derivations

theorem Derivation.allAllow_foldl {base : CType} {layers : List Derivation} :
    Node.AllAllow put (layers.foldl Derivation.apply base).nodes →
      Node.AllAllow put base.nodes ∧ ∀ layer ∈ layers, layer.Allows put := by
  induction layers generalizing base with
  | nil => exact fun allow => ⟨allow, by simp⟩
  | cons layer layers ih =>
    intro allow
    obtain ⟨first, others⟩ := ih allow
    rw [List.forall_mem_cons]
    cases layer with
    | pointer => exact ⟨(Node.allAllow_cons.mp first).2, trivial, others⟩
    | array size =>
      cases size with
      | none => exact ⟨(Node.allAllow_cons.mp first).2, by simp [Allows, optionalNodes, Node.AllAllow], others⟩
      | some size =>
        obtain ⟨-, both⟩ := Node.allAllow_cons.mp first
        obtain ⟨element, sized⟩ := Node.allAllow_append.mp both
        exact ⟨element, sized, others⟩
    | function parameters =>
      obtain ⟨own, both⟩ := Node.allAllow_cons.mp first
      obtain ⟨result, listed⟩ := Node.allAllow_append.mp both
      refine ⟨result, ⟨fun parameter member name named => own.fixed (.other name) ?_, listed⟩, others⟩
      exact List.mem_map_of_mem (List.mem_filterMap.mpr ⟨parameter, member, named⟩)

theorem SpecifierWords.allows_of_base {read result : SpecifierWords} (allow : Node.AllAllow put result.base.nodes) :
    (Phrase.words read result).Allows put := by
  intro type named
  unfold base at allow
  rw [Option.mem_def.mp named] at allow
  dsimp only [Option.getD_some] at allow
  split at allow
  · exact allow
  · exact (Node.allAllow_cons.mp allow).2

theorem SpecifierWords.base_replace (read : SpecifierWords) : (read.replace put).base = read.base.replace put :=
  read.base_mapNamed (fun _ => rfl) fun _ _ => rfl

theorem Derives.named_of_words {read result : SpecifierWords} {type : CType}
    (derives : Derives types (.words read result) lexemes) (named : read.named = some type) :
    result.named = some type := by
  generalize same : Phrase.words read result = phrase at derives
  induction derives generalizing read with
  | noWords => cases same; exact named
  | word _ adds _ _ ih =>
    cases same
    exact ih ((SpecifierWords.addKeyword?_named adds).trans named) rfl
  | typedefName noType | bodiedWord _ noType =>
    cases same
    simp [SpecifierWords.hasType, named] at noType
  | _ => cases same

theorem Derives.subset_of_operators {level : Nat} {left tree : Expr}
    (derives : Derives types (.operators level left tree) lexemes) : left.nodes ⊆ tree.nodes := by
  generalize same : Phrase.operators level left tree = phrase at derives
  induction derives generalizing left with
  | noOperators => cases same; exact List.Subset.refl _
  | operator _ _ _ _ _ ih =>
    cases same
    refine List.Subset.trans ?_ (ih rfl)
    simp [Expr.nodes]
  | _ => cases same

theorem Derives.holds_of_suffixes {operand tree : Expr}
    (derives : Derives types (.suffixes operand tree) lexemes) :
    operand.nodes ⊆ tree.nodes ∧ (operand.identifier? = none → tree.identifier? = none) := by
  generalize same : Phrase.suffixes operand tree = phrase at derives
  induction derives generalizing operand with
  | noSuffixes => cases same; exact ⟨List.Subset.refl _, id⟩
  | index _ _ _ _ ih | callNone _ _ ih | call _ _ _ _ ih | member _ _ ih | counted _ _ _ ih =>
    cases same
    refine ⟨List.Subset.trans ?_ (ih rfl).1, fun _ => (ih rfl).2 rfl⟩
    simp [Expr.nodes]
  | _ => cases same

theorem followsOperand_of_countingOperator? {sign : Mark} {operator : UnaryOperator}
    (isOperator : countingOperator? sign = some operator) : operator.followsOperand := by
  cases sign <;> cases isOperator <;> rfl

theorem Derives.cases_of_suffixes {operand tree : Expr}
    (derives : Derives types (.suffixes operand tree) lexemes) :
    tree = operand ∧ lexemes = [] ∨
      (∃ node ∈ tree.nodes, node.operand? = some operand) ∧ tree.identifier? = none := by
  cases derives with
  | noSuffixes => exact .inl ⟨rfl, rfl⟩
  | index _ _ further | callNone _ further | call _ _ further | member _ further =>
    obtain ⟨sub, noName⟩ := further.holds_of_suffixes
    exact .inr ⟨⟨_, sub (List.mem_cons_self ..), rfl⟩, noName rfl⟩
  | counted _ isOperator further =>
    obtain ⟨sub, noName⟩ := further.holds_of_suffixes
    refine .inr ⟨⟨_, sub (List.mem_cons_self ..), ?_⟩, noName rfl⟩
    exact if_pos (followsOperand_of_countingOperator? isOperator)

theorem Expr.isLoose_eq_false {tree : Expr} (none : tree.identifier? = none) : tree.isLoose put = false := by
  cases tree <;> first | rfl | cases none

theorem Derives.arguments_mono {typesAllowed allowed : Bool} {trees : List Expr}
    (derives : Derives types (.arguments typesAllowed trees) lexemes) (more : typesAllowed → allowed) :
    Derives types (.arguments allowed trees) lexemes := by
  have one {tree : Expr} {lexemes : List Lexeme} (derives : Derives types (.argument typesAllowed tree) lexemes) :
      Derives types (.argument allowed tree) lexemes := by
    cases derives with
    | plainArgument value => exact .plainArgument value
    | typeArgument span type =>
      rw [more rfl]
      exact .typeArgument span type
  generalize same : Phrase.arguments typesAllowed trees = phrase at derives
  induction derives generalizing trees with
  | lastArgument argument => cases same; exact .lastArgument (one argument)
  | moreArguments argument _ _ ih => cases same; exact .moreArguments (one argument) (ih rfl)
  | _ => cases same

theorem takesTypes_replace {operand : Expr} (allow : Node.AllAllow put operand.nodes)
    (takes : takesTypes operand) : takesTypes (operand.replace put) := by
  cases operand with
  | identifier span name =>
    have fixed : put name = none :=
      (Node.allAllow_cons.mp allow).1.fixed (.value name) (List.mem_singleton_self _) takes
    rw [Expr.replace, fixed]
    exact takes
  | _ => cases takes

theorem Derives.expand_ne_nil (fits : put.Fits types) (some : lexemes ≠ []) : put.expand lexemes ≠ [] := by
  obtain ⟨kind, lexemes, rfl⟩ := List.exists_cons_of_ne_nil some
  refine List.append_ne_nil_of_left_ne_nil ?_ _
  cases kind with
  | identifier name =>
    rw [Lexeme.replace]
    cases found : put name with
    | none => exact List.cons_ne_nil _ _
    | some argument =>
      obtain ⟨first, others, whole, -⟩ := (fits.reads name argument found).startsExpr
      change argument.2 ≠ []
      rw [whole]
      exact List.cons_ne_nil _ _
  | _ => exact List.cons_ne_nil _ _

theorem Derives.head?_expand {read result : SpecifierWords}
    (derives : Derives types (.words read result) lexemes) (allow : (Phrase.words read result).Allows put) :
    (put.expand lexemes).head? = lexemes.head? := by
  cases derives with
  | noWords | word | bodiedWord => rfl
  | typedefName _ _ further =>
    have own := (Node.allAllow_cons.mp (allow _ (further.named_of_words rfl))).1
    rw [put.expand_identifier (own.fixed (.other _) (List.mem_singleton_self _))]
    rfl

theorem Derives.replace {phrase : Phrase} (derives : Derives types phrase lexemes) (fits : put.Fits types)
    (allow : phrase.Allows put) : Derives types (phrase.replace put) (put.expand lexemes) := by
  induction derives with
    (try simp only [Phrase.Allows, Expr.nodes, Expr.listNodes, Initializer.nodes, Initializer.listNodes,
      Designator.listNodes, CType.nodes, Field.listNodes, Enumerator.listNodes, Parameter.listNodes,
      Node.allAllow_cons, Node.allAllow_append, List.forall_mem_cons] at allow
     try simp only [Replacement.expand_append, Replacement.expand_mark, Replacement.expand_keyword,
      Replacement.expand_nil])
  | single _ ih => exact .single (ih allow)
  | @sequence _ others _ _ span _ _ some ih ihOthers =>
    refine .sequence span (ih allow.2.1) (ihOthers allow.2.2) ?_
    cases others with
    | nil => exact absurd rfl some
    | cons => exact List.cons_ne_nil _ _
  | noParts => exact .noParts
  | part _ _ ih ihOthers => exact .part (ih allow.1) (ihOthers allow.2)
  | value _ ih => exact .value (ih allow)
  | assign span _ isOperator _ ih ihRight => exact .assign span (ih allow.2.1) isOperator (ihRight allow.2.2)
  | noChoice _ ih => exact .noChoice (ih allow)
  | choice span _ _ _ ih ihThen ihElse =>
    exact .choice span (ih allow.2.1.1) (ihThen allow.2.1.2) (ihElse allow.2.2)
  | operands isLevel _ further ih ihMore =>
    exact .operands isLevel (ih (allow.sub further.subset_of_operators)) (ihMore allow)
  | noOperators => exact .noOperators
  | operator span isOperator _ further ih ihMore =>
    have here := allow.sub further.subset_of_operators
    simp only [Expr.nodes, Node.allAllow_cons, Node.allAllow_append] at here
    exact .operator span isOperator (ih here.2.2) (ihMore allow)
  | operand _ ih => exact .operand (ih allow)
  | noCast _ ih => exact .noCast (ih allow)
  | cast span _ _ ih ihOperand => exact .cast span (ih allow.2.1) (ihOperand allow.2.2)
  | @anyOperand tree _ _ ih =>
    have inner := ih allow
    dsimp only [Phrase.replace] at inner ⊢
    generalize tree.isLoose put = isLoose at inner
    cases isLoose with
    | true => exact .noCast inner
    | false => exact .anyOperand inner
  | @plainOperand tree _ _ ih =>
    have inner := ih allow
    dsimp only [Phrase.replace] at inner ⊢
    generalize tree.isLoose put = isLoose at inner ⊢
    cases isLoose with
    | true => exact inner
    | false => exact .plainOperand inner
  | compoundOperand span _ _ further ih ihValue ihMore =>
    have here := allow.sub further.holds_of_suffixes.1
    simp only [Expr.nodes, Node.allAllow_cons, Node.allAllow_append] at here
    have whole := Derives.compoundOperand span (ih here.2.1) (ihValue here.2.2) (ihMore allow)
    dsimp only [Phrase.replace, Place.loosened]
    rwa [Expr.isLoose_eq_false (further.holds_of_suffixes.2 rfl)]
  | @noPrefix tree _ _ ih =>
    have inner := ih allow
    dsimp only [Phrase.replace] at inner ⊢
    generalize tree.isLoose put = isLoose at inner
    cases isLoose with
    | true => exact inner
    | false => exact .noPrefix inner
  | @prefixed _ _ operator _ span isOperator _ ih =>
    refine .prefixed span isOperator ?_
    have inner := ih allow.2
    cases takes : takesUnaryOperand operator <;> rw [takes] at inner <;> exact inner
  | sizeofExpr span _ ih => exact .sizeofExpr span (ih allow.2)
  | sizeofType span _ ih => exact .sizeofType span (ih allow.2)
  | @suffixed _ tree _ _ _ further ih ihMore =>
    have inner := ih (allow.sub further.holds_of_suffixes.1)
    have behind := ihMore allow
    dsimp only [Phrase.replace] at inner ⊢
    obtain ⟨rfl, rfl⟩ | ⟨⟨node, member, isOperand⟩, noName⟩ := further.cases_of_suffixes
    · generalize tree.isLoose put = isLoose at inner ⊢
      cases isLoose with
      | true => rwa [Replacement.expand_nil, List.append_nil]
      | false => exact .suffixed inner behind
    · rw [(allow node member).operand _ isOperand] at inner
      rw [Expr.isLoose_eq_false noName]
      exact .suffixed inner behind
  | noSuffixes => exact .noSuffixes
  | index span _ further ih ihMore =>
    have here := allow.sub further.holds_of_suffixes.1
    simp only [Expr.nodes, Node.allAllow_cons, Node.allAllow_append] at here
    exact .index span (ih here.2.2) (ihMore allow)
  | callNone span _ ih => exact .callNone span (ih allow)
  | call span _ further ih ihMore =>
    have here := allow.sub further.holds_of_suffixes.1
    simp only [Expr.nodes, Node.allAllow_cons, Node.allAllow_append] at here
    exact .call span ((ih here.2.2).arguments_mono (takesTypes_replace here.2.1)) (ihMore allow)
  | member span further ih =>
    have here := allow.sub further.holds_of_suffixes.1
    simp only [Expr.nodes, Node.allAllow_cons] at here
    rw [put.expand_identifier (here.1.fixed (.other _) (List.mem_singleton_self _))]
    exact .member span (ih allow)
  | counted span isOperator _ ih => exact .counted span isOperator (ih allow)
  | plainArgument _ ih => exact .plainArgument (ih allow)
  | typeArgument span _ ih => exact .typeArgument span (ih allow.2)
  | lastArgument _ ih => exact .lastArgument (ih allow.1)
  | moreArguments _ _ ih ihMore => exact .moreArguments (ih allow.1) (ihMore allow.2)
  | intLiteral span spelling => exact .intLiteral span spelling
  | floatLiteral span spelling => exact .floatLiteral span spelling
  | charLiteral span spelling => exact .charLiteral span spelling
  | stringLiteral span some =>
    rw [put.expand_map fun _ _ => rfl]
    exact .stringLiteral span some
  | @identifier name span notType =>
    dsimp only [Phrase.replace, Expr.isLoose, Expr.replace]
    rw [Replacement.expand, List.flatMap_singleton, Lexeme.replace]
    cases found : put name with
    | none => exact .identifier span notType
    | some argument => exact fits.reads name argument found
  | @parenthesized tree _ _ ih =>
    have inner := Derives.parenthesized (ih allow)
    dsimp only [Phrase.replace] at inner ⊢
    generalize tree.isLoose put = isLoose
    cases isLoose with
    | true => exact .noPrefix inner.primary_suffixed
    | false => exact inner
  | plainInitializer span _ ih => exact .plainInitializer span (ih allow.2)
  | bracedInitializer _ ih => exact .bracedInitializer (ih allow)
  | braced span _ ih => exact .braced span (ih allow.2)
  | plainEntry _ ih => exact .plainEntry (ih allow)
  | @designated designators _ _ _ span _ some _ ih ihValue =>
    refine .designated span (ih ⟨fun name member => ?_, allow.2.1⟩) ?_ (ihValue allow.2.2)
    · exact allow.1.fixed (.designated name) (List.mem_map_of_mem (List.mem_filterMap.mpr ⟨_, member, rfl⟩))
    · cases designators with
      | nil => exact absurd rfl some
      | cons designator => cases designator <;> exact List.cons_ne_nil _ _
  | noEntries => exact .noEntries
  | lastEntry _ ih => exact .lastEntry (ih allow.1)
  | moreEntries _ _ ih ihMore => exact .moreEntries (ih allow.1) (ihMore allow.2)
  | noDesignators => exact .noDesignators
  | indexDesignator _ _ ih ihMore =>
    exact .indexDesignator (ih allow.2.1) (ihMore ⟨fun name member => allow.1 name (.tail _ member), allow.2.2⟩)
  | memberDesignator name _ ih =>
    rw [put.expand_identifier (allow.1 name (.head _))]
    exact .memberDesignator name (ih ⟨fun name member => allow.1 name (.tail _ member), allow.2⟩)
  | typeName given noStorage opens _ ih ihMore =>
    obtain ⟨base, layers⟩ := Derivation.allAllow_foldl allow
    have whole := Derives.typeName (ih base) noStorage ?_ (ihMore ⟨by simp, layers⟩)
    · dsimp only [Phrase.replace]
      rwa [Derivation.replace_foldl]
    · cases given with
      | specifiers words => rwa [words.head?_expand (SpecifierWords.allows_of_base base)]
  | specifiers _ hasType some ih =>
    have inner := ih (SpecifierWords.allows_of_base allow)
    dsimp only [Phrase.replace, Specifiers.replace]
    rw [← SpecifierWords.base_replace]
    exact .specifiers inner ((SpecifierWords.hasType_mapNamed _).trans hasType) some
  | noWords => exact .noWords
  | @word read next _ word _ notBodied adds fits _ ih =>
    have replaced : (read.replace put).addKeyword? word = some (next.replace put) := by
      rw [SpecifierWords.replace, SpecifierWords.addKeyword?_mapNamed, adds]
      rfl
    exact .word notBodied replaced fits (ih allow)
  | typedefName noType member further ih =>
    have own := (Node.allAllow_cons.mp (allow _ (further.named_of_words rfl))).1
    rw [put.expand_identifier (own.fixed (.other _) (List.mem_singleton_self _))]
    exact .typedefName ((SpecifierWords.hasType_mapNamed _).trans noType) member (ih allow)
  | bodiedWord isBodied noType _ further ih ihMore =>
    exact .bodiedWord isBodied ((SpecifierWords.hasType_mapNamed _).trans noType)
      (ih (allow _ (further.named_of_words rfl))) (ihMore allow)
  | recordTag kind tag =>
    rw [put.expand_identifier (allow.1.fixed (.other tag) (.head _))]
    exact .recordTag kind tag
  | enumerationTag tag =>
    rw [put.expand_identifier (allow.1.fixed (.other tag) (.head _))]
    exact .enumerationTag tag
  | recordBody kind tag _ ih =>
    obtain ⟨own, nodes⟩ := allow
    rw [put.expand_tag fun name member => own.fixed (.other name) (List.mem_map_of_mem (List.mem_append_left _ member))]
    refine .recordBody kind tag (ih ⟨fun field member name named => own.fixed (.other name) ?_, nodes⟩)
    exact List.mem_map_of_mem (List.mem_append_right _ (List.mem_filterMap.mpr ⟨field, member, named⟩))
  | enumerationBody tag _ ih =>
    obtain ⟨own, nodes⟩ := allow
    rw [put.expand_tag fun name member => own.fixed (.other name) (List.mem_map_of_mem (List.mem_append_left _ member))]
    refine .enumerationBody tag (ih ⟨fun constant member => own.fixed (.other _) ?_, nodes⟩)
    exact List.mem_map_of_mem (List.mem_append_right _ (List.mem_map_of_mem member))
  | noFields => exact .noFields
  | bareField _ _ ih ihMore => exact .bareField (ih allow.2.1) (ihMore ⟨allow.1.2, allow.2.2⟩)
  | @field _ declared _ _ _ _ _ _ some _ ih ihDeclared ihMore =>
    obtain ⟨⟨own, names⟩, typed, others⟩ := allow
    obtain ⟨base, layers⟩ := Derivation.allAllow_foldl typed
    have whole := Derives.field (ih base) (ihDeclared ⟨own, layers⟩) (expand_ne_nil fits some)
      (ihMore ⟨names, others⟩)
    rwa [Phrase.replace, Field.listReplace, Declarator.replace_typeFrom]
  | wideField _ _ _ _ ih ihDeclared ihWidth ihMore =>
    obtain ⟨⟨own, names⟩, ⟨typed, wide⟩, others⟩ := allow
    obtain ⟨base, layers⟩ := Derivation.allAllow_foldl typed
    have whole := Derives.wideField (ih base) (ihDeclared ⟨own, layers⟩) (ihWidth wide) (ihMore ⟨names, others⟩)
    rwa [Phrase.replace, Field.listReplace, Declarator.replace_typeFrom]
  | plainEnumerator name =>
    rw [put.expand_identifier allow.1]
    exact .plainEnumerator name
  | valuedEnumerator name _ ih =>
    rw [put.expand_identifier allow.1]
    exact .valuedEnumerator name (ih allow.2)
  | noEnumerators => exact .noEnumerators
  | @lastEnumerator constant _ _ ih =>
    obtain ⟨name, value⟩ := constant
    cases value with
    | none => exact .lastEnumerator (ih ⟨allow.1.1, allow.2⟩)
    | some => exact .lastEnumerator (ih ⟨allow.1.1, (Node.allAllow_append.mp allow.2).1⟩)
  | @moreEnumerators constant _ _ _ _ _ ih ihMore =>
    obtain ⟨name, value⟩ := constant
    cases value with
    | none => exact .moreEnumerators (ih ⟨allow.1.1, by simp [optionalNodes, Node.AllAllow]⟩) (ihMore ⟨allow.1.2, allow.2⟩)
    | some =>
      have parts := Node.allAllow_append.mp allow.2
      exact .moreEnumerators (ih ⟨allow.1.1, parts.1⟩) (ihMore ⟨allow.1.2, parts.2⟩)
  | declarator _ _ _ ih ihCore ihLayers =>
    obtain ⟨own, layers⟩ := allow
    simp only [List.forall_mem_append, List.mem_reverse] at layers
    rw [Phrase.replace, Declarator.replace, List.map_append, List.map_append, List.map_reverse]
    exact .declarator (ih layers.1.1) (ihCore ⟨own, layers.2⟩) (ihLayers layers.1.2)
  | noPointers => exact .noPointers
  | pointer isQualifiers _ ih =>
    rw [put.expand_map fun _ _ => rfl]
    exact .pointer isQualifiers (ih allow.2)
  | noName => exact .noName
  | name name =>
    rw [put.expand_identifier (allow.1 name rfl)]
    exact .name name
  | nested _ ih => exact .nested (ih allow)
  | noLayers => exact .noLayers
  | array _ _ ih ihMore => exact .array (ih allow.1) (ihMore allow.2)
  | functionNone _ ih => exact .functionNone (ih allow.2)
  | function _ _ ih ihMore => exact .function (ih allow.1) (ihMore allow.2)
  | noSize => exact .noSize
  | someSize _ ih => exact .someSize (ih allow)
  | parameter span _ _ ih ihDeclared =>
    obtain ⟨own, typed⟩ := allow
    obtain ⟨base, layers⟩ := Derivation.allAllow_foldl typed
    have whole := Derives.parameter span (ih base) (ihDeclared ⟨own, layers⟩)
    rwa [Phrase.replace, Declarator.replace_typeFrom]
  | ellipsis => exact .ellipsis
  | @lastParameter parameter _ _ ih =>
    obtain ⟨name, type, span⟩ := parameter
    exact .lastParameter (ih ⟨allow.1.1, (Node.allAllow_append.mp allow.2).1⟩)
  | @moreParameters parameter _ _ _ _ _ _ ih ihMore =>
    obtain ⟨name, type, span⟩ := parameter
    obtain ⟨typed, others⟩ := Node.allAllow_append.mp allow.2
    exact .moreParameters (ih ⟨allow.1.1, typed⟩) (ihMore ⟨allow.1.2, others⟩)

end Parser

end InlineMacro
