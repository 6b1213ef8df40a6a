import InlineMacro.Proofs.Parser.Reparsing
import InlineMacro.Proofs.Parser.Replacement
import InlineMacro.Proofs.Run.Arguments

/-!
# What an invocation of a macro is read as

Where a macro is invoked, the tokens of the arguments take the places of its parameters. What has been
read as statements is then read as these statements with the arguments in the places of the parameters,
for an argument stands in parentheses or nothing can tear it apart. The address of a name has none, and a
suffix behind it takes the name alone.
-/

set_option autoImplicit false

namespace InlineMacro

open Node (Within)
open InlineMacro.Parser (Derives Place Specifiers)

/-! ## Declarations and statements -/

theorem CType.replace_withoutBodies {put : Replacement} : ∀ type : CType,
    type.withoutBodies.replace put = (type.replace put).withoutBodies
  | .record _ (some _) none | .record _ (some _) (some _) | .record _ none none
  | .record _ none (some _) | .enumeration (some _) none | .enumeration (some _) (some _)
  | .enumeration none none | .enumeration none (some _) | .basic _ | .named _ => rfl
  | .pointer _ target => by simp only [withoutBodies, replace, target.replace_withoutBodies]
  | .array element none => by simp only [withoutBodies, replace, element.replace_withoutBodies]
  | .array element (some _) => by simp only [withoutBodies, replace, element.replace_withoutBodies]
  | .function result _ _ => by simp only [withoutBodies, replace, result.replace_withoutBodies]
  | .qualified _ inner => by simp only [withoutBodies, replace, inner.replace_withoutBodies]

namespace Parser

variable {put : Replacement} {types behind : List String} {lexemes : List Lexeme}

theorem GivesValue.replace {value : Option Initializer} (gives : GivesValue types value lexemes)
    (fits : put.Fits types) (allow : Node.AllAllow put (optionalNodes Initializer.nodes value)) :
    GivesValue types (value.map (Initializer.replace put)) (put.expand lexemes) := by
  cases gives with
  | absent => exact .absent
  | present value => exact .present (value.replace fits allow)

theorem Optionally.replace {value : Option Expr} (given : Optionally types value lexemes)
    (fits : put.Fits types) (allow : Node.AllAllow put (optionalNodes Expr.nodes value)) :
    Optionally types (value.map (Expr.replace put)) (put.expand lexemes) := by
  cases given with
  | absent => exact .absent
  | present value => exact .present (value.replace fits allow)

theorem Declares.replace {words : Specifiers} {base : CType} {declaration : Declaration}
    (declares : Declares words base types declaration lexemes) (fits : put.Fits types)
    (allow : Node.AllAllow put declaration.nodes) :
    Declares (words.replace put) (base.replace put) types (declaration.replace put) (put.expand lexemes) ∧
      put.Fits (declaration.typesBehind types) ∧ Node.AllAllow put base.nodes := by
  obtain ⟨own, parts⟩ := Node.allAllow_cons.mp allow
  obtain ⟨typed, valued⟩ := Node.allAllow_append.mp parts
  have behind := own.declared _ rfl types fits
  cases declares with
  | @intro declared _ _ derives named same storage isInline gives =>
    rw [← same] at typed
    obtain ⟨inside, layers⟩ := Derivation.allAllow_foldl typed
    refine ⟨?_, behind, inside⟩
    have outside : declared.Allows put := by
      refine ⟨fun name member => own.fixed (.other name) ?_, layers⟩
      rw [named] at member
      cases member
      exact List.mem_singleton_self _
    rw [Replacement.expand_append]
    refine .intro (derives.replace fits outside) named ?_ storage isInline (gives.replace behind valued)
    rw [← Declarator.replace_typeFrom, same]
    rfl

theorem DeclaresMore.replace {words : Specifiers} {base : CType} {declarations : List Declaration}
    (declares : DeclaresMore words base types declarations lexemes behind) (fits : put.Fits types)
    (allow : Node.AllAllow put (declarations.flatMap Declaration.nodes)) :
    DeclaresMore (words.replace put) (base.replace put) types (declarations.map (Declaration.replace put))
      (put.expand lexemes) behind ∧ put.Fits behind := by
  induction declares with
  | nil types => exact ⟨.nil types, fits⟩
  | cons first _ ih =>
    obtain ⟨own, others⟩ := Node.allAllow_append.mp allow
    obtain ⟨declares, fits, -⟩ := first.replace fits own
    obtain ⟨more, fits⟩ := ih fits others
    rw [Replacement.expand_mark, Replacement.expand_append]
    exact ⟨.cons declares more, fits⟩

theorem DeclaresAll.replace {declarations : List Declaration}
    (declares : DeclaresAll types declarations lexemes behind) (fits : put.Fits types)
    (allow : Node.AllAllow put (declarations.flatMap Declaration.nodes)) :
    DeclaresAll types (declarations.map (Declaration.replace put)) (put.expand lexemes) behind ∧
      put.Fits behind := by
  cases declares with
  | intro given first further =>
    obtain ⟨own, others⟩ := Node.allAllow_append.mp allow
    obtain ⟨declares, fitsBehind, base⟩ := first.replace fits own
    obtain ⟨more, fitsLast⟩ := further.replace fitsBehind others
    rw [CType.replace_withoutBodies] at more
    simp only [Replacement.expand_append]
    exact ⟨.intro (given.replace fits base) declares more, fitsLast⟩

theorem DeclaresLocally.replace {statement : Statement}
    (declares : DeclaresLocally types statement lexemes behind) (fits : put.Fits types)
    (allow : Node.AllAllow put statement.nodes) :
    DeclaresLocally types (statement.replace put) (put.expand lexemes) behind ∧ put.Fits behind := by
  cases declares with
  | declaration span declares =>
    obtain ⟨declares, fits⟩ := declares.replace fits (Node.allAllow_cons.mp allow).2
    exact ⟨.declaration span declares, fits⟩
  | typeDefinition span given =>
    rw [Replacement.expand_append]
    exact ⟨.typeDefinition span (given.replace fits (Node.allAllow_cons.mp allow).2), fits⟩

theorem OpensLoop.replace {init : Option Statement} (opens : OpensLoop types init lexemes behind)
    (fits : put.Fits types) (allow : Node.AllAllow put (Statement.optionNodes init)) :
    OpensLoop types (Statement.optionReplace put init) (put.expand lexemes) behind ∧ put.Fits behind := by
  cases opens with
  | absent => exact ⟨.absent, fits⟩
  | expression span value =>
    rw [Replacement.expand_append]
    exact ⟨.expression span (value.replace fits (Node.allAllow_cons.mp allow).2), fits⟩
  | declaration declares =>
    obtain ⟨declares, fits⟩ := declares.replace fits allow
    exact ⟨.declaration declares, fits⟩

theorem isOpen_replace (statement : Statement) : (statement.replace put).isOpen = statement.isOpen := by
  induction statement with
  | ifElse _ _ _ _ _ ih => exact ih
  | whileLoop _ _ _ ih | forLoop _ _ _ _ _ _ ih | switch _ _ _ ih => exact ih
  | bareLoop _ _ _ _ ih => exact ih
  | caseLabel _ _ _ ih | defaultLabel _ _ ih | labelled _ _ _ ih => exact ih
  | _ => rfl

def StatementPhrase.replace (put : Replacement) : StatementPhrase → StatementPhrase
  | one statement => one (statement.replace put)
  | several statements => several (Statement.listReplace put statements)

def StatementPhrase.nodes : StatementPhrase → List Node
  | one statement => statement.nodes
  | several statements => Statement.listNodes statements

theorem Forms.replace {phrase : StatementPhrase} (forms : Forms types phrase lexemes behind)
    (fits : put.Fits types) (allow : Node.AllAllow put phrase.nodes) :
    Forms types (phrase.replace put) (put.expand lexemes) behind ∧ put.Fits behind := by
  induction forms with
    (try simp only [StatementPhrase.nodes, Statement.nodes, Statement.listNodes, Statement.optionNodes,
      Node.allAllow_cons, Node.allAllow_append] at allow
     try simp only [enclosed, Replacement.expand_append, Replacement.expand_mark, Replacement.expand_keyword,
      Replacement.expand_nil])
  | expression span value => exact ⟨.expression span (value.replace fits allow.2), fits⟩
  | declaration declares =>
    obtain ⟨declares, fits⟩ := declares.replace fits allow
    exact ⟨.declaration declares, fits⟩
  | block span _ ih => exact ⟨.block span (ih fits allow.2).1, fits⟩
  | ifThen span condition _ ih =>
    obtain ⟨-, ⟨tests, inside⟩, -⟩ := allow
    obtain ⟨forms, fitsBehind⟩ := ih fits inside
    exact ⟨.ifThen span (condition.replace fits tests) forms, fitsBehind⟩
  | ifElse span condition _ notOpen _ ih ihElse =>
    obtain ⟨-, ⟨tests, inside⟩, last⟩ := allow
    obtain ⟨forms, fitsBetween⟩ := ih fits inside
    obtain ⟨formsElse, fitsBehind⟩ := ihElse fitsBetween last
    exact ⟨.ifElse span (condition.replace fits tests) forms ((isOpen_replace _).trans notOpen) formsElse, fitsBehind⟩
  | whileLoop span condition _ ih =>
    obtain ⟨forms, fitsBehind⟩ := ih fits allow.2.2
    exact ⟨.whileLoop span (condition.replace fits allow.2.1) forms, fitsBehind⟩
  | forLoop span opens first second _ ih =>
    obtain ⟨-, ⟨⟨head, tests⟩, updates⟩, inside⟩ := allow
    obtain ⟨opens, fitsBetween⟩ := opens.replace fits head
    exact ⟨.forLoop span opens (first.replace fitsBetween tests) (second.replace fitsBetween updates)
      (ih fitsBetween inside).1, fits⟩
  | doWhile span _ condition ih =>
    obtain ⟨forms, fitsBehind⟩ := ih fits allow.2.1
    exact ⟨.doWhile span forms (condition.replace fitsBehind allow.2.2), fitsBehind⟩
  | switch span subject _ ih =>
    obtain ⟨forms, fitsBehind⟩ := ih fits allow.2.2
    exact ⟨.switch span (subject.replace fits allow.2.1) forms, fitsBehind⟩
  | caseLabel span value _ ih =>
    obtain ⟨forms, fitsBehind⟩ := ih fits allow.2.2
    exact ⟨.caseLabel span (value.replace fits allow.2.1) forms, fitsBehind⟩
  | defaultLabel span _ ih =>
    obtain ⟨forms, fitsBehind⟩ := ih fits allow.2
    exact ⟨.defaultLabel span forms, fitsBehind⟩
  | breakStatement span => exact ⟨.breakStatement span, fits⟩
  | continueStatement span => exact ⟨.continueStatement span, fits⟩
  | returnStatement span given => exact ⟨.returnStatement span (given.replace fits allow.2), fits⟩
  | gotoStatement span label =>
    rw [put.expand_identifier (allow.1.fixed (.label label) (.head _))]
    exact ⟨.gotoStatement span label, fits⟩
  | labelled span label _ ih =>
    obtain ⟨forms, fitsBehind⟩ := ih fits allow.2
    rw [put.expand_identifier (allow.1.fixed (.label label) (.head _))]
    exact ⟨.labelled span label forms, fitsBehind⟩
  | empty span => exact ⟨.empty span, fits⟩
  | nil types => exact ⟨.nil types, fits⟩
  | cons _ _ ih ihOthers =>
    obtain ⟨forms, fitsBetween⟩ := ih fits allow.1
    obtain ⟨others, fitsBehind⟩ := ihOthers fitsBetween allow.2
    exact ⟨.cons forms others, fitsBehind⟩

end Parser

/-! ## Printed arguments -/

def Lexer.lexemes? (text : String) : Option (List Lexeme) :=
  (tokenize text).toOption.map fun tokens => tokens.map Token.lexeme

theorem Lexer.eq_of_lexemes? {text : String} {lexemes more : List Lexeme}
    (lexed : lexemes? text = some (more ++ [.endOfFile])) (written : Written text lexemes) : lexemes = more := by
  unfold lexemes? at lexed
  rcases tokenize_of_scans written.scans "<input>" with ⟨tokens, tokenized, same⟩ | ⟨fails, -⟩
  · rw [tokenized] at lexed
    exact List.append_cancel_right (same.symm.trans (Option.some.inj lexed))
  · rw [fails] at lexed
    cases lexed

/-- A tree is read as itself in every place where it is printed, and in a macro's parentheses its text has the
given lexemes. -/
structure Expr.IsArgument (types : List String) (argument : Expr) (lexemes : List Lexeme) : Prop where
  reads : ∀ minimum, argument.IsWritten types minimum (Printer.exprText 0 minimum argument)
  lexed : Lexer.lexemes? (Printer.exprText 0 Precedence.assignment argument.protectedArgument) =
    some (lexemes ++ [.endOfFile])

namespace Expr

variable {types : List String} {argument : Expr} {lexemes : List Lexeme}

theorem IsWritten.derives {minimum : Nat} {text : String} (reads : argument.IsWritten types minimum text)
    (lexed : Lexer.lexemes? text = some (lexemes ++ [.endOfFile])) :
    Derives types (.expr (.ofPrecedence minimum) argument) lexemes := by
  obtain ⟨found, written, derives, -⟩ := reads
  rwa [← Lexer.eq_of_lexemes? lexed written]

theorem IsArgument.derives (given : argument.IsArgument types lexemes) :
    Derives types (.expr (Place.loosened .primary argument.isAddress) argument) lexemes := by
  obtain ⟨reads, lexed⟩ := given
  unfold protectedArgument at lexed
  split at lexed
  · next needed =>
    have noAddress : argument.isAddress = false := by
      unfold isAddress
      split
      · simpa [needsParentheses] using needed
      · rfl
    rw [noAddress]
    exact ((reads Precedence.assignment).parenthesized Precedence.primary).derives lexed
  · next bare =>
    cases argument with
    | identifier | intLiteral | floatLiteral | charLiteral | stringLiteral =>
      exact (reads Precedence.primary).derives lexed
    | unary span operator operand =>
      cases operator with
      | addressOf =>
        cases operand with
        | identifier => exact IsWritten.unary_of_cast ((reads Precedence.unary).derives lexed) rfl rfl
        | _ => exact absurd rfl bare
      | _ => exact absurd rfl bare
    | _ => exact absurd rfl bare

end Expr

/-! ## Invocations -/

/-- The arguments of a macro, with what they are printed as, for its parameters. -/
def Replacement.ofArguments (parameters : List String) (arguments : List (Expr × List Lexeme)) : Replacement :=
  (Association.ofPairs (parameters.zip arguments)).find?

/-- A name in a macro in which the namespace is joined with what stands behind it. -/
def joinedName (namespaceName token name : String) : String :=
  let front := namespaceName ++ " ## "
  if front.toList.isPrefixOf name.toList then token ++ String.ofList (name.toList.drop front.length) else name

/-- The body of a macro where it is invoked with a token for the namespace. -/
def Function.joinedBody (namespaceName token : String) (function : Function) : List Statement :=
  let join (name : String) : Id String := pure (joinedName namespaceName token name)
  Id.run (Statement.traverseList { name := join, label := join } function.statements)

/-- What statements are printed as is read as statements that have no other words. -/
structure Statement.ListReads (types : List String) (statements read : List Statement) (lexemes : List Lexeme) :
    Prop where
  lexed : Lexer.lexemes? (Printer.unlines (Printer.statementsLines 1 statements)) = some (lexemes ++ [.endOfFile])
  forms : ∃ behind, Parser.Forms types (.several read) lexemes behind
  words : ∀ word, Within word (listNodes statements) → Within word (listNodes read)

/-- The lexemes of a macro's text around those of its body, and of the semicolon behind an invocation. -/
def Lexeme.ofMacro (lexemes : List Lexeme) : List Lexeme :=
  .keyword .kwDo :: (.mark .leftBrace :: (lexemes ++ [.mark .rightBrace]) ++
    .keyword .kwWhile :: (Parser.enclosed [.intLiteral "0"] ++ [.mark .semicolon]))

/-- The statement that a macro with the given statements is read as. -/
def Statement.ofMacro (statements : List Statement) : Statement :=
  .doWhile .synthetic (.block .synthetic statements) (.intLiteral .synthetic "0")

/-- What fresh parameters leave to be asked of the statements of a macro: no suffix stands behind one for the address
of a name, no declaration gives another meaning to an argument, and no label that the namespace is joined in and no
member that an initializer designates is one of them. -/
structure Replacement.Suits (put : Replacement) (statements : List Statement) : Prop where
  operand : ∀ node ∈ Statement.listNodes statements, ∀ value ∈ node.operand?, value.isLoose put = false
  declared : ∀ declaration, .declaration declaration ∈ Statement.listNodes statements →
    ∀ types, put.Fits types → put.Fits (declaration.typesBehind types)
  labels : Within (fun | .label name | .designated name => put name = none | _ => True) (Statement.listNodes statements)

/-- Where a macro is invoked with the arguments, the parser reads its statements with the trees of the arguments in
the places of its parameters, if the statements and the arguments are read as they are printed. -/
def Function.ReadsInvoked (namespaceName : String) (parameters : List String) (function : Function)
    (arguments : List Expr) : Prop :=
  ∀ (token : String) (types : List String) (read : List Statement) (lexemes : List Lexeme)
    (printed : List (List Lexeme)) (tokens rest : List Token) (fileEnd : Location),
    let put := Replacement.ofArguments parameters (arguments.zip printed)
    Statement.ListReads types (function.joinedBody namespaceName token) read lexemes →
    List.Forall₂ (Expr.IsArgument types) arguments printed → put.Suits read →
    Parser.Spelled (Lexeme.ofMacro (put.expand lexemes)) tokens rest →
    ∃ tree, Parser.statement.run ⟨tokens, types, fileEnd⟩ = .ok tree ⟨rest, types, fileEnd⟩ ∧
      tree.unplaced = (Statement.ofMacro (Statement.listReplace put read)).unplaced

def Word.Avoids (parameters : List String) : Word → Prop
  | other name => name ∉ parameters
  | _ => True

section Reading

variable {types parameters : List String} {arguments : List (Expr × List Lexeme)}

theorem Replacement.ofArguments_eq_none {name : String} (other : name ∉ parameters) :
    ofArguments parameters arguments name = none := by
  by_contra found
  obtain ⟨argument, found⟩ := Option.ne_none_iff_exists'.mp found
  exact other (List.of_mem_zip (Association.mem_of_find?_ofPairs found)).1

theorem Replacement.fits_ofArguments (printed : ∀ argument ∈ arguments, argument.1.IsArgument types argument.2) :
    (ofArguments parameters arguments).Fits types :=
  ⟨fun _ _ found => (printed _ (List.of_mem_zip (Association.mem_of_find?_ofPairs found)).2).derives⟩

theorem Replacement.Suits.allow {statements : List Statement}
    (suits : (ofArguments parameters arguments).Suits statements)
    (avoids : Within (Word.Avoids parameters) (Statement.listNodes statements))
    (numbered : ∀ name ∈ parameters, Registry.IsNumbered name) :
    Node.AllAllow (ofArguments parameters arguments) (Statement.listNodes statements) := by
  intro node member
  refine ⟨fun word stands => ?_, suits.operand node member, ?_⟩
  · have apart := suits.labels node member word stands
    cases word with
    | value name =>
      intro takes
      have noDigit : ∀ name ∈ Parser.typeArgumentFunctions, name.toList.any Char.isDigit = false := by decide
      exact ofArguments_eq_none fun among =>
        (numbered name among).ne (noDigit name (List.contains_iff_mem.mp takes)) rfl
    | label | designated => exact apart
    | other name => exact ofArguments_eq_none (avoids node member _ stands)
  · rintro declaration rfl
    exact suits.declared declaration member

theorem Function.joinedBody_avoids {function : Function} (avoids : Within (Word.Avoids parameters) function.body.nodes)
    (namespaceName token : String) :
    Within (Word.Avoids parameters) (Statement.listNodes (function.joinedBody namespaceName token)) := by
  have inside : Within (Word.Avoids parameters) (Statement.listNodes function.statements) := by
    unfold statements
    cases same : function.body with
    | block => exact (Node.within_inside rfl).mp (same ▸ avoids)
    | _ => exact Node.within_nil
  unfold joinedBody
  rw [Statement.listNodes_traverse]
  exact inside.traverse ⟨fun _ => id, fun _ _ => trivial, fun _ => id, fun _ _ => trivial⟩

theorem Function.readsInvoked {function : Function} (avoids : Within (Word.Avoids parameters) function.body.nodes)
    (numbered : ∀ name ∈ parameters, Registry.IsNumbered name) (namespaceName : String) (arguments : List Expr) :
    function.ReadsInvoked namespaceName parameters arguments := by
  intro token types read lexemes printed tokens rest fileEnd put body given suits spelled
  obtain ⟨-, ⟨behind, forms⟩, words⟩ := body
  have fits : put.Fits types := Replacement.fits_ofArguments fun argument member =>
    List.forall₂_iff_zip.mp given |>.2 member
  obtain ⟨several, -⟩ := forms.replace fits
    (suits.allow (words _ (Function.joinedBody_avoids avoids namespaceName token)) numbered)
  have zero : Derives types (.expr .expression (.intLiteral .synthetic "0")) [.intLiteral "0"] :=
    Parser.Derives.ofPrimary (.intLiteral .synthetic "0") 0
  have whole := Parser.Forms.doWhile .synthetic (.block .synthetic several) zero
  have enough := Nat.le_of_add_right_le spelled.cost_le
  exact Parser.Leads.budgeted (whole.isRead _ fileEnd tokens rest enough spelled fun isOpen => by cases isOpen)

end Reading

/-! ## Runs -/

theorem Statement.OpensWith.avoids {taken : Renaming.Taken} {copies : List Declaration} {body : Statement}
    {registry : Registry} (opens : body.OpensWith copies taken.Spares)
    (heads : Renaming.AllOwn taken.direct registry (copies.flatMap Declaration.nodes)) :
    Within (Word.Avoids taken.parameters) body.nodes := by
  obtain ⟨span, rest, rfl, within⟩ := opens
  refine within_block.mpr (List.forall_mem_append.mpr ⟨List.forall_mem_map.mpr fun copied member => ?_,
    fun statement member => (within statement member).mono fun word spares => ?_⟩)
  · have own := Node.within_flatMap.mp heads copied member
    refine (Node.within_inside rfl).mpr (Node.within_flatMap.mpr (List.forall_mem_singleton.mpr (own.mono ?_)))
    intro word apart
    cases word with
    | other name => exact apart.other
    | _ => trivial
  · cases word with
    | other name => exact spares.2
    | _ => trivial

namespace CompilationUnit

variable {configuration : Configuration} {unit : CompilationUnit} {registry : Registry}
  {trails : List Trail} {result : CompilationUnit}

theorem IsTraced.readsInvoked (formed : unit.IsFormed) (tokens : unit.NamesTokens)
    (traced : unit.IsTraced configuration registry trails result) {called : Trail} (member : called ∈ trails)
    (isMacro : (unit.plan configuration registry).eligibility.isEligible called.source.name) (arguments : List Expr) :
    called.result.ReadsInvoked (unit.plan configuration registry).namespaceName
      (called.source.prepare (unit.plan configuration registry) called.before).parameters arguments := by
  obtain ⟨first, taken, copies, ⟨-, -, -, opens⟩, opensWith⟩ := traced.prepared formed tokens member isMacro
  refine Function.readsInvoked ((opensWith.avoids opens.heads).mono fun word avoids => ?_)
    (fun name among => opens.numbered name (opens.parameters among)) _ arguments
  cases word with
  | other name => exact fun among => avoids (opens.parameters among)
  | _ => trivial

theorem IsTraced.isProtected (formed : unit.IsFormed)
    (traced : unit.IsTraced configuration registry trails result) {caller : Trail} (member : caller ∈ trails) :
    Node.Protected (unit.plan configuration registry).isMacro caller.result.body.nodes := by
  obtain ⟨callsNone, expands, older⟩ := traced.mem formed member
  exact (Trail.invokedFrom callsNone (fun name isMacro => older (isMacro_used registry name isMacro)) expands).isProtected

/-- Where a run has made an invocation of a macro, arguments follow the namespace, in parentheses where they need
them, and what is pasted there is read as the statements of the macro with the trees of the arguments in the places
of the parameters. -/
def InvocationsRead (unit : CompilationUnit) (configuration : Configuration) (registry : Registry)
    (trails : List Trail) : Prop :=
  ∀ caller ∈ trails, ∀ called ∈ trails, ∀ macroName,
    (unit.plan configuration registry).macros.find? called.source.name = some macroName →
    ∀ span place given, .expression (.call span (.identifier place macroName) given) ∈ caller.result.body.nodes →
      ∃ space arguments, given = .ofName space :: arguments.map Expr.protectedArgument ∧
        called.result.ReadsInvoked (unit.plan configuration registry).namespaceName
          (called.source.prepare (unit.plan configuration registry) called.before).parameters arguments

theorem macroize_invocations_read {text file : String} {typedefs : List String}
    (parses : CompilationUnit.parse text file typedefs = .ok unit) {state after : RunState}
    {report : Report} (runs : (unit.macroize configuration).run state = .ok (report, result) after) :
    ((unit.decision configuration).eligible = [] ∧ result = unit.normalized) ∨
      ∃ trails texts items, unit.IsTraced configuration state.registry trails result ∧
        result = unit.placed configuration state.registry texts items ∧
        (∀ name text, texts.find? name = some text →
          ∃ trail ∈ trails, trail.Writes (unit.plan configuration state.registry) name text) ∧
        unit.InvocationsRead configuration state.registry trails := by
  have formed := isFormed_of_parse parses
  have tokens : unit.NamesTokens := isWhole_of_parse parses
  rcases macroize_traced formed runs with none | ⟨trails, traced⟩
  · exact .inl none
  · refine (macroize_writes formed runs traced).imp_right fun ⟨texts, items, placed, written⟩ => ?_
    refine ⟨trails, texts, items, traced, placed, written, ?_⟩
    intro caller callerMember called calledMember macroName found span place given stands
    obtain ⟨space, arguments, same⟩ := traced.isProtected formed callerMember span place macroName given stands
      (MacroPlan.isMacro_of_find? found)
    have contained := (unit.contains_macros configuration state.registry called.source.name).mp (by
      rw [Association.contains, found]; rfl)
    exact ⟨space, arguments, same, traced.readsInvoked formed tokens calledMember
      (List.contains_iff_mem.mpr contained) arguments⟩

theorem macroize_invocations_read_sum :
    ∃ unit, CompilationUnit.parse
        "inline void f(int a[]) \x7b use(a[0]); \x7d
          int main(void) \x7b int v[2]; f(v + 1); return 0; \x7d" = .ok unit ∧
      ∃ report result after, (unit.macroize {}).run ⟨{}, []⟩ = .ok (report, result) after ∧
        ∃ trails texts items, unit.IsTraced {} {} trails result ∧
          result = unit.placed {} {} texts items ∧
          (∀ name text, texts.find? name = some text →
            ∃ trail ∈ trails, trail.Writes (unit.plan {} {}) name text) ∧
          unit.InvocationsRead {} {} trails := by
  refine exists_parsed _ (fun unit => !unit.failsAtFirst && !(unit.decision {}).eligible.isEmpty)
    (by decide +kernel) ?_
  intro unit parses checked
  obtain ⟨some, report, result, after, runs⟩ := exists_run_with_macros checked
  exact ⟨report, result, after, runs,
    (macroize_invocations_read parses runs).resolve_left fun none => some none.1⟩

end CompilationUnit

/-! ## An argument in front of brackets -/

/-- A macro that takes the first element of its argument. -/
def Function.indexing : Function :=
  ⟨"f", .basic .void, [], false, .block .synthetic [.expression .synthetic (.call .synthetic (.ofName "use")
    [.binary .synthetic .index (.ofName "a_0") (.intLiteral .synthetic "0")])], none, true, .synthetic⟩

def Lexeme.indexing : List Lexeme :=
  [.identifier "use", .mark .leftParen, .identifier "a_0", .mark .leftBracket, .intLiteral "0",
    .mark .rightBracket, .mark .rightParen, .mark .semicolon]

theorem Function.indexing_reads : Statement.ListReads [] (Function.indexing.joinedBody "namespace" "ns_1")
    (Function.indexing.joinedBody "namespace" "ns_1") Lexeme.indexing := by
  have derives : Derives [] (.expr .expression (.call .synthetic (.ofName "use")
      [.binary .synthetic .index (.ofName "a_0") (.intLiteral .synthetic "0")])) (Lexeme.indexing.take 7) :=
    (Expr.isWritten 0 0 _ (by decide +kernel)).derives (by decide +kernel)
  exact ⟨by decide +kernel, ⟨[], .cons (.expression .synthetic derives) (.nil [])⟩, fun _ => id⟩

theorem Parser.Spelled.synthetic (kinds : List Lexeme) (rest : List Token) :
    Parser.Spelled kinds ((kinds.map fun kind => ⟨kind, .synthetic⟩) ++ rest) rest := by
  refine .of_map rest ?_
  rw [List.map_map]
  exact List.map_id kinds

/-- A sum is in parentheses. -/
theorem Function.indexing_reads_sum :
    let sum : Expr := .binary .synthetic .add (.ofName "v") (.intLiteral .synthetic "1")
    let put := Replacement.ofArguments ["a_0"]
      [(sum, [.mark .leftParen, .identifier "v", .mark .plus, .intLiteral "1", .mark .rightParen])]
    ∃ tokens rest tree, Parser.Spelled (Lexeme.ofMacro (put.expand Lexeme.indexing)) tokens rest ∧
      Parser.statement.run ⟨tokens, [], .synthetic⟩ = .ok tree ⟨rest, [], .synthetic⟩ ∧
      tree.unplaced = (Statement.ofMacro (Statement.listReplace put
        (Function.indexing.joinedBody "namespace" "ns_1"))).unplaced := by
  intro sum put
  have nodes : ∀ node ∈ Function.indexing.body.nodes, (node matches .declaration _) = false ∧
      ∀ word ∈ node.words, ∃ name, word = .value name := by
    simp [Function.indexing, Statement.nodes, Statement.listNodes, Expr.nodes, Expr.listNodes, Expr.ofName,
      Node.words, Node.names]
  have avoids : Within (Word.Avoids ["a_0"]) Function.indexing.body.nodes := by
    intro node member word stands
    obtain ⟨name, rfl⟩ := (nodes node member).2 word stands
    trivial
  have suits : put.Suits (Function.indexing.joinedBody "namespace" "ns_1") := by
    refine ⟨by decide +kernel, fun declaration member => ?_, fun node member word stands => ?_⟩
    · cases (nodes _ (.tail _ member)).1
    · obtain ⟨name, rfl⟩ := (nodes node (.tail _ member)).2 word stands
      trivial
  have argument : sum.IsArgument []
      [.mark .leftParen, .identifier "v", .mark .plus, .intLiteral "1", .mark .rightParen] :=
    ⟨fun minimum => Expr.isWritten 0 minimum _ (by decide +kernel), by decide +kernel⟩
  have spelled := Parser.Spelled.synthetic (Lexeme.ofMacro (put.expand Lexeme.indexing)) []
  obtain ⟨tree, reads⟩ := Function.readsInvoked avoids (List.forall_mem_singleton.mpr ⟨"a", 0, by decide +kernel⟩)
    "namespace" [sum] "ns_1" [] _ _ [_] _ _ .synthetic indexing_reads (.cons argument .nil) suits spelled
  exact ⟨_, _, tree, spelled, reads⟩

/-- The address of a name is not put in parentheses, and the brackets take the name from it. -/
theorem Function.invocation_tears_address :
    let address : Expr := .unary .synthetic .addressOf (.ofName "x")
    let put := Replacement.ofArguments ["a_0"] [(address, [.mark .ampersand, .identifier "x"])]
    (∃ unit, CompilationUnit.parse
        "inline void f(int a[]) \x7b use(a[0]); \x7d int main(void) \x7b int x; f(&x); return 0; \x7d" = .ok unit ∧
      ∃ report result after, (unit.macroize {}).run ⟨{}, []⟩ = .ok (report, result) after ∧
        result.text = Function.indexing.macroText "macro_f" "namespace" ["a_0"] ++
          "int main(void)\n\x7b\n    int x;\n    macro_f(ns_1, &x);\n    return 0;\n\x7d\n\n") ∧
      address.IsArgument [] [.mark .ampersand, .identifier "x"] ∧
      ∃ tokens rest, Parser.Spelled (Lexeme.ofMacro (put.expand Lexeme.indexing)) tokens rest ∧
        ∀ read after, Parser.statement.run ⟨tokens, [], .synthetic⟩ = .ok read after →
          read.unplaced ≠ (Statement.ofMacro (Statement.listReplace put
            (Function.indexing.joinedBody "namespace" "ns_1"))).unplaced := by
  intro address put
  refine ⟨?_, ⟨fun minimum => Expr.isWritten 0 minimum _ (by decide +kernel), by decide +kernel⟩, _, _,
    Parser.Spelled.synthetic (Lexeme.ofMacro (put.expand Lexeme.indexing)) [], ?_⟩
  · refine CompilationUnit.exists_parsed _ (CompilationUnit.runGives {} fun given => given.2.text ==
      Function.indexing.macroText "macro_f" "namespace" ["a_0"] ++
        "int main(void)\n\x7b\n    int x;\n    macro_f(ns_1, &x);\n    return 0;\n\x7d\n\n") (by decide +kernel) ?_
    intro unit _ gives
    obtain ⟨report, result, after, runs, same⟩ := CompilationUnit.exists_run_of_runGives gives
    exact ⟨report, result, after, runs, beq_iff_eq.mp same⟩
  · intro read after runs same
    have differs : (match Parser.statement.run ⟨(Lexeme.ofMacro (put.expand Lexeme.indexing)).map
        (fun kind => ⟨kind, .synthetic⟩) ++ [], [], .synthetic⟩ with
      | .ok read _ => read.unplaced.text != (Statement.ofMacro (Statement.listReplace put
          (Function.indexing.joinedBody "namespace" "ns_1"))).unplaced.text
      | .error .. => true) = true := by decide +kernel
    rw [runs] at differs
    exact bne_iff_ne.mp differs (congrArg Statement.text same)

end InlineMacro
