import InlineMacro.Proofs.Syntax.CallSite
import InlineMacro.Proofs.Syntax.Words
import Mathlib.Logic.Relation

/-!
# Statements put in the place of others

The passes over a body put lists of simple statements in the places of plain statements of blocks.
What they put there is made of what stood there and of a few new names. So a property of the words
of a body is one of what becomes of it, and a use of a name that is not new stands where it stood,
in the same scope.
-/

set_option autoImplicit false

namespace InlineMacro

open Node (Within)

/-! ## Rules for names -/

/-- What can stand in a tree: words, and uses of names. -/
structure NameRule where
  word : Word → Prop
  use : Use → Prop

/-- A rule admits new words. -/
structure NameRule.Admits (rule : NameRule) (new : Word → Prop) : Prop where
  word : ∀ given, new given → rule.word given
  use : ∀ used : Use, new (.value used.name) → rule.use used

/-- The names in an expression are those of a rule. -/
structure Expr.Obeys (rule : NameRule) (value : Expr) : Prop where
  within : Within rule.word value.nodes
  uses : ∀ use ∈ value.uses, rule.use use

def Statement.simpleUses : Statement → List Use
  | .expression _ value => value.uses
  | .returnStatement _ value => optionalUses Expr.uses value
  | _ => []

/-- The names in such a statement are those of a rule. -/
structure Statement.Obeys (rule : NameRule) (statement : Statement) : Prop where
  within : Within rule.word statement.nodes
  uses : ∀ use ∈ statement.simpleUses, rule.use use

section Obeys

variable {rule : NameRule} {new : Word → Prop}

theorem Expr.obeys_ofName (admits : rule.Admits new) {name : String}
    (isNew : new (.value name)) : (Expr.ofName name).Obeys rule where
  within := Node.within_cons.mpr
    ⟨fun _ stands => List.mem_singleton.mp stands ▸ admits.word _ isNew, Node.within_nil⟩
  uses _ member := List.mem_singleton.mp member ▸ admits.use (.mentioned name) isNew

variable {span : Span}

theorem Expr.obeys_binary {operator : BinaryOperator} {left right : Expr} :
    (Expr.binary span operator left right).Obeys rule ↔ left.Obeys rule ∧ right.Obeys rule := by
  constructor
  · intro ⟨within, uses⟩
    have parts := Node.within_append.mp ((Node.within_inside rfl).mp within)
    have separate := List.forall_mem_append.mp uses
    exact ⟨⟨parts.1, separate.1⟩, ⟨parts.2, separate.2⟩⟩
  · intro ⟨former, latter⟩
    exact ⟨(Node.within_inside rfl).mpr (Node.within_append.mpr ⟨former.within, latter.within⟩),
      List.forall_mem_append.mpr ⟨former.uses, latter.uses⟩⟩

theorem Expr.obeys_unary {operator : UnaryOperator} {operand : Expr} :
    (Expr.unary span operator operand).Obeys rule ↔ operand.Obeys rule :=
  ⟨fun obeys => ⟨((Node.within_inside rfl).mp obeys.within), obeys.uses⟩,
    fun obeys => ⟨(Node.within_inside rfl).mpr obeys.within,
      obeys.uses⟩⟩

theorem Expr.obeys_cast {target : CType} {operand : Expr} : (Expr.cast span target operand).Obeys rule ↔
      (Within rule.word target.nodes ∧ ∀ use ∈ target.uses, rule.use use) ∧
        operand.Obeys rule := by
  constructor
  · intro ⟨within, uses⟩
    have parts := Node.within_append.mp ((Node.within_inside rfl).mp within)
    have separate := List.forall_mem_append.mp uses
    exact ⟨⟨parts.1, separate.1⟩, ⟨parts.2, separate.2⟩⟩
  · intro ⟨former, latter⟩
    exact ⟨(Node.within_inside rfl).mpr (Node.within_append.mpr ⟨former.1, latter.within⟩),
      List.forall_mem_append.mpr ⟨former.2, latter.uses⟩⟩

/-- What is called in a call, by name or not. -/
structure Expr.CalleeObeys (rule : NameRule) (function : Expr) : Prop where
  within : Within rule.word function.nodes
  uses : ∀ use ∈ function.calleeUses, rule.use use

def Expr.ListObeys (rule : NameRule) (values : List Expr) : Prop := ∀ value ∈ values, value.Obeys rule

theorem Expr.listObeys_iff {values : List Expr} : Expr.ListObeys rule values ↔
      Within rule.word (Expr.listNodes values) ∧ ∀ use ∈ Expr.listUses values, rule.use use := by
  induction values with
  | nil => exact ⟨fun _ => ⟨Node.within_nil, by simp [Expr.listUses]⟩, fun _ => by simp [Expr.ListObeys]⟩
  | cons first rest ih =>
    unfold Expr.ListObeys at ih ⊢
    rw [List.forall_mem_cons, ih, Expr.listNodes, Expr.listUses, Node.within_append, List.forall_mem_append]
    exact ⟨fun ⟨former, latter⟩ => ⟨⟨former.within, latter.1⟩, former.uses, latter.2⟩,
      fun ⟨within, uses⟩ => ⟨⟨within.1, uses.1⟩, within.2, uses.2⟩⟩

theorem Expr.obeys_call {function : Expr} {arguments : List Expr} :
    (Expr.call span function arguments).Obeys rule ↔
      function.CalleeObeys rule ∧ Expr.ListObeys rule arguments := by
  rw [Expr.listObeys_iff]
  constructor
  · intro ⟨within, uses⟩
    rw [Expr.uses_call] at uses
    have parts := Node.within_append.mp ((Node.within_inside rfl).mp within)
    have separate := List.forall_mem_append.mp uses
    exact ⟨⟨parts.1, separate.1⟩, ⟨parts.2, separate.2⟩⟩
  · intro ⟨former, latter⟩
    refine ⟨(Node.within_inside rfl).mpr (Node.within_append.mpr ⟨former.within, latter.1⟩), ?_⟩
    rw [Expr.uses_call]
    exact List.forall_mem_append.mpr ⟨former.uses, latter.2⟩

theorem Expr.obeys_protectedArgument {argument : Expr} (obeys : argument.Obeys rule) :
    argument.protectedArgument.Obeys rule := by
  unfold Expr.protectedArgument
  split
  · have single := Expr.listObeys_iff.mp (List.forall_mem_singleton.mpr obeys)
    exact ⟨(Node.within_inside rfl).mpr single.1, single.2⟩
  · exact obeys

theorem Statement.obeys_expression {value : Expr} :
    (Statement.expression span value).Obeys rule ↔ value.Obeys rule :=
  ⟨fun obeys => ⟨((Node.within_inside rfl).mp obeys.within), obeys.uses⟩,
    fun obeys => ⟨(Node.within_inside rfl).mpr obeys.within,
      obeys.uses⟩⟩

theorem Statement.obeys_return {value : Expr} :
    (Statement.returnStatement span (some value)).Obeys rule ↔ value.Obeys rule :=
  ⟨fun obeys => ⟨((Node.within_inside rfl).mp obeys.within), obeys.uses⟩,
    fun obeys => ⟨(Node.within_inside rfl).mpr obeys.within,
      obeys.uses⟩⟩

theorem Statement.obeys_returnNothing (span : Span) : (Statement.returnStatement span none).Obeys rule :=
  ⟨(Node.within_inside rfl).mpr Node.within_nil,
    fun _ member => absurd member List.not_mem_nil⟩

theorem Statement.obeys_goto (admits : rule.Admits new) {label : String}
    (isNew : new (.label label)) (span : Span) : (Statement.gotoStatement span label).Obeys rule :=
  ⟨Node.within_cons.mpr
    ⟨fun _ stands => List.mem_singleton.mp stands ▸ admits.word _ isNew, Node.within_nil⟩,
    fun _ member => absurd member List.not_mem_nil⟩

end Obeys

/-! ## Simple statements -/

def Statement.isSimple : Statement → Bool
  | .expression .. | .returnStatement .. | .gotoStatement .. => true
  | _ => false

/-- A simple statement that is made of what stands in another one and of new names. -/
structure Statement.DrawsOn (new : Word → Prop) (entry statement : Statement) : Prop where
  simple : statement.isSimple
  obeys : ∀ rule : NameRule, rule.Admits new → entry.Obeys rule → statement.Obeys rule

/-- What has become of a statement of a block, or of a statement inside another one: simple
statements stand in the places of some plain statements of blocks. -/
inductive Statement.Rewritten (new : Word → Prop) : Bool → Statement → List Statement → Prop where
  | same (statement : Statement) : Rewritten new false statement [statement]
  | kept {entry : Statement} {results : List Statement} (inside : Rewritten new false entry results) :
      Rewritten new true entry results
  | replaced {entry : Statement} {statements : List Statement} (plain : entry.isPlain)
      (drawn : ∀ statement ∈ statements, entry.DrawsOn new statement) :
      Rewritten new true entry statements
  | block (span : Span) (pieces : List (Statement × List Statement))
      (each : ∀ piece ∈ pieces, Rewritten new true piece.1 piece.2) :
      Rewritten new false (.block span (pieces.map Prod.fst))
        [.block span (pieces.flatMap Prod.snd)]
  | ifThen (span : Span) (condition : Expr) {thenBranch becomes : Statement}
      (inside : Rewritten new false thenBranch [becomes]) :
      Rewritten new false (.ifElse span condition thenBranch none)
        [.ifElse span condition becomes none]
  | ifElse (span : Span) (condition : Expr) {thenBranch becomes elseBranch otherwise : Statement}
      (inside : Rewritten new false thenBranch [becomes])
      (other : Rewritten new false elseBranch [otherwise]) :
      Rewritten new false (.ifElse span condition thenBranch (some elseBranch))
        [.ifElse span condition becomes (some otherwise)]
  | whileLoop (span : Span) (condition : Expr) {body becomes : Statement}
      (inside : Rewritten new false body [becomes]) :
      Rewritten new false (.whileLoop span condition body) [.whileLoop span condition becomes]
  | bareLoop (span : Span) (condition update : Option Expr) {body becomes : Statement}
      (inside : Rewritten new false body [becomes]) :
      Rewritten new false (.forLoop span none condition update body)
        [.forLoop span none condition update becomes]
  | forLoop (span : Span) (condition update : Option Expr) {init start body becomes : Statement}
      (head : Rewritten new false init [start]) (inside : Rewritten new false body [becomes]) :
      Rewritten new false (.forLoop span (some init) condition update body)
        [.forLoop span (some start) condition update becomes]
  | doWhile (span : Span) (condition : Expr) {body becomes : Statement}
      (inside : Rewritten new false body [becomes]) :
      Rewritten new false (.doWhile span body condition) [.doWhile span becomes condition]
  | switch (span : Span) (subject : Expr) {body becomes : Statement}
      (inside : Rewritten new false body [becomes]) :
      Rewritten new false (.switch span subject body) [.switch span subject becomes]
  | caseLabel (span : Span) (value : Expr) {marked becomes : Statement}
      (inside : Rewritten new false marked [becomes]) :
      Rewritten new false (.caseLabel span value marked) [.caseLabel span value becomes]
  | defaultLabel (span : Span) {marked becomes : Statement}
      (inside : Rewritten new false marked [becomes]) :
      Rewritten new false (.defaultLabel span marked) [.defaultLabel span becomes]
  | labelled (span : Span) (label : String) {marked becomes : Statement}
      (inside : Rewritten new false marked [becomes]) :
      Rewritten new false (.labelled span label marked) [.labelled span label becomes]

namespace Statement

variable {new : Word → Prop}

/-! ## Words -/

theorem Rewritten.within {word : Word → Prop} (words : ∀ given, new given → word given)
    {inBlock : Bool} {entry : Statement} {results : List Statement}
    (rewritten : Rewritten new inBlock entry results) (within : Within word entry.nodes) : ∀ result ∈ results, Within word result.nodes := by
  induction rewritten with
  | same statement => exact List.forall_mem_singleton.mpr within
  | kept _ ih => exact ih within
  | replaced plain drawn =>
    intro result member
    have admits : NameRule.Admits ⟨word, fun _ => True⟩ new := ⟨words, fun _ _ => trivial⟩
    exact ((drawn result member).obeys _ admits ⟨within, fun _ _ => trivial⟩).within
  | block span pieces each ih =>
    have inside := within_block.mp within
    refine List.forall_mem_singleton.mpr (within_block.mpr fun result member => ?_)
    obtain ⟨piece, among, found⟩ := List.mem_flatMap.mp member
    exact ih piece among (inside piece.1 (List.mem_map_of_mem among)) result found
  | ifThen span condition inside ih =>
    simp only [nodes, optionNodes, Node.within_cons, Node.within_append, List.forall_mem_singleton] at within ih ⊢
    exact ⟨within.1, ⟨within.2.1.1, ih within.2.1.2⟩, within.2.2⟩
  | ifElse span condition inside other ih otherIh =>
    simp only [nodes, optionNodes, Node.within_cons, Node.within_append, List.forall_mem_singleton] at within ih otherIh ⊢
    exact ⟨within.1, ⟨within.2.1.1, ih within.2.1.2⟩, otherIh within.2.2⟩
  | bareLoop span condition update inside ih =>
    simp only [nodes, optionNodes, Node.within_cons, Node.within_append, List.forall_mem_singleton] at within ih ⊢
    exact ⟨within.1, within.2.1, ih within.2.2⟩
  | forLoop span condition update head inside headIh ih =>
    simp only [nodes, optionNodes, Node.within_cons, Node.within_append, List.forall_mem_singleton] at within headIh ih ⊢
    exact ⟨within.1, ⟨⟨headIh within.2.1.1.1, within.2.1.1.2⟩, within.2.1.2⟩, ih within.2.2⟩
  | whileLoop span condition inside ih | switch span subject inside ih
  | caseLabel span value inside ih =>
    simp only [nodes, Node.within_cons, Node.within_append, List.forall_mem_singleton] at within ih ⊢
    exact ⟨within.1, within.2.1, ih within.2.2⟩
  | doWhile span condition inside ih =>
    simp only [nodes, Node.within_cons, Node.within_append, List.forall_mem_singleton] at within ih ⊢
    exact ⟨within.1, ih within.2.1, within.2.2⟩
  | defaultLabel span inside ih | labelled span label inside ih =>
    simp only [nodes, Node.within_cons, List.forall_mem_singleton] at within ih ⊢
    exact ⟨within.1, ih within.2⟩

end Statement

/-! ## Pieces of a body -/

namespace Statement

def Draws (new : Word → Prop) (entry : Statement) (replaced : Option (List Statement)) :
    Prop :=
  ∀ statements, replaced = some statements →
    entry.isPlain ∧ ∀ statement ∈ statements, entry.DrawsOn new statement

def RewrittenAll (new : Word → Prop) (entries results : List Statement) : Prop :=
  ∃ pieces : List (Statement × List Statement), pieces.map Prod.fst = entries ∧
    pieces.flatMap Prod.snd = results ∧ ∀ piece ∈ pieces, Rewritten new true piece.1 piece.2

variable {new : Word → Prop}

theorem RewrittenAll.nil : RewrittenAll new [] [] :=
  ⟨[], rfl, rfl, fun _ member => absurd member List.not_mem_nil⟩

theorem RewrittenAll.cons {entry : Statement} {entries first results : List Statement}
    (rewritten : Rewritten new true entry first) (others : RewrittenAll new entries results) :
    RewrittenAll new (entry :: entries) (first ++ results) := by
  obtain ⟨pieces, rfl, rfl, each⟩ := others
  exact ⟨(entry, first) :: pieces, rfl, rfl, List.forall_mem_cons.mpr ⟨rewritten, each⟩⟩

theorem RewrittenAll.block {entries results : List Statement}
    (all : RewrittenAll new entries results) (span : Span) :
    Rewritten new false (.block span entries) [.block span results] := by
  obtain ⟨pieces, rfl, rfl, each⟩ := all
  exact .block span pieces each

theorem DrawsOn.of_expression {entry : Statement} {span : Span} {value : Expr}
    (obeys : ∀ rule : NameRule, rule.Admits new → entry.Obeys rule → value.Obeys rule) :
    entry.DrawsOn new (.expression span value) :=
  ⟨rfl, fun rule admits own => obeys_expression.mpr (obeys rule admits own)⟩

theorem IsSite.isSimple {position : CallPosition} {uses : List Use} {context : Expr → Statement}
    (site : IsSite position uses context) (value : Expr) : (context value).isSimple := by
  cases site <;> rfl

theorem IsSite.obeys {position : CallPosition} {uses : List Use} {context : Expr → Statement}
    (site : IsSite position uses context) {rule : NameRule} {call : Expr}
    (obeys : (context call).Obeys rule) :
    call.Obeys rule ∧ ∀ value : Expr, value.Obeys rule → (context value).Obeys rule := by
  cases site with
  | whole place =>
    exact ⟨obeys_expression.mp obeys, fun _ holds => obeys_expression.mpr holds⟩
  | assigned place span left =>
    have parts := Expr.obeys_binary.mp (obeys_expression.mp obeys)
    exact ⟨parts.2, fun _ holds => obeys_expression.mpr (Expr.obeys_binary.mpr ⟨parts.1, holds⟩)⟩
  | thrownAway place span target isVoid =>
    have parts := Expr.obeys_cast.mp (obeys_expression.mp obeys)
    exact ⟨parts.2, fun _ holds => obeys_expression.mpr (Expr.obeys_cast.mpr ⟨parts.1, holds⟩)⟩
  | returned place => exact ⟨obeys_return.mp obeys, fun _ holds => obeys_return.mpr holds⟩

end Statement

/-! ## Uses and their scopes -/

/-- Every use of a known name among occurrences stands among others too, in the same scope, and
outside of blocks only if it did. -/
def Occurrence.Kept {σ : Type} (known : String → Bool) (results entries : List (Occurrence σ)) :
    Prop :=
  ∀ result ∈ results, known result.use.name →
    ∃ entry ∈ entries, entry.use = result.use ∧ entry.scope = result.scope ∧
      (entry.inBlock → result.inBlock)

namespace Occurrence.Kept

variable {σ : Type} {known : String → Bool} {results entries others otherEntries : List (Occurrence σ)}

theorem refl (entries : List (Occurrence σ)) : Kept known entries entries :=
  fun result member _ => ⟨result, member, rfl, rfl, id⟩

theorem trans (former : Kept known entries others) (latter : Kept known results entries) :
    Kept known results others := by
  intro result member isKnown
  obtain ⟨entry, found, sameUse, sameScope, placed⟩ := latter result member isKnown
  obtain ⟨source, stands, sourceUse, sourceScope, stood⟩ := former entry found (sameUse ▸ isKnown)
  exact ⟨source, stands, sourceUse.trans sameUse, sourceScope.trans sameScope,
    fun inBlock => placed (stood inBlock)⟩

theorem append (former : Kept known results entries) (latter : Kept known others otherEntries) :
    Kept known (results ++ others) (entries ++ otherEntries) := by
  intro result member isKnown
  rcases List.mem_append.mp member with member | member
  · obtain ⟨entry, found, same⟩ := former result member isKnown
    exact ⟨entry, List.mem_append_left _ found, same⟩
  · obtain ⟨entry, found, same⟩ := latter result member isKnown
    exact ⟨entry, List.mem_append_right _ found, same⟩

end Occurrence.Kept

namespace Statement

variable {σ : Type} (scoping : Scoping σ) {known : String → Bool} {new : Word → Prop}

theorem map_fst_ownUses {statement : Statement} (plain : statement.isPlain) :
    statement.ownUses.map Prod.fst = statement.simpleUses := by
  cases statement with
  | expression span value => exact value.map_fst_statementUses
  | returnStatement span value =>
    cases value with
    | none => rfl
    | some value => exact value.map_fst_placedUses _
  | _ => cases plain

theorem exists_inBlock {statement : Statement} {inBlock : Bool} (other : Bool) {scope : σ}
    {occurrence : Occurrence σ} (member : occurrence ∈ statement.occurrences scoping inBlock scope) :
    ∃ placed ∈ statement.occurrences scoping other scope, placed.use = occurrence.use ∧
      placed.scope = occurrence.scope ∧ (placed.inBlock → (other → inBlock) → occurrence.inBlock) := by
  cases plain : statement.isPlain with
  | true =>
    rw [occurrences_of_plain scoping plain] at member ⊢
    obtain ⟨placed, among, rfl⟩ := List.mem_map.mp member
    exact ⟨_, List.mem_map_of_mem among, rfl, rfl, fun isOther same => same isOther⟩
  | false =>
    rw [occurrences_of_not_plain scoping plain] at member ⊢
    exact ⟨occurrence, member, rfl, rfl, fun stands _ => stands⟩

theorem listOccurrences_of_simple {statements : List Statement}
    (simple : ∀ statement ∈ statements, statement.isSimple) (scope : σ) :
    listScopeAfter scoping scope statements = scope ∧ ∀ occurrence ∈ listOccurrences scoping scope statements,
        occurrence.scope = scope ∧ occurrence.inBlock ∧
          ∃ statement ∈ statements, occurrence.use ∈ statement.simpleUses := by
  induction statements with
  | nil => exact ⟨rfl, fun _ member => absurd member List.not_mem_nil⟩
  | cons first rest ih =>
    obtain ⟨firstSimple, restSimple⟩ := List.forall_mem_cons.mp simple
    obtain ⟨sameScope, inside⟩ := ih restSimple
    have own : first.scopeAfter scoping scope = scope := by
      cases first with
      | expression | returnStatement | gotoStatement => rfl
      | _ => cases firstSimple
    refine ⟨by rw [listScopeAfter, List.foldl_cons, own]; exact sameScope, ?_⟩
    intro occurrence member
    rw [listOccurrences, own, List.mem_append] at member
    rcases member with member | member
    · cases plain : first.isPlain with
      | true =>
        rw [occurrences_of_plain scoping plain] at member
        obtain ⟨placed, among, rfl⟩ := List.mem_map.mp member
        refine ⟨rfl, rfl, first, List.mem_cons_self, ?_⟩
        rw [← map_fst_ownUses plain]
        exact List.mem_map_of_mem among
      | false =>
        cases first with
        | gotoStatement => cases member
        | expression | returnStatement => cases plain
        | _ => cases firstSimple
    · obtain ⟨same, inBlock, statement, found, used⟩ := inside occurrence member
      exact ⟨same, inBlock, statement, List.mem_cons_of_mem _ found, used⟩

/-- What a statement becomes leaves the scope behind it, and every use of a known name in it stands
where it stood. -/
structure Keeps (known : String → Bool) (entry : Statement) (results : List Statement) : Prop where
  plain : entry.isPlain = false → ∀ result ∈ results, result.isPlain = false
  scope : ∀ scope, listScopeAfter scoping scope results = entry.scopeAfter scoping scope
  uses : ∀ scope, Occurrence.Kept known (listOccurrences scoping scope results)
    (entry.occurrences scoping true scope)

/-- What one statement becomes that stays one. -/
structure KeepsOne (known : String → Bool) (entry result : Statement) : Prop where
  plain : entry.isPlain = false → result.isPlain = false
  scope : ∀ scope, result.scopeAfter scoping scope = entry.scopeAfter scoping scope
  uses : ∀ inBlock scope, Occurrence.Kept known (result.occurrences scoping inBlock scope)
    (entry.occurrences scoping inBlock scope)

variable {scoping} {entry result : Statement}

theorem Keeps.one (keeps : entry.Keeps scoping known [result]) : entry.KeepsOne scoping known result where
  plain notPlain := keeps.plain notPlain result (List.mem_singleton_self _)
  scope := keeps.scope
  uses inBlock scope := by
    have inside := keeps.uses scope
    rw [listOccurrences, listOccurrences, List.append_nil] at inside
    cases plain : entry.isPlain with
    | false =>
      have resultPlain := keeps.plain plain result (List.mem_singleton_self _)
      rw [occurrences_of_not_plain scoping plain, occurrences_of_not_plain scoping resultPlain]
        at inside ⊢
      exact inside
    | true =>
      intro occurrence member isKnown
      obtain ⟨placed, found, samePlaced, sameScope, stands⟩ := exists_inBlock scoping true member
      obtain ⟨source, stood, sourceUse, sourceScope, sourceStands⟩ :=
        inside placed found (samePlaced ▸ isKnown)
      rw [occurrences_of_plain scoping plain] at stood ⊢
      obtain ⟨given, among, rfl⟩ := List.mem_map.mp stood
      exact ⟨_, List.mem_map_of_mem among, sourceUse.trans samePlaced, sourceScope.trans sameScope,
        fun here => stands (sourceStands rfl) fun _ => here⟩

theorem KeepsOne.keeps (keeps : entry.KeepsOne scoping known result) :
    entry.Keeps scoping known [result] where
  plain notPlain := List.forall_mem_singleton.mpr (keeps.plain notPlain)
  scope := keeps.scope
  uses scope := by
    rw [listOccurrences, listOccurrences, List.append_nil]
    exact keeps.uses true scope

theorem keeps_pieces {pieces : List (Statement × List Statement)}
    (each : ∀ piece ∈ pieces, piece.1.Keeps scoping known piece.2) (scope : σ) :
    Occurrence.Kept known (listOccurrences scoping scope (pieces.flatMap Prod.snd))
      (listOccurrences scoping scope (pieces.map Prod.fst)) := by
  induction pieces generalizing scope with
  | nil => exact .refl _
  | cons first rest ih =>
    obtain ⟨keeps, others⟩ := List.forall_mem_cons.mp each
    rw [List.flatMap_cons, listOccurrences_append, keeps.scope, List.map_cons, listOccurrences]
    exact (keeps.uses scope).append (ih others _)

theorem Rewritten.keeps (unknown : ∀ name, new (.value name) → known name = false)
    {inBlock : Bool} {results : List Statement} (rewritten : Rewritten new inBlock entry results) :
    entry.Keeps scoping known results := by
  induction rewritten with
  | kept _ ih => exact ih
  | same statement => exact KeepsOne.keeps ⟨id, fun _ => rfl, fun _ _ => .refl _⟩
  | replaced plain drawn =>
    next entry results =>
    have simple := fun result member => (drawn result member).simple
    refine ⟨fun notPlain => ?_, fun scope => ?_, fun scope result member isKnown => ?_⟩
    · rw [plain] at notPlain
      cases notPlain
    · rw [(listOccurrences_of_simple scoping simple scope).1, scopeAfter_of_plain scoping _ plain]
    · obtain ⟨sameScope, inBlock, statement, found, used⟩ :=
        (listOccurrences_of_simple scoping simple scope).2 result member
      let rule : NameRule := ⟨fun _ => True, fun used => known used.name → used ∈ entry.simpleUses⟩
      have admits : rule.Admits new := by
        refine ⟨fun _ _ => trivial, fun used isNew isKnown => ?_⟩
        rw [unknown _ isNew] at isKnown
        cases isKnown
      have own : entry.Obeys rule :=
        ⟨fun _ _ _ _ => trivial, fun _ member _ => member⟩
      have stood := ((drawn statement found).obeys rule admits own).uses _ used isKnown
      rw [← map_fst_ownUses plain] at stood
      obtain ⟨placed, among, same⟩ := List.mem_map.mp stood
      rw [occurrences_of_plain scoping plain]
      exact ⟨_, List.mem_map_of_mem among, same, sameScope.symm, fun _ => inBlock⟩
  | block span pieces each ih =>
    exact KeepsOne.keeps ⟨fun _ => rfl, fun _ => rfl, fun _ scope => keeps_pieces ih (scoping.enter scope)⟩
  | ifThen span condition inside ih =>
    exact KeepsOne.keeps ⟨fun _ => rfl, ih.one.scope, fun _ scope =>
      (Occurrence.Kept.refl _).append (ih.one.uses false scope)⟩
  | ifElse span condition inside other ih otherIh =>
    refine KeepsOne.keeps ⟨fun _ => rfl, fun scope => ?_, fun _ scope => ?_⟩
    · rw [scopeAfter, scopeAfter, ih.one.scope, otherIh.one.scope]
    · rw [occurrences, occurrences, ih.one.scope]
      exact (Occurrence.Kept.refl _).append ((ih.one.uses false scope).append (otherIh.one.uses false _))
  | whileLoop span condition inside ih | bareLoop span condition update inside ih
  | switch span subject inside ih | caseLabel span value inside ih =>
    exact KeepsOne.keeps ⟨fun _ => rfl, ih.one.scope, fun _ scope =>
      (Occurrence.Kept.refl _).append (ih.one.uses false scope)⟩
  | forLoop span condition update head inside headIh ih =>
    refine KeepsOne.keeps ⟨fun _ => rfl, fun _ => rfl, fun _ scope => ?_⟩
    rw [occurrences, occurrences, headIh.one.scope]
    exact (headIh.one.uses false _).append ((Occurrence.Kept.refl _).append (ih.one.uses false _))
  | doWhile span condition inside ih =>
    refine KeepsOne.keeps ⟨fun _ => rfl, ih.one.scope, fun _ scope => ?_⟩
    rw [occurrences, occurrences, ih.one.scope]
    exact (ih.one.uses false scope).append (.refl _)
  | defaultLabel span inside ih | labelled span label inside ih =>
    exact KeepsOne.keeps ⟨fun _ => rfl, ih.one.scope, fun _ scope => ih.one.uses false scope⟩

/-! ## Several passes -/

def Rewrites (new : Word → Prop) : Statement → Statement → Prop :=
  Relation.ReflTransGen fun entry result => Rewritten new false entry [result]

theorem Rewrites.within {word : Word → Prop} (words : ∀ given, new given → word given)
    (rewrites : Rewrites new entry result) (within : Within word entry.nodes) : Within word result.nodes := by
  induction rewrites with
  | refl => exact within
  | tail _ last ih => exact last.within words ih _ (List.mem_singleton_self _)

theorem Rewrites.keeps (unknown : ∀ name, new (.value name) → known name = false)
    (rewrites : Rewrites new entry result) : entry.KeepsOne scoping known result := by
  induction rewrites with
  | refl => exact ⟨id, fun _ => rfl, fun _ _ => .refl _⟩
  | @tail middle result _ last ih =>
    have keeps : middle.KeepsOne scoping known result := (last.keeps unknown).one
    exact ⟨fun notPlain => keeps.plain (ih.plain notPlain),
      fun scope => (keeps.scope scope).trans (ih.scope scope),
      fun inBlock scope => (ih.uses inBlock scope).trans (keeps.uses inBlock scope)⟩

end Statement

end InlineMacro
