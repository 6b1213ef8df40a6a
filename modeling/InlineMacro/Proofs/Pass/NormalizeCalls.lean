import InlineMacro.Proofs.Analysis.Census
import InlineMacro.Proofs.Pass.NormalForm

/-!
# Calls behind the normal form

When a block is put into order, each of its other statements sees all names that it saw before, and
perhaps more. So a call in statement position that is visible in normal form was visible before, in
the same place or in the first value of an object.
-/

set_option autoImplicit false

namespace InlineMacro

/-! ## Wider scopes -/

/-- More names are those of local objects. -/
structure LocalNames.Within (locals wider : LocalNames) : Prop where
  opened : locals.frames ≠ []
  openedWider : wider.frames ≠ []
  contains : ∀ name, locals.contains name → wider.contains name

namespace LocalNames.Within

variable {locals wider : LocalNames}

theorem refl (opened : locals.frames ≠ []) : locals.Within locals :=
  ⟨opened, opened, fun _ contains => contains⟩

theorem enter (within : locals.Within wider) : locals.enter.Within wider.enter :=
  ⟨List.cons_ne_nil _ _, List.cons_ne_nil _ _, within.contains⟩

theorem declare (within : locals.Within wider) (declaration : Declaration) :
    (locals.declare declaration).Within (wider.declare declaration) where
  opened := frames_declare_ne_nil within.opened declaration
  openedWider := frames_declare_ne_nil within.openedWider declaration
  contains name contains := by
    rw [contains_declare within.opened, Bool.or_eq_true] at contains
    rw [contains_declare within.openedWider, Bool.or_eq_true]
    exact contains.imp_right (within.contains name)

theorem widen (within : locals.Within wider) (declaration : Declaration) :
    locals.Within (wider.declare declaration) where
  opened := within.opened
  openedWider := frames_declare_ne_nil within.openedWider declaration
  contains name contains := by
    rw [contains_declare within.openedWider, within.contains name contains, Bool.or_true]

theorem declareAll (within : locals.Within wider) (declarations : List Declaration) :
    (declarations.foldl LocalNames.declare locals).Within (declarations.foldl LocalNames.declare wider) := by
  induction declarations generalizing locals wider with
  | nil => exact within
  | cons first rest ih => exact ih (within.declare first)

theorem widenAll (within : locals.Within wider) (declarations : List Declaration) :
    locals.Within (declarations.foldl LocalNames.declare wider) := by
  induction declarations generalizing wider with
  | nil => exact within
  | cons first rest ih => exact ih (within.widen first)

theorem absorb (within : locals.Within wider) {declaration : Declaration}
    (known : isLocal declaration → wider.contains declaration.name) :
    (locals.declare declaration).Within wider where
  opened := frames_declare_ne_nil within.opened declaration
  openedWider := within.openedWider
  contains name contains := by
    rw [contains_declare within.opened, Bool.or_eq_true, Bool.and_eq_true, beq_iff_eq,
      ← Bindings.isLocal_iff] at contains
    rcases contains with ⟨rfl, isLocal⟩ | contains
    · exact known isLocal
    · exact within.contains name contains

theorem absorbAll (within : locals.Within wider) {declarations : List Declaration}
    (known : ∀ declaration ∈ declarations, isLocal declaration → wider.contains declaration.name) :
    (declarations.foldl LocalNames.declare locals).Within wider := by
  induction declarations generalizing locals with
  | nil => exact within
  | cons first rest ih =>
    exact ih (within.absorb (known first (by simp))) fun declaration member =>
      known declaration (by simp [member])

theorem trans {widest : LocalNames} (within : locals.Within wider) (further : wider.Within widest) :
    locals.Within widest :=
  ⟨within.opened, further.openedWider, fun name contains =>
    further.contains name (within.contains name contains)⟩

end LocalNames.Within

theorem LocalNames.contains_foldl_declare {locals : LocalNames} (opened : locals.frames ≠ [])
    {declarations : List Declaration} {declaration : Declaration}
    (member : declaration ∈ declarations) (isLocal : isLocal declaration) :
    (declarations.foldl declare locals).contains declaration.name := by
  induction declarations generalizing locals with
  | nil => cases member
  | cons first rest ih =>
    have openedNext := frames_declare_ne_nil opened first
    rcases List.mem_cons.mp member with rfl | member
    · refine (Within.refl openedNext).widenAll rest |>.contains _ ?_
      rw [contains_declare opened, ← Bindings.isLocal_iff, isLocal]
      simp
    · exact ih openedNext member

variable {statement : Statement}

theorem Statement.Braced.scopeAfter_within (braced : statement.Braced)
    {locals wider : LocalNames} (within : locals.Within wider) :
    (statement.scopeAfter .locals locals).Within (statement.scopeAfter .locals wider) := by
  rw [braced.scopeAfter_eq, braced.scopeAfter_eq]
  exact within.declareAll statement.declared

theorem Statement.Braced.ofDeclares (declares : statement.isDeclaration) : statement.Braced := by
  cases statement with
  | declaration span declarations => exact .declaration span declarations
  | typeDefinition span type => exact .typeDefinition span type
  | _ => cases declares

variable {statements : List Statement}

theorem Statement.listScopeAfter_widen
    (each : ∀ statement ∈ statements, statement.Braced) {locals wider : LocalNames}
    (within : locals.Within wider) : locals.Within (Statement.listScopeAfter .locals wider statements) := by
  induction statements generalizing wider with
  | nil => exact within
  | cons first rest ih =>
    refine ih (fun statement member => each statement (by simp [member])) ?_
    rw [(each first (by simp)).scopeAfter_eq]
    exact within.widenAll first.declared

/-! ## Occurrences with a source -/

/-- An occurrence in normal form stands for one before: at least the same names hide it, and it is
in the same place unless the other one was in none. -/
structure Occurrence.StandsFor (result entry : Occurrence LocalNames) : Prop where
  use : result.use = entry.use
  scope : ∀ name, entry.scope.contains name → result.scope.contains name
  place : entry.place = .elsewhere ∨ result.place = entry.place

def Occurrence.Traced (results entries : List (Occurrence LocalNames)) : Prop :=
  ∀ result ∈ results, result.isPositioned → ∃ entry ∈ entries, result.StandsFor entry

namespace Occurrence.Traced

variable {results entries : List (Occurrence LocalNames)}

theorem append {others otherEntries : List (Occurrence LocalNames)} (first : Traced results entries)
    (second : Traced others otherEntries) : Traced (results ++ others) (entries ++ otherEntries) := by
  intro result member positioned
  rcases List.mem_append.mp member with member | member
  · obtain ⟨entry, found, stands⟩ := first result member positioned
    exact ⟨entry, List.mem_append_left _ found, stands⟩
  · obtain ⟨entry, found, stands⟩ := second result member positioned
    exact ⟨entry, List.mem_append_right _ found, stands⟩

theorem mono {wider : List (Occurrence LocalNames)} (traced : Traced results entries)
    (subset : entries ⊆ wider) : Traced results wider := by
  intro result member positioned
  obtain ⟨entry, found, stands⟩ := traced result member positioned
  exact ⟨entry, subset found, stands⟩

theorem of_unpositioned (none : ∀ result ∈ results, result.isPositioned = false) :
    Traced results entries := by
  intro result member positioned
  rw [none result member] at positioned
  cases positioned

theorem elsewhereAt (scope : LocalNames) (uses : List Use) :
    Traced (Occurrence.elsewhereAt scope uses) entries := by
  refine of_unpositioned fun result member => ?_
  obtain ⟨use, -, rfl⟩ := List.mem_map.mp member
  rfl

theorem placedAt {locals wider : LocalNames} (within : locals.Within wider) (inBlock : Bool)
    (uses : List (Use × UsePlace)) :
    Traced (Occurrence.placedAt wider inBlock uses) (Occurrence.placedAt locals inBlock uses) := by
  intro result member positioned
  obtain ⟨placed, found, rfl⟩ := List.mem_map.mp member
  exact ⟨_, List.mem_map_of_mem found, rfl, within.contains, .inr rfl⟩

end Occurrence.Traced

variable {σ : Type}

theorem Declaration.listOccurrences_unpositioned (scoping : Scoping σ)
    (declarations : List Declaration) (scope : σ) :
    ∀ occurrence ∈ Declaration.listOccurrences scoping scope declarations,
      occurrence.isPositioned = false := by
  induction declarations generalizing scope with
  | nil => exact fun _ member => absurd member List.not_mem_nil
  | cons first rest ih =>
    intro occurrence member
    simp only [Declaration.listOccurrences, Declaration.occurrences, Occurrence.elsewhereAt,
      List.mem_append, List.mem_map] at member
    rcases member with (⟨use, -, rfl⟩ | ⟨use, -, rfl⟩) | member
    · rfl
    · rfl
    · exact ih _ occurrence member

theorem Statement.IsLoopHead.unpositioned (head : statement.IsLoopHead) (scoping : Scoping σ) (scope : σ) :
    ∀ occurrence ∈ statement.occurrences scoping false scope, occurrence.isPositioned = false := by
  intro occurrence member
  cases head with
  | expression span value =>
    obtain ⟨placed, -, rfl⟩ := List.mem_map.mp member
    rfl
  | declaration span declarations =>
    exact Declaration.listOccurrences_unpositioned scoping declarations scope occurrence member
  | typeDefinition span type =>
    obtain ⟨use, -, rfl⟩ := List.mem_map.mp member
    rfl

theorem Statement.unpositioned_of_isDeclaration
    (declares : statement.isDeclaration) (scoping : Scoping σ) (inBlock : Bool)
    (scope : σ) : ∀ occurrence ∈ statement.occurrences scoping inBlock scope,
      occurrence.isPositioned = false := by
  cases statement with
  | declaration span declarations =>
    exact (IsLoopHead.declaration span declarations).unpositioned scoping scope
  | typeDefinition span type => exact (IsLoopHead.typeDefinition span type).unpositioned scoping scope
  | _ => cases declares

def Statement.SplitTraced (entry : Statement) : Prop :=
  ∀ (inBlock : Bool) (locals wider : LocalNames), locals.Within wider →
    Occurrence.Traced (entry.splitDeclarations.occurrences .locals inBlock wider)
      (entry.occurrences .locals inBlock locals)

/-! ## A block in order -/

namespace BlockParts

def Extends (parts : BlockParts) (base wider : LocalNames) : Prop :=
  base.Within wider ∧ ∀ statement ∈ parts.leading ++ parts.hoisted,
    ∀ declared ∈ statement.declared, LocalNames.isLocal declared → wider.contains declared.name

/-- What is in statement position among the rest, in any scope behind the declarations in front,
stands for one of the occurrences before, and the scope at the end is wider than the one before. -/
structure Traces (base : LocalNames) (parts : BlockParts) (found : List (Occurrence LocalNames))
    (current : LocalNames) : Prop where
  declares : ∀ statement ∈ parts.leading ++ parts.hoisted, statement.isDeclaration
  braced : ∀ statement ∈ parts.rest.map Prod.snd, statement.Braced
  traced : ∀ wider, parts.Extends base wider →
    Occurrence.Traced (Statement.listOccurrences .locals wider (parts.rest.map Prod.snd)) found
  within : ∀ wider, parts.Extends base wider →
    current.Within (Statement.listScopeAfter .locals wider (parts.rest.map Prod.snd))

variable {base current : LocalNames} {parts : BlockParts} {found : List (Occurrence LocalNames)}

theorem traces_nothing : Traces base {} [] base where
  declares _ member := absurd member List.not_mem_nil
  braced _ member := absurd member List.not_mem_nil
  traced _ _ _ member := absurd member List.not_mem_nil
  within _ extended := extended.1

theorem Traces.infront (traces : Traces base parts found current) (result : BlockParts)
    (declarations : List Declaration) (uses : List (Occurrence LocalNames)) (sameRest : result.rest = parts.rest)
    (declares : ∀ statement ∈ result.leading ++ result.hoisted, statement.isDeclaration)
    (further : parts.leading ++ parts.hoisted ⊆ result.leading ++ result.hoisted)
    (known : ∀ declared ∈ declarations, LocalNames.isLocal declared →
      ∃ statement ∈ result.leading ++ result.hoisted, ∃ other ∈ statement.declared,
        LocalNames.isLocal other ∧ other.name = declared.name) :
    Traces base result (found ++ uses) (declarations.foldl LocalNames.declare current) := by
  have before {wider : LocalNames} (extended : result.Extends base wider) : parts.Extends base wider :=
    ⟨extended.1, fun statement member => extended.2 statement (further member)⟩
  refine ⟨declares, sameRest ▸ traces.braced, fun wider extended => ?_, fun wider extended => ?_⟩
  · rw [sameRest]
    exact (traces.traced wider (before extended)).mono (List.subset_append_left _ _)
  · rw [sameRest]
    refine (traces.within wider (before extended)).absorbAll fun declared member isLocal => ?_
    obtain ⟨statement, among, other, declaredThere, otherLocal, same⟩ :=
      known declared member isLocal
    have contained := extended.2 statement among other declaredThere otherLocal
    rw [same] at contained
    have opened := extended.1.openedWider
    exact (Statement.listScopeAfter_widen traces.braced (.refl opened)).contains _ contained

theorem Traces.behind (traces : Traces base parts found current) (result : BlockParts)
    (entry becomes : Statement) (sameLeading : result.leading = parts.leading)
    (sameHoisted : result.hoisted = parts.hoisted)
    (rest : result.rest = parts.rest ++ [(entry, becomes)]) (braced : becomes.Braced)
    {uses : List (Occurrence LocalNames)} {after : LocalNames} (traced : ∀ wider, current.Within wider →
      Occurrence.Traced (becomes.occurrences .locals true wider) uses)
    (within : ∀ wider, current.Within wider → after.Within (becomes.scopeAfter .locals wider)) :
    Traces base result (found ++ uses) after := by
  have before {wider : LocalNames} (extended : result.Extends base wider) :
      parts.Extends base wider := by
    unfold Extends at extended
    rw [sameLeading, sameHoisted] at extended
    exact extended
  refine ⟨by rw [sameLeading, sameHoisted]; exact traces.declares, ?_, ?_, ?_⟩
  · intro statement member
    rw [rest, List.map_append, List.mem_append] at member
    rcases member with member | member
    · exact traces.braced statement member
    · rw [List.mem_singleton.mp member]
      exact braced
  · intro wider extended
    rw [rest, List.map_append, Statement.listOccurrences_append]
    refine (traces.traced wider (before extended)).append ?_
    change Occurrence.Traced (becomes.occurrences .locals true _ ++ []) uses
    rw [List.append_nil]
    exact traced _ (traces.within wider (before extended))
  · intro wider extended
    rw [rest, List.map_append, Statement.listScopeAfter, List.foldl_append]
    exact within _ (traces.within wider (before extended))

theorem Traces.hoist (traces : Traces base parts found current) (declared : Declaration)
    (uses : List (Occurrence LocalNames)) :
    Traces base (parts.hoist declared) (found ++ uses) (current.declare declared) := by
  have named : ∀ other ∈ [declared], LocalNames.isLocal other →
      ∃ statement ∈ (parts.hoist declared).leading ++ (parts.hoist declared).hoisted,
        ∃ there ∈ statement.declared, LocalNames.isLocal there ∧ there.name = other.name := by
    intro other member isLocal
    rw [List.mem_singleton.mp member] at isLocal ⊢
    exact ⟨.ofDeclaration declared, by simp [BlockParts.hoist], declared, List.mem_singleton_self _,
      isLocal, rfl⟩
  refine traces.infront _ [declared] uses rfl ?_ ?_ named
  · intro statement member
    simp only [BlockParts.hoist, ← List.append_assoc, List.mem_append, List.mem_singleton] at member
    rcases member with member | rfl
    · exact traces.declares statement (List.mem_append.mpr member)
    · rfl
  · simp [BlockParts.hoist, ← List.append_assoc]

theorem Traces.keep (traces : Traces base parts found current) (declared : Declaration)
    (uses : List (Occurrence LocalNames)) (canHoist : Bool) :
    Traces base { parts.keep (.ofDeclaration declared) with canHoist := canHoist } (found ++ uses)
      (current.declare declared) :=
  traces.behind { parts.keep (.ofDeclaration declared) with canHoist := canHoist }
    (.ofDeclaration declared) (.ofDeclaration declared) rfl rfl rfl (.declaration _ _)
    (fun wider _ => .of_unpositioned (Statement.unpositioned_of_isDeclaration rfl .locals true wider))
    fun _ within => within.declare declared

theorem Traces.addDeclaration (traces : Traces base parts found current) (declared : Declaration) :
    Traces base (parts.addDeclaration declared)
      (found ++ declared.occurrences .locals current) (current.declare declared) := by
  unfold BlockParts.addDeclaration
  split
  · split
    · exact traces.hoist declared _
    · next span value initialized =>
      have hoisted := traces.hoist { declared with initializer := none } []
      rw [List.append_nil] at hoisted
      -- What is assigned was the first value of the declared object, which was in scope there.
      let assigned : Statement := .expression declared.span
        (.assignment (.identifier declared.span declared.name) value)
      refine hoisted.behind
        ((parts.hoist { declared with initializer := none }).keep assigned) assigned assigned
        rfl rfl rfl (.expression _ _) (fun wider within => ?_) fun wider within => within
      intro result member positioned
      obtain ⟨placed, among, rfl⟩ := List.mem_map.mp member
      rw [Expr.assignment, Expr.statementUses, List.mem_append] at among
      rcases among with left | right
      · obtain ⟨use, -, rfl⟩ := List.mem_map.mp left
        cases positioned
      · have used : placed.1 ∈ value.uses := by
          rw [← Expr.map_fst_placedUses (.call .assigned) value]
          exact List.mem_map_of_mem right
        refine ⟨⟨placed.1, .elsewhere, false, current.declare declared⟩, ?_, rfl, within.contains, .inl rfl⟩
        rw [Declaration.occurrences, initialized]
        exact List.mem_append_right _ (List.mem_map_of_mem used)
    · exact traces.keep declared _ _
  · exact traces.keep declared _ _

theorem Traces.addDeclarations (traces : Traces base parts found current) (declarations : List Declaration) :
    Traces base (declarations.foldl BlockParts.addDeclaration parts)
      (found ++ Declaration.listOccurrences .locals current declarations)
      (declarations.foldl LocalNames.declare current) := by
  induction declarations generalizing parts found current with
  | nil => simpa [Declaration.listOccurrences] using traces
  | cons first rest ih =>
    have next := ih (traces.addDeclaration first)
    rw [List.append_assoc] at next
    exact next

theorem Traces.lead (traces : Traces base parts found current) {entry : Statement}
    (declares : entry.isDeclaration) (uses : List (Occurrence LocalNames)) :
    Traces base { parts with leading := parts.leading ++ [entry] } (found ++ uses)
      (entry.declared.foldl LocalNames.declare current) := by
  refine traces.infront _ entry.declared uses rfl ?_ ?_ ?_
  · intro statement member
    simp only [List.mem_append, List.mem_singleton] at member
    rcases member with (member | rfl) | member
    · exact traces.declares statement (List.mem_append_left _ member)
    · exact declares
    · exact traces.declares statement (List.mem_append_right _ member)
  · intro statement member
    simp only [List.mem_append, List.mem_singleton] at member ⊢
    exact member.imp_left .inl
  · intro declared member isLocal
    exact ⟨entry, by simp, declared, member, isLocal, rfl⟩

theorem Traces.add (traces : Traces base parts found current) {entry : Statement}
    (braced : entry.Braced) (split : entry.SplitTraced) :
    Traces base (parts.add entry entry.splitDeclarations)
      (found ++ entry.occurrences .locals true current) (entry.scopeAfter .locals current) := by
  unfold BlockParts.add
  split
  · next span declarations =>
    split
    · exact traces.lead rfl _
    · have started : Traces base { parts with inLeading := false } found current :=
        ⟨traces.declares, traces.braced, traces.traced, traces.within⟩
      exact started.addDeclarations declarations
  · next notDeclaration =>
    have declaresNone : entry.declared = [] := by
      cases entry with
      | declaration span declarations => exact absurd rfl (notDeclaration span declarations)
      | _ => rfl
    rw [braced.scopeAfter_eq, declaresNone]
    split
    · next leads =>
      have led := traces.lead (Bool.and_eq_true _ _ ▸ leads).2 (entry.occurrences .locals true current)
      rw [declaresNone] at led
      exact led
    · refine traces.behind
        { parts with
          inLeading := false
          canHoist := parts.canHoist && !entry.isDeclaration
          rest := parts.rest ++ [(entry, entry.splitDeclarations)] }
        entry entry.splitDeclarations rfl rfl rfl braced.splitDeclarations
        (fun wider within => split true current wider within) fun wider within => ?_
      rw [braced.splitDeclarations.scopeAfter_eq]
      exact within.widenAll _

theorem Traces.addAll (traces : Traces base parts found current) {entries : List Statement}
    (each : ∀ entry ∈ entries, entry.Braced ∧ entry.SplitTraced) :
    Traces base (entries.foldl (fun parts entry => parts.add entry entry.splitDeclarations) parts)
      (found ++ Statement.listOccurrences .locals current entries)
      (Statement.listScopeAfter .locals current entries) := by
  induction entries generalizing parts found current with
  | nil =>
    rw [Statement.listOccurrences, List.append_nil]
    exact traces
  | cons first rest ih =>
    obtain ⟨braced, split⟩ := each first (by simp)
    have next := ih (traces.add braced split) fun entry member => each entry (by simp [member])
    rw [List.append_assoc] at next
    exact next

end BlockParts

theorem Statement.unpositioned_of_declarations
    (declares : ∀ statement ∈ statements, statement.isDeclaration) (scope : LocalNames) :
    ∀ occurrence ∈ Statement.listOccurrences .locals scope statements, occurrence.isPositioned = false := by
  induction statements generalizing scope with
  | nil => exact fun _ member => absurd member List.not_mem_nil
  | cons first rest ih =>
    intro occurrence member
    rcases List.mem_append.mp member with member | member
    · exact Statement.unpositioned_of_isDeclaration (declares first (by simp)) _ _ _ occurrence member
    · exact ih (fun statement member => declares statement (by simp [member])) _ occurrence member

theorem Statement.contains_listScopeAfter
    (declares : ∀ statement ∈ statements, statement.isDeclaration) {scope : LocalNames}
    (opened : scope.frames ≠ []) (member : statement ∈ statements)
    {declared : Declaration} (among : declared ∈ statement.declared) (isLocal : LocalNames.isLocal declared) :
    (Statement.listScopeAfter .locals scope statements).contains declared.name := by
  have braced : ∀ statement ∈ statements, statement.Braced :=
    fun statement found => .ofDeclares (declares statement found)
  induction statements generalizing scope with
  | nil => cases member
  | cons first rest ih =>
    have later : ∀ statement ∈ rest, statement.Braced :=
      fun statement found => braced statement (by simp [found])
    have openedNext : (first.scopeAfter .locals scope).frames ≠ [] :=
      ((braced first (by simp)).scopeAfter_within (.refl opened)).opened
    rcases List.mem_cons.mp member with rfl | member
    · refine (Statement.listScopeAfter_widen later (.refl openedNext)).contains _ ?_
      rw [(braced statement (by simp)).scopeAfter_eq]
      exact LocalNames.contains_foldl_declare opened among isLocal
    · exact ih (fun statement found => declares statement (by simp [found])) openedNext member later

theorem splitBlock_traced {entries : List Statement}
    (each : ∀ entry ∈ entries, entry.Braced ∧ entry.SplitTraced) {locals wider : LocalNames}
    (within : locals.Within wider) : Occurrence.Traced (Statement.listOccurrences .locals wider
        (splitBlock entries (Statement.splitDeclarationsList entries)))
      (Statement.listOccurrences .locals locals entries) := by
  have traces := (BlockParts.traces_nothing : BlockParts.Traces locals {} [] locals).addAll each
  rw [splitBlock_eq_foldl]
  generalize entries.foldl (fun parts entry => parts.add entry entry.splitDeclarations)
    ({} : BlockParts) = parts at traces ⊢
  rw [BlockParts.statements, Statement.listOccurrences_append]
  have infront : parts.Extends locals
      (Statement.listScopeAfter .locals wider (parts.leading ++ parts.hoisted)) := by
    refine ⟨?_, fun statement member declared among isLocal =>
      Statement.contains_listScopeAfter traces.declares within.openedWider member among isLocal⟩
    exact within.trans (Statement.listScopeAfter_widen
      (fun statement member => .ofDeclares (traces.declares statement member))
      (.refl within.openedWider))
  have front : Occurrence.Traced (Statement.listOccurrences .locals wider
      (parts.leading ++ parts.hoisted)) [] :=
    .of_unpositioned (Statement.unpositioned_of_declarations traces.declares wider)
  exact front.append (traces.traced _ infront)

/-- In any wider scope, the positioned calls of a statement with its declarations first stand for
calls of the statement. -/
theorem Statement.Braced.splitTraced (braced : statement.Braced) : statement.SplitTraced := by
  have behind {body : Statement} (isBlock : body.isBlock) (scope : LocalNames) :
      body.splitDeclarations.scopeAfter .locals scope = scope :=
    Statement.scopeAfter_of_isBlock _ _ (body.isBlock_splitDeclarations.trans isBlock)
  induction braced with
  | expression span value => exact fun inBlock locals wider within => .placedAt within inBlock _
  | block span entries each ih =>
    intro inBlock locals wider within
    exact splitBlock_traced (fun entry member => ⟨each entry member, ih entry member⟩) within.enter
  | declaration span declarations =>
    exact fun _ _ wider _ => .of_unpositioned
      (Declaration.listOccurrences_unpositioned .locals declarations wider)
  | typeDefinition span type => exact fun _ _ wider _ => .elsewhereAt wider type.uses
  | ifElse span condition thenBranch elseBranch thenBlock elseBlock _ _ thenIh elseIh =>
    intro inBlock locals wider within
    simp only [Statement.splitDeclarations, Statement.occurrences, behind thenBlock,
      Statement.scopeAfter_of_isBlock _ _ thenBlock]
    exact .append (.elsewhereAt _ _)
      ((thenIh false locals wider within).append (elseIh false locals wider within))
  | whileLoop _ _ _ _ _ ih | bareLoop _ _ _ _ _ _ ih | switch _ _ _ _ _ ih | caseLabel _ _ _ _ _ ih =>
    exact fun _ locals wider within => .append (.elsewhereAt _ _) (ih false locals wider within)
  | forLoop span init condition update body head bodyBlock _ ih =>
    intro inBlock locals wider within
    rw [Statement.splitDeclarations, Statement.splitDeclarations_of_head head]
    refine .append (.of_unpositioned (head.unpositioned .locals _)) (.append (.elsewhereAt _ _) ?_)
    exact ih false _ _ (head.braced.scopeAfter_within within.enter)
  | doWhile span body condition bodyBlock _ ih =>
    exact fun _ locals wider within => .append (ih false locals wider within) (.elsewhereAt _ _)
  | defaultLabel _ _ _ _ ih | labelled _ _ _ _ _ ih => exact fun _ => ih false
  | returnStatement span value => exact fun inBlock locals wider within => .placedAt within inBlock _
  | breakStatement | continueStatement | gotoStatement | empty =>
    exact fun _ _ _ _ _ member => absurd member List.not_mem_nil

theorem Function.normalize_traced {function : Function} (heads : function.body.HasLoopHeads) :
    Occurrence.Traced (function.normalize.occurrences .locals) (function.braced.occurrences .locals) := by
  refine .append (.elsewhereAt _ _) ?_
  exact (Statement.braced_brace function.body heads).splitTraced false _ _ (.refl (List.cons_ne_nil _ _))

end InlineMacro
