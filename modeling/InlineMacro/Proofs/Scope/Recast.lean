import InlineMacro.Proofs.Scope.Standing

/-!
# Statements recast in their places

A pass over a body puts statements in the places of plain ones in the blocks, by a rule, and leaves
alone what is around them. So the blocks inside a statement are recast one by one, each in its scope.
-/

set_option autoImplicit false

namespace InlineMacro

namespace Statement

/-! ## Statements and what is inside -/

/-- The statements inside a statement: those of a block, or the bodies of a branch or a loop. What a
loop starts with belongs to its head. -/
def bodies : Statement → List Statement
  | .block _ statements => statements
  | .ifElse _ _ thenBranch none => [thenBranch]
  | .ifElse _ _ thenBranch (some elseBranch) => [thenBranch, elseBranch]
  | .whileLoop _ _ body | .forLoop _ _ _ _ body | .doWhile _ body _ | .switch _ _ body => [body]
  | .caseLabel _ _ statement | .defaultLabel _ statement | .labelled _ _ statement => [statement]
  | _ => []

def withBodies (bodies : List Statement) : Statement → Statement
  | .block span _ => .block span bodies
  | .ifElse span condition _ none => .ifElse span condition (bodies.headD (.empty span)) none
  | .ifElse span condition _ (some _) =>
    .ifElse span condition (bodies.headD (.empty span)) (some (bodies.tail.headD (.empty span)))
  | .whileLoop span condition _ => .whileLoop span condition (bodies.headD (.empty span))
  | .forLoop span init condition update _ =>
    .forLoop span init condition update (bodies.headD (.empty span))
  | .doWhile span _ condition => .doWhile span (bodies.headD (.empty span)) condition
  | .switch span subject _ => .switch span subject (bodies.headD (.empty span))
  | .caseLabel span value _ => .caseLabel span value (bodies.headD (.empty span))
  | .defaultLabel span _ => .defaultLabel span (bodies.headD (.empty span))
  | .labelled span label _ => .labelled span label (bodies.headD (.empty span))
  | statement => statement

def bodyScope {σ : Type} (scoping : Scoping σ) (scope : σ) : Statement → σ
  | .block _ _ => scoping.enter scope
  | .forLoop _ (some init) _ _ _ => init.scopeAfter scoping (scoping.enter scope)
  | _ => scope

theorem inductBodies {motive : Statement → Prop}
    (step : ∀ statement, (∀ body ∈ statement.bodies, motive body) → motive statement)
    (statement : Statement) : motive statement := by
  induction statement with
  | block span statements each => exact step _ each
  | ifElse span condition thenBranch elseBranch thenHolds elseHolds =>
    exact step _ (by simpa [bodies] using ⟨thenHolds, elseHolds⟩)
  | forLoop span init condition update body _ holds => exact step _ (by simpa [bodies] using holds)
  | ifThen _ _ _ holds | whileLoop _ _ _ holds | bareLoop _ _ _ _ holds | doWhile _ _ _ holds
  | switch _ _ _ holds | caseLabel _ _ _ holds | defaultLabel _ _ holds | labelled _ _ _ holds =>
    exact step _ (by simpa [bodies] using holds)
  | _ => exact step _ (by simp [bodies])

section WithBodies

variable (statement : Statement) (statements : List Statement)

theorem withBodies_bodies : statement.withBodies statement.bodies = statement := by
  cases statement with
  | ifElse span condition thenBranch elseBranch => cases elseBranch <;> rfl
  | _ => rfl

theorem withBodies_withBodies (others : List Statement) :
    (statement.withBodies statements).withBodies others = statement.withBodies others := by
  cases statement with
  | ifElse span condition thenBranch elseBranch => cases elseBranch <;> rfl
  | _ => rfl

theorem isPlain_withBodies : (statement.withBodies statements).isPlain = statement.isPlain := by
  cases statement with
  | ifElse span condition thenBranch elseBranch => cases elseBranch <;> rfl
  | _ => rfl

theorem bodyScope_withBodies {σ : Type} (scoping : Scoping σ) (scope : σ) :
    (statement.withBodies statements).bodyScope scoping scope = statement.bodyScope scoping scope := by
  induction statement <;> rfl

end WithBodies

theorem isPlain_of_isBlock {statement : Statement} (isBlock : statement.isBlock) :
    statement.isPlain = false := by
  cases statement with
  | block span statements => rfl
  | _ => cases isBlock

theorem listStanding_singleton {σ : Type} {scoping : Scoping σ} {statement : Statement}
    (isBlock : statement.isBlock) (scope : σ) :
    listStanding scoping scope [statement] = statement.standing scoping false scope := by
  rw [listStanding, listStanding, List.append_nil, standing_of_not_plain (isPlain_of_isBlock isBlock) true]

theorem isPlain_of_isMarked {statement : Statement} (marked : statement.isMarked) :
    statement.isPlain = false := by
  cases statement with
  | expression | returnStatement => cases marked
  | _ => rfl

namespace Braced

variable {statement : Statement}

theorem bodies (braced : statement.Braced) : ∀ body ∈ statement.bodies, body.Braced := by
  cases braced with
  | block span statements each => exact each
  | ifElse _ _ thenBranch elseBranch _ _ thenBraced elseBraced =>
    simpa [Statement.bodies] using ⟨thenBraced, elseBraced⟩
  | forLoop span init condition update body head bodyBlock bodyBraced =>
    simpa [Statement.bodies] using bodyBraced
  | whileLoop _ _ _ _ braced | bareLoop _ _ _ _ _ braced | doWhile _ _ _ _ braced
  | switch _ _ _ _ braced | caseLabel _ _ _ _ braced | defaultLabel _ _ _ braced
  | labelled _ _ _ _ braced => simpa [Statement.bodies] using braced
  | _ => simp [Statement.bodies]

theorem notPlain_bodies (braced : statement.Braced) (notBlock : statement.isBlock = false) :
    ∀ body ∈ statement.bodies, body.isPlain = false := by
  cases braced with
  | block span statements each => cases notBlock
  | ifElse _ _ thenBranch elseBranch thenBlock elseBlock =>
    simpa [Statement.bodies] using ⟨isPlain_of_isBlock thenBlock, isPlain_of_isBlock elseBlock⟩
  | whileLoop _ _ _ isBlock | bareLoop _ _ _ _ isBlock | forLoop _ _ _ _ _ _ isBlock
  | doWhile _ _ _ isBlock | switch _ _ _ isBlock =>
    simpa [Statement.bodies] using isPlain_of_isBlock isBlock
  | caseLabel _ _ _ marked | defaultLabel _ _ marked | labelled _ _ _ marked =>
    simpa [Statement.bodies] using isPlain_of_isMarked marked
  | _ => simp [Statement.bodies]

theorem standing_withBodies {σ : Type} (scoping : Scoping σ) (braced : statement.Braced)
    (notPlain : statement.isPlain = false) {bodies : List Statement}
    (fits : (statement.withBodies bodies).bodies = bodies)
    (inside : statement.isBlock = false → ∀ body ∈ bodies, body.isPlain = false) (scope : σ) :
    (statement.withBodies bodies).standing scoping false scope =
      Statement.listStanding scoping (statement.bodyScope scoping scope) bodies := by
  have one {body : Statement} (same : [body] = bodies)
      (among : ∀ body ∈ bodies, body.isPlain = false) (scope : σ) :
      body.standing scoping false scope = Statement.listStanding scoping scope bodies := by
    subst same
    rw [listStanding, listStanding, List.append_nil,
      standing_of_not_plain (among body (by simp)) true]
  cases braced with
  | block span statements each => rfl
  | expression | returnStatement => cases notPlain
  | ifElse span condition thenBranch elseBranch =>
    have among := inside rfl
    rw [← fits] at among ⊢
    simp only [Statement.withBodies, Statement.bodies, List.forall_mem_cons] at among
    simp only [Statement.withBodies, Statement.bodies, listStanding, standing, List.append_nil,
      standing_of_not_plain among.1, standing_of_not_plain among.2.1]
    rfl
  | forLoop span init condition update body head =>
    refine Eq.trans ?_ (one fits (inside rfl) _)
    simp [Statement.withBodies, standing, standing_of_head head, bodyScope]
  | whileLoop | bareLoop | doWhile | switch | caseLabel | defaultLabel | labelled =>
    simpa only [Statement.withBodies, standing, bodyScope] using one fits (inside rfl) scope
  | _ =>
    obtain rfl : [] = bodies := fits
    rfl

end Braced

end Statement

/-! ## Recasting by a rule -/

/-- Statements recast in a scope: plain ones by a rule, and the others around the statements inside
them, which are recast in the same way. -/
inductive Recast {σ α : Type} (scoping : Scoping σ) (rule : StatementRule σ α) :
    σ → List Statement → List α → List Statement → Prop where
  | nil (scope : σ) : Recast scoping rule scope [] [] []
  | plain {scope : σ} {entry : Statement} {made more : List α}
      {entries results others : List Statement} (isPlain : entry.isPlain)
      (becomes : rule scope entry made results) (arePlain : ∀ result ∈ results, result.isPlain)
      (rest : Recast scoping rule scope entries more others) :
      Recast scoping rule scope (entry :: entries) (made ++ more) (results ++ others)
  | around {scope : σ} {entry : Statement} {made more : List α}
      {entries bodies others : List Statement} (notPlain : entry.isPlain = false)
      (inside : Recast scoping rule (entry.bodyScope scoping scope) entry.bodies made bodies)
      (fits : (entry.withBodies bodies).bodies = bodies)
      (sameScope : ∀ scope,
        (entry.withBodies bodies).scopeAfter scoping scope = entry.scopeAfter scoping scope)
      (rest : Recast scoping rule (entry.scopeAfter scoping scope) entries more others) :
      Recast scoping rule scope (entry :: entries) (made ++ more)
        (entry.withBodies bodies :: others)

namespace Recast

variable {σ α : Type} {scoping : Scoping σ} {rule next : StatementRule σ α} {scope : σ}
  {entries results : List Statement} {made more : List α}

theorem append {first second firstResults secondResults : List Statement}
    (former : Recast scoping rule scope first made firstResults)
    (latter : Recast scoping rule (Statement.listScopeAfter scoping scope first) second more secondResults) :
    Recast scoping rule scope (first ++ second) (made ++ more) (firstResults ++ secondResults) := by
  induction former with
  | nil scope => exact latter
  | plain isPlain becomes arePlain _ ih =>
    rw [Statement.listScopeAfter, List.foldl_cons, Statement.scopeAfter_of_plain _ _ isPlain] at latter
    rw [List.cons_append, List.append_assoc, List.append_assoc]
    exact .plain isPlain becomes arePlain (ih latter)
  | around notPlain inside fits sameScope _ _ ih =>
    rw [List.cons_append, List.append_assoc]
    exact .around notPlain inside fits sameScope (ih latter)

theorem split {first second : List Statement}
    (recast : Recast scoping rule scope (first ++ second) made results) :
    ∃ firstMade secondMade firstResults secondResults, made = firstMade ++ secondMade ∧
      results = firstResults ++ secondResults ∧ Recast scoping rule scope first firstMade firstResults ∧
          Recast scoping rule (Statement.listScopeAfter scoping scope first) second secondMade
            secondResults := by
  induction first generalizing scope made results with
  | nil => exact ⟨[], made, [], results, rfl, rfl, .nil scope, recast⟩
  | cons entry first ih =>
    cases recast with
    | plain isPlain becomes arePlain rest =>
      obtain ⟨restMade, secondMade, restResults, secondResults, rfl, rfl, former, latter⟩ := ih rest
      refine ⟨_, secondMade, _, secondResults, (List.append_assoc ..).symm,
        (List.append_assoc ..).symm, .plain isPlain becomes arePlain former, ?_⟩
      rwa [Statement.listScopeAfter, List.foldl_cons, Statement.scopeAfter_of_plain _ _ isPlain]
    | around notPlain inside fits sameScope rest =>
      obtain ⟨restMade, secondMade, restResults, secondResults, rfl, rfl, former, latter⟩ := ih rest
      exact ⟨_, secondMade, _, secondResults, (List.append_assoc ..).symm, rfl,
        .around notPlain inside fits sameScope former, latter⟩

theorem single {entry : Statement} {bodies : List Statement} (notPlain : entry.isPlain = false)
    (inside : Recast scoping rule (entry.bodyScope scoping scope) entry.bodies made bodies)
    (fits : (entry.withBodies bodies).bodies = bodies) (sameScope : ∀ scope,
      (entry.withBodies bodies).scopeAfter scoping scope = entry.scopeAfter scoping scope) :
    Recast scoping rule scope [entry] made [entry.withBodies bodies] := by
  simpa using around notPlain inside fits sameScope (.nil _)

theorem refl (stays : ∀ scope entry, entry.isPlain → rule scope entry [] [entry])
    (entries : List Statement) (scope : σ) : Recast scoping rule scope entries [] entries := by
  have all (entries : List Statement)
      (each : ∀ entry ∈ entries, ∀ scope, Recast scoping rule scope [entry] [] [entry]) (scope : σ) :
      Recast scoping rule scope entries [] entries := by
    induction entries generalizing scope with
    | nil => exact .nil scope
    | cons entry entries ih =>
      rw [List.forall_mem_cons] at each
      exact (each.1 scope).append (ih each.2 _)
  have one (entry : Statement) : ∀ scope, Recast scoping rule scope [entry] [] [entry] := by
    induction entry using Statement.inductBodies with
    | step entry each =>
      intro scope
      have same := entry.withBodies_bodies
      cases plain : entry.isPlain with
      | true => exact .plain plain (stays scope entry plain) (by simpa using plain) (.nil scope)
      | false =>
        have kept : Recast scoping rule scope [entry] [] [entry.withBodies entry.bodies] :=
          single plain (all entry.bodies each _) (congrArg Statement.bodies same)
            (fun scope => by rw [same])
        rwa [same] at kept
  exact all entries (fun entry _ => one entry) scope

theorem becomes_of_plain (plain : ∀ entry ∈ entries, entry.isPlain)
    (recast : Recast scoping rule scope entries made results) : (∀ result ∈ results, result.isPlain) ∧
      Becomes rule (entries.map (Prod.mk scope)) made (results.map (Prod.mk scope)) := by
  induction recast with
  | nil scope => exact ⟨by simp, .nil⟩
  | plain isPlain becomes arePlain _ ih =>
    rw [List.forall_mem_cons] at plain
    obtain ⟨othersPlain, others⟩ := ih plain.2
    refine ⟨List.forall_mem_append.mpr ⟨arePlain, othersPlain⟩, ?_⟩
    rw [List.map_append]
    exact .cons becomes others
  | around notPlain =>
    rw [List.forall_mem_cons, notPlain] at plain
    cases plain.1

theorem andThen {middle : List Statement} (former : Recast scoping rule scope entries made middle)
    (latter : Recast scoping next scope middle more results) : ∃ all, all.Perm (made ++ more) ∧
      Recast scoping (rule.andThen next) scope entries all results := by
  induction former generalizing more results with
  | nil scope =>
    cases latter
    exact ⟨[], .refl _, .nil scope⟩
  | @plain scope entry made others entries middle behind isPlain becomes arePlain rest ih =>
    obtain ⟨ownMore, restMore, ownLast, restLast, rfl, rfl, here, behindHere⟩ := latter.split
    rw [(Statement.listStanding_of_plain scoping arePlain scope).1] at behindHere
    obtain ⟨lastPlain, here⟩ := here.becomes_of_plain arePlain
    obtain ⟨all, perm, recast⟩ := ih behindHere
    refine ⟨(made ++ ownMore) ++ all, ?_, .plain isPlain ⟨made, middle, ownMore, becomes, here, rfl⟩
      lastPlain recast⟩
    have swap : (ownMore ++ others ++ restMore).Perm (others ++ ownMore ++ restMore) :=
      List.perm_append_comm.append_right restMore
    simpa using (perm.append_left (made ++ ownMore)).trans (by simpa using swap.append_left made)
  | @around scope entry made others entries bodies behind notPlain inside fits sameScope rest insideIh
      ih =>
    cases latter with
    | plain isPlain =>
      rw [Statement.isPlain_withBodies, notPlain] at isPlain
      cases isPlain
    | @around _ _ ownMore restMore _ lastBodies restLast _ latterInside latterFits latterScope behindHere =>
      rw [Statement.bodyScope_withBodies, fits] at latterInside
      rw [sameScope] at behindHere
      rw [Statement.withBodies_withBodies] at latterFits latterScope ⊢
      obtain ⟨own, ownPerm, insideBoth⟩ := insideIh latterInside
      obtain ⟨all, perm, recast⟩ := ih behindHere
      refine ⟨own ++ all, ?_, .around notPlain insideBoth latterFits
        (fun scope => (latterScope scope).trans (sameScope scope)) recast⟩
      have swap : (ownMore ++ others ++ restMore).Perm (others ++ ownMore ++ restMore) :=
        List.perm_append_comm.append_right restMore
      exact (ownPerm.append perm).trans (by simpa using swap.append_left made)

theorem notPlain (recast : Recast scoping rule scope entries made results)
    (notPlain : ∀ entry ∈ entries, entry.isPlain = false) : ∀ result ∈ results, result.isPlain = false := by
  induction recast with
  | nil => exact notPlain
  | plain isPlain =>
    rw [List.forall_mem_cons, isPlain] at notPlain
    cases notPlain.1
  | around first _ _ _ _ _ ih =>
    rw [List.forall_mem_cons] at notPlain ⊢
    exact ⟨(Statement.isPlain_withBodies _ _).trans first, ih notPlain.2⟩

section Braced

variable (recast : Recast scoping rule scope entries made results)
  (braced : ∀ entry ∈ entries, entry.Braced)

include recast braced

theorem becomes : Becomes rule (Statement.listStanding scoping scope entries) made
    (Statement.listStanding scoping scope results) := by
  induction recast with
  | nil => exact .nil
  | plain isPlain becomes arePlain _ ih =>
    rw [List.forall_mem_cons] at braced
    obtain ⟨sameScope, standing⟩ := Statement.listStanding_of_plain scoping arePlain _
    rw [Statement.listStanding, Statement.standing_of_plain isPlain,
      Statement.scopeAfter_of_plain _ _ isPlain, Statement.listStanding_append, standing, sameScope]
    exact .cons becomes (ih braced.2)
  | @around scope entry _ _ _ bodies _ notPlain inside fits sameScope _ insideIh ih =>
    rw [List.forall_mem_cons] at braced
    have before := braced.1.standing_withBodies scoping notPlain
      (congrArg Statement.bodies entry.withBodies_bodies) braced.1.notPlain_bodies scope
    rw [entry.withBodies_bodies] at before
    have after := braced.1.standing_withBodies scoping notPlain fits
      (fun notBlock => inside.notPlain (braced.1.notPlain_bodies notBlock)) scope
    rw [Statement.listStanding, Statement.listStanding, sameScope,
      Statement.standing_of_not_plain notPlain, before, Statement.standing_of_not_plain
        ((Statement.isPlain_withBodies entry bodies).trans notPlain), after]
    exact (insideIh braced.1.bodies).append (ih braced.2)

/-- Another rule can take the place of one whose results for the standing statements it allows, with
what is made for them in a relation to what was made before. -/
theorem translate {β : Type} {next : StatementRule σ β} {related : List α → List β → Prop}
    (nothing : related [] [])
    (together : ∀ {first second others more}, related first others → related second more →
      related (first ++ second) (others ++ more))
    (translates : ∀ site ∈ Statement.listStanding scoping scope entries, ∀ own results,
      own.Sublist made → rule site.1 site.2 own results →
        ∃ others, next site.1 site.2 others results ∧ related own others) :
    ∃ others, Recast scoping next scope entries others results ∧ related made others := by
  induction recast with
  | nil scope => exact ⟨[], .nil scope, nothing⟩
  | @plain scope entry made more entries results others isPlain becomes arePlain _ ih =>
    rw [List.forall_mem_cons] at braced
    rw [Statement.listStanding, Statement.standing_of_plain isPlain,
      Statement.scopeAfter_of_plain _ _ isPlain, List.singleton_append, List.forall_mem_cons]
      at translates
    obtain ⟨own, first, ownRelated⟩ := translates.1 _ _ (List.sublist_append_left _ _) becomes
    obtain ⟨all, rest, allRelated⟩ := ih braced.2 fun site member own results sublist =>
      translates.2 site member own results (sublist.trans (List.sublist_append_right _ _))
    exact ⟨own ++ all, .plain isPlain first arePlain rest, together ownRelated allRelated⟩
  | @around scope entry made more entries bodies others notPlain inside fits sameScope _ insideIh ih =>
    rw [List.forall_mem_cons] at braced
    have before := braced.1.standing_withBodies scoping notPlain
      (congrArg Statement.bodies entry.withBodies_bodies) braced.1.notPlain_bodies scope
    rw [entry.withBodies_bodies] at before
    rw [Statement.listStanding, Statement.standing_of_not_plain notPlain, before,
      List.forall_mem_append] at translates
    obtain ⟨own, first, ownRelated⟩ := insideIh braced.1.bodies fun site member own results sublist =>
      translates.1 site member own results (sublist.trans (List.sublist_append_left _ _))
    obtain ⟨all, rest, allRelated⟩ := ih braced.2 fun site member own results sublist =>
      translates.2 site member own results (sublist.trans (List.sublist_append_right _ _))
    exact ⟨own ++ all, .around notPlain first fits sameScope rest, together ownRelated allRelated⟩

theorem mono (weaker : ∀ site ∈ Statement.listStanding scoping scope entries, ∀ own results,
      own.Sublist made → rule site.1 site.2 own results → next site.1 site.2 own results) :
    Recast scoping next scope entries made results := by
  have translated : ∃ others, Recast scoping next scope entries others results ∧ made = others :=
    recast.translate braced rfl (fun first second => first ▸ second ▸ rfl)
      fun site member own results among holds =>
        ⟨own, weaker site member own results among holds, rfl⟩
  obtain ⟨others, weak, rfl⟩ := translated
  exact weak

end Braced

end Recast

end InlineMacro
