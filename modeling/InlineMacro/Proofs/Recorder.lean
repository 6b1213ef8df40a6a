import InlineMacro.Machine
import InlineMacro.Proofs.Association
import InlineMacro.Proofs.Registry
import InlineMacro.Proofs.Token.Spelling
import InlineMacro.Recorder

/-!
# Records in which nothing is written over

A snapshot goes to a place of the record that no snapshot before it has gone to. The number of the unit's
snapshots is spelled in every place, and the snapshots that one function has between two of the unit are
counted. A function whose directory cannot be made is not counted, but then nothing is written for it
either, so the answers of the system do not matter.
-/

set_option autoImplicit false

namespace InlineMacro

/-! ## Systems that are watched -/

section Watched

variable {m : Type → Type} [Monad m]

/-- Actions that keep the paths that they write to, the last one in front. -/
abbrev Watched (m : Type → Type) := StateT (List String) m

instance [Host m] : Host (Watched m) :=
  { (Host.lifted StateT.lift : Host (Watched m)) with
    writeFile := fun path text => do
      modify (path :: ·)
      StateT.lift (Host.writeFile path text) }

/-- Whatever an action meets with, its outcome has a property. -/
def Always {α : Type} (action : m α) (holds : α → Prop) : Prop :=
  ∃ checked : m {outcome : α // holds outcome}, Subtype.val <$> checked = action

namespace Always

variable [LawfulMonad m] {α β : Type} {holds : α → Prop}

theorem pure {value : α} (given : holds value) : Always (Pure.pure value : m α) holds :=
  ⟨Pure.pure ⟨value, given⟩, map_pure _ _⟩

theorem anything (action : m α) : Always action fun _ => True := by
  refine ⟨(fun value => ⟨value, trivial⟩) <$> action, ?_⟩
  rw [← comp_map]
  exact id_map action

theorem bind {action : m α} {next : α → m β} {after : β → Prop} (first : Always action holds)
    (rest : ∀ value, holds value → Always (next value) after) : Always (action >>= next) after := by
  obtain ⟨checked, rfl⟩ := first
  choose further same using fun value : {value : α // holds value} => rest value.1 value.2
  refine ⟨checked >>= further, ?_⟩
  rw [map_bind, bind_map_left]
  exact congrArg _ (funext same)

theorem mono {action : m α} {weaker : α → Prop} (always : Always action holds)
    (weakens : ∀ value, holds value → weaker value) : Always action weaker := by
  rw [← bind_pure action]
  exact always.bind fun value given => .pure (weakens value given)

end Always

variable [LawfulMonad m] [Host m] {post : Except String Unit × List String → Prop}

theorem Always.writeFile {path text : String} {journal : List String}
    (given : ∀ answer, post (answer, path :: journal)) :
    Always ((Host.writeFile path text : Watched m _).run journal) post := by
  change Always (Pure.pure (PUnit.unit, path :: journal) >>= fun kept =>
    (Host.writeFile path text : m _) >>= fun answer => Pure.pure (answer, kept.2)) post
  rw [pure_bind]
  exact (Always.anything _).bind fun answer _ => .pure (given answer)

theorem Always.createDirectories {path : String} {journal : List String}
    (given : ∀ answer, post (answer, journal)) :
    Always ((Host.createDirectories path : Watched m _).run journal) post := by
  change Always ((Host.createDirectories path : m _) >>= fun answer => Pure.pure (answer, journal)) post
  exact (Always.anything _).bind fun answer _ => .pure (given answer)

end Watched

/-! ## Paths -/

/-- A piece of a path: something stands in it, and no slash does. -/
structure Path.IsPiece (text : String) : Prop where
  filled : text ≠ ""
  noSlash : '/' ∉ text.toList

namespace Path

variable {text other rest further : String}

theorem IsPiece.toList_ne_nil (piece : IsPiece text) : text.toList ≠ [] :=
  fun none => piece.filled (String.toList_eq_nil_iff.mp none)

theorem IsPiece.not_isAbsolute (piece : IsPiece text) (behind : String) :
    isAbsolute (text ++ behind) = false := by
  rw [isAbsolute, beq_eq_false_iff_ne, String.toList_append, List.head?_append_of_ne_nil _ piece.toList_ne_nil]
  exact fun starts => piece.noSlash (List.mem_of_mem_head? starts)

/-- What stands in front of a piece that is taken from a directory. -/
def leading (directory : String) : String :=
  if directory.isEmpty then ""
  else if directory.toList.getLast? == some '/' then directory
  else directory ++ "/"

theorem join_eq (directory behind : String) (piece : IsPiece text) :
    join directory (text ++ behind) = leading directory ++ (text ++ behind) := by
  rw [join, leading, piece.not_isAbsolute, Bool.false_or]
  split
  · exact String.empty_append.symm
  · split <;> rfl

theorem join_piece (directory : String) (piece : IsPiece text) :
    join directory text = leading directory ++ text := by
  simpa using join_eq directory "" piece

theorem leading_append (front : String) (piece : IsPiece text) :
    leading (front ++ text) = front ++ text ++ "/" := by
  obtain ⟨last, isLast⟩ : ∃ last, text.toList.getLast? = some last :=
    ⟨_, List.getLast?_eq_some_getLast piece.toList_ne_nil⟩
  have ends : (front ++ text).toList.getLast? = some last := by
    rw [String.toList_append, List.getLast?_append, isLast, Option.some_or]
  have noSlash : (some last == some '/') = false := by
    rw [beq_eq_false_iff_ne]
    rintro ⟨⟩
    exact piece.noSlash (List.mem_of_getLast? isLast)
  have notEmpty : (front ++ text).isEmpty = false := by
    rw [← Bool.not_eq_true, String.isEmpty_iff, ← String.toList_eq_nil_iff, String.toList_append]
    exact fun none => piece.toList_ne_nil (List.append_eq_nil_iff.mp none).2
  rw [leading, notEmpty, ends, noSlash]
  rfl

theorem append_slash_injective (first : '/' ∉ text.toList) (second : '/' ∉ other.toList)
    (same : text ++ "/" ++ rest = other ++ "/" ++ further) : text = other ∧ rest = further := by
  have upToSlash {front behind : String} (noSlash : '/' ∉ front.toList) :
      (front ++ "/" ++ behind).toList.span (· != '/') = (front.toList, '/' :: behind.toList) := by
    have front_kept : ∀ character ∈ front.toList, (character != '/') = true := by
      intro character member
      rw [bne_iff_ne]
      rintro rfl
      exact noSlash member
    simp [List.span_eq_takeWhile_dropWhile, List.takeWhile_append_of_pos front_kept,
      List.dropWhile_append_of_pos front_kept]
  have parts := @upToSlash text rest first
  rw [same, upToSlash second] at parts
  obtain ⟨fronts, rests⟩ := Prod.mk.inj parts
  exact ⟨String.toList_inj.mp fronts.symm, String.toList_inj.mp (List.cons.inj rests).2.symm⟩

end Path

/-! ## Places in a record -/

theorem Registry.toString_append_injective {first second : Nat} {text other : String}
    (ends : EndsNumber text) (otherEnds : EndsNumber other)
    (same : toString first ++ text = toString second ++ other) : first = second ∧ text = other :=
  digits_append_injective ends otherEnds (by simpa using congrArg String.toList same)

namespace RecordPosition

open Path (IsPiece leading)

/-- The name of a file with a number in front. -/
def numberedFile (number : Nat) (title extension : String) : String :=
  toString number ++ "-" ++ title ++ extension

/-- The name of the directory for what comes behind so many snapshots of the unit. -/
def roundDirectory (count : Nat) : String := toString (count - 1) ++ "-" ++ toString count

variable {position : RecordPosition} {count other number : Nat} {title extension place : String}

theorem noSlash_toString (number : Nat) : '/' ∉ (toString number).toList := by
  intro member
  have digit : '/'.isDigit = true := by
    apply Nat.isDigit_of_mem_toDigits (b := 10) (n := number)
    · decide
    · decide
    · simpa using member
  exact absurd digit (by decide)

theorem isPiece_numberedFile (noSlash : '/' ∉ title.toList) (plain : '/' ∉ extension.toList) :
    IsPiece (numberedFile number title extension) := by
  constructor
  · simp [numberedFile]
  · have digits := noSlash_toString number
    simp_all [numberedFile]

theorem isPiece_roundDirectory (count : Nat) : IsPiece (roundDirectory count) := by
  constructor
  · simp [roundDirectory]
  · have first := noSlash_toString (count - 1)
    have second := noSlash_toString count
    simp_all [roundDirectory]

theorem endsNumber_hyphen (text : String) : Registry.EndsNumber ("-" ++ text) :=
  ⟨'-', text.toList, by simp, by decide⟩

theorem numberedFile_injective {otherTitle otherExtension : String}
    (same : numberedFile number title extension = numberedFile other otherTitle otherExtension) :
    number = other := by
  simp only [numberedFile, String.append_assoc] at same
  exact (Registry.toString_append_injective (endsNumber_hyphen _) (endsNumber_hyphen _) same).1

theorem roundDirectory_injective (same : roundDirectory count = roundDirectory other) : count = other := by
  simp only [roundDirectory, String.append_assoc] at same
  have counts := (Registry.toString_append_injective (endsNumber_hyphen _) (endsNumber_hyphen _) same).2
  have digits : toString count = toString other := by simpa using counts
  exact Registry.numbered_injective "" count other (congrArg ("" ++ "_" ++ ·) digits)

/-- Where a function's snapshot goes, inside the record. -/
def functionPlace (count number : Nat) (name title : String) : String :=
  roundDirectory count ++ "/" ++ (name ++ "/" ++ numberedFile number title ".txt")

theorem functionPlace_injective {name otherName otherTitle : String} {otherCount : Nat}
    (piece : IsPiece name) (otherPiece : IsPiece otherName)
    (same : functionPlace count number name title = functionPlace otherCount other otherName otherTitle) :
    count = otherCount ∧ name = otherName ∧ number = other := by
  obtain ⟨rounds, behind⟩ := Path.append_slash_injective (isPiece_roundDirectory count).noSlash
    (isPiece_roundDirectory otherCount).noSlash same
  obtain ⟨names, files⟩ := Path.append_slash_injective piece.noSlash otherPiece.noSlash behind
  exact ⟨roundDirectory_injective rounds, names, numberedFile_injective files⟩

theorem unit_ne_functionPlace {otherTitle name : String} (noSlash : '/' ∉ title.toList) :
    numberedFile number title ".c" ≠ functionPlace count other name otherTitle := by
  intro same
  have here : '/' ∈ (functionPlace count other name otherTitle).toList := by
    simp [functionPlace]
  rw [← same] at here
  exact (isPiece_numberedFile noSlash (by decide)).noSlash here

/-- A place that snapshots before the position can have gone to. -/
inductive IsBehind (position : RecordPosition) : String → Prop
  | unit {number : Nat} {title : String} (noSlash : '/' ∉ title.toList)
      (earlier : number < position.unitCount) : IsBehind position (numberedFile number title ".c")
  | function {count number : Nat} {name title : String} (piece : IsPiece name)
      (earlier : count < position.unitCount ∨
        count = position.unitCount ∧ number < position.functionCount name) :
      IsBehind position (functionPlace count number name title)

end RecordPosition

/-- A title without slashes, and a name that is spelled as a name of C for a function. -/
def Snapshot.IsNamed : Snapshot → Prop
  | .unit title _ | .text title _ => '/' ∉ title.toList
  | .function name title _ => Lexeme.isWord name.toList ∧ '/' ∉ title.toList

/-- Whether a snapshot is one of the unit. -/
def Snapshot.isOfUnit : Snapshot → Bool
  | .unit .. | .text .. => true
  | .function .. => false

theorem Path.isPiece_of_isWord {name : String} (isWord : Lexeme.isWord name.toList) : IsPiece name := by
  constructor
  · rintro rfl
    exact absurd isWord (by decide)
  · intro slash
    exact absurd (Lexer.isIdentifierCharacter_of_isWord isWord _ slash) (by decide)

namespace RecordPosition

open Path (IsPiece leading)

variable {position : RecordPosition} {snapshot : Snapshot}

/-- Where the next snapshot goes, inside the record. -/
def place (position : RecordPosition) : Snapshot → String
  | .unit title _ | .text title _ => numberedFile position.unitCount title ".c"
  | .function name title _ => functionPlace position.unitCount (position.functionCount name) name title

theorem functionCount_functionEntry (name title content other : String) (position : RecordPosition) :
    (position.functionEntry name title content).2.functionCount other =
      if other = name then position.functionCount name + 1 else position.functionCount other := by
  simp only [functionEntry, functionCount, Association.find?_insert]
  split <;> rfl

theorem not_isBehind_place (named : snapshot.IsNamed) : ¬ position.IsBehind (position.place snapshot) := by
  intro behind
  cases snapshot with
  | unit title | text title =>
    generalize same : position.place _ = place at behind
    cases behind with
    | unit noSlash earlier =>
      have := numberedFile_injective same
      omega
    | function => exact unit_ne_functionPlace named same
  | function name title =>
    generalize same : position.place _ = place at behind
    cases behind with
    | unit noSlash => exact unit_ne_functionPlace noSlash same.symm
    | function piece earlier =>
      obtain ⟨rfl, rfl, rfl⟩ := functionPlace_injective (Path.isPiece_of_isWord named.1) piece same
      omega

/-- Behind a snapshot the place that it went to lies behind, with all that lay there before. -/
theorem isBehind_entry {place : String} (named : snapshot.IsNamed)
    (behind : position.IsBehind place ∨ place = position.place snapshot) :
    (position.entry snapshot).2.IsBehind place := by
  cases snapshot with
  | unit title | text title =>
    rcases behind with behind | rfl
    · cases behind with
      | unit noSlash earlier => exact .unit noSlash (Nat.lt_succ_of_lt earlier)
      | function piece earlier => exact .function piece (.inl (by simp [entry, unitEntry]; omega))
    · exact .unit named (Nat.lt_succ_self _)
  | function name title =>
    rcases behind with behind | rfl
    · cases behind with
      | unit noSlash earlier => exact .unit noSlash earlier
      | function piece earlier =>
        refine .function piece (earlier.imp_right fun ⟨same, earlier⟩ => ⟨same, ?_⟩)
        rw [entry, functionCount_functionEntry]
        split
        · next isName =>
          rw [isName] at earlier
          omega
        · exact earlier
    · refine .function (Path.isPiece_of_isWord named.1) (.inr ⟨rfl, ?_⟩)
      rw [entry, functionCount_functionEntry, if_pos rfl]
      omega

end RecordPosition

/-- The path of an entry in a record. -/
def RecordEntry.path (root : String) (entry : RecordEntry) : String :=
  Path.join (entry.directory.elim root (Path.join root)) entry.file

theorem RecordPosition.path_entry (position : RecordPosition) {snapshot : Snapshot}
    (named : snapshot.IsNamed) (root : String) :
    (position.entry snapshot).1.path root = Path.leading root ++ position.place snapshot := by
  cases snapshot with
  | unit title | text title => exact Path.join_piece root (isPiece_numberedFile named (by decide))
  | function name title =>
    have file : Path.IsPiece (numberedFile (position.functionCount name) title ".txt") :=
      isPiece_numberedFile named.2 (by decide)
    have piece := Path.isPiece_of_isWord named.1
    have round := isPiece_roundDirectory position.unitCount
    have inner : position.functionDirectory name = roundDirectory position.unitCount ++ ("/" ++ name) := by
      have front := Path.leading_append "" round
      rw [String.empty_append] at front
      rw [functionDirectory, Path.join_piece _ piece, ← String.append_assoc]
      exact congrArg (· ++ name) front
    have outer : Path.join root (position.functionDirectory name) =
        Path.leading root ++ roundDirectory position.unitCount ++ "/" ++ name := by
      rw [inner, Path.join_eq root _ round]
      simp only [String.append_assoc]
    calc Path.join (Path.join root (position.functionDirectory name)) _
      _ = Path.leading (Path.join root (position.functionDirectory name)) ++
          numberedFile (position.functionCount name) title ".txt" := Path.join_piece _ file
      _ = Path.leading root ++ roundDirectory position.unitCount ++ "/" ++ name ++ "/" ++
          numberedFile (position.functionCount name) title ".txt" := by
        rw [outer, Path.leading_append _ piece]
      _ = Path.leading root ++ position.place (.function name title _) := by
        simp only [place, functionPlace, String.append_assoc]

/-! ## Runs of the recorder -/

namespace Recorder

variable {m : Type → Type} [Monad m] [LawfulMonad m] [Host m]

/-- Either an entry is written and its position taken, or nothing happens; that is so if nothing is
recorded, or if the entry has a directory, which could not be made. -/
theorem write_always (recorder : Recorder) (entered : RecordEntry × RecordPosition) (journal : List String) :
    Always ((recorder.write entered : Watched m Recorder).run journal) fun outcome =>
      outcome = (recorder, journal) ∧ (recorder.isEnabled → entered.1.directory.isSome) ∨
      ∃ root ∈ recorder.directory, outcome =
        ({ recorder with position := entered.2 }, entered.1.path root :: journal) := by
  obtain ⟨entry, position⟩ := entered
  unfold write
  cases enabled : recorder.directory with
  | none => exact .pure (.inl ⟨rfl, by simp [isEnabled, enabled]⟩)
  | some root =>
    simp only
    cases inside : entry.directory with
    | none =>
      have isPath : entry.path root = Path.join root entry.file := by rw [RecordEntry.path, inside]; rfl
      simp only [StateT.run_bind]
      refine Always.bind (?_ : Always _ fun outcome => outcome.2 = entry.path root :: journal) ?_
      · exact .writeFile fun answer => by rw [isPath]
      · intro outcome written
        exact .pure (.inr ⟨root, rfl, congrArg _ written⟩)
    | some inner =>
      have isPath : entry.path root = Path.join (Path.join root inner) entry.file := by
        rw [RecordEntry.path, inside]
        rfl
      simp only [StateT.run_bind]
      refine Always.bind (?_ : Always _ fun outcome => outcome.2 = journal) ?_
      · exact .createDirectories fun answer => rfl
      · rintro ⟨answer, behind⟩ rfl
        cases answer with
        | error reason => exact .pure (.inl ⟨rfl, fun _ => rfl⟩)
        | ok made =>
          simp only [StateT.run_bind]
          refine Always.bind (?_ : Always _ fun outcome => outcome.2 = entry.path root :: behind) ?_
          · exact .writeFile fun answer => by rw [isPath]
          · intro outcome written
            exact .pure (.inr ⟨root, rfl, congrArg _ written⟩)

/-- What has been written is behind the position, each path once. -/
structure Keeps (recorder : Recorder) (journal : List String) : Prop where
  unique : journal.Nodup
  behind : ∀ root ∈ recorder.directory, ∀ path ∈ journal,
    ∃ place, path = Path.leading root ++ place ∧ recorder.position.IsBehind place

theorem Keeps.written {recorder : Recorder} {journal : List String} (keeps : recorder.Keeps journal)
    {snapshot : Snapshot} (named : snapshot.IsNamed) {root : String} (isRoot : root ∈ recorder.directory) :
    Keeps { recorder with position := (recorder.position.entry snapshot).2 }
      ((recorder.position.entry snapshot).1.path root :: journal) := by
  rw [RecordPosition.path_entry _ named]
  constructor
  · refine List.nodup_cons.mpr ⟨fun member => ?_, keeps.unique⟩
    obtain ⟨place, same, behind⟩ := keeps.behind root isRoot _ member
    rw [← (String.append_right_inj _).mp same] at behind
    exact RecordPosition.not_isBehind_place named behind
  · intro other isOther path member
    obtain rfl := Option.mem_unique isRoot isOther
    rcases List.mem_cons.mp member with rfl | member
    · exact ⟨_, rfl, RecordPosition.isBehind_entry named (.inr rfl)⟩
    · obtain ⟨place, rfl, behind⟩ := keeps.behind root isRoot path member
      exact ⟨place, rfl, RecordPosition.isBehind_entry named (.inl behind)⟩

theorem recordAll_keeps {snapshots : List Snapshot} (named : ∀ snapshot ∈ snapshots, snapshot.IsNamed)
    {recorder : Recorder} {journal : List String} (keeps : recorder.Keeps journal) :
    Always ((recorder.recordAll snapshots : Watched m Recorder).run journal) fun outcome =>
      outcome.1.Keeps outcome.2 ∧ (recorder.isEnabled →
        journal.length + snapshots.countP Snapshot.isOfUnit ≤ outcome.2.length) := by
  induction snapshots generalizing recorder journal with
  | nil => exact .pure ⟨keeps, fun _ => Nat.le_refl _⟩
  | cons snapshot snapshots ih =>
    obtain ⟨own, others⟩ := List.forall_mem_cons.mp named
    rw [recordAll, StateT.run_bind]
    refine (recorder.write_always (recorder.position.entry snapshot) journal).bind ?_
    rintro outcome (⟨rfl, unwritten⟩ | ⟨root, isRoot, rfl⟩)
    · refine (ih others keeps).mono fun outcome ⟨kept, long⟩ => ⟨kept, fun enabled => ?_⟩
      have ofFunction : snapshot.isOfUnit = false := by
        cases snapshot with
        | unit | text => cases unwritten enabled
        | function => rfl
      rw [List.countP_cons_of_neg (by simp [ofFunction])]
      exact long enabled
    · refine (ih others (keeps.written own isRoot)).mono fun outcome ⟨kept, long⟩ => ⟨kept, fun enabled => ?_⟩
      have behind := long enabled
      rw [List.countP_cons]
      rw [List.length_cons] at behind
      split <;> omega

/-- Whatever the system answers, no two snapshots of a record are written to one path; and every snapshot of
the unit is written, if anything is recorded. -/
theorem recordAll_writesOnce (recorder : Recorder) {snapshots : List Snapshot}
    (named : ∀ snapshot ∈ snapshots, snapshot.IsNamed) :
    Always ((recorder.recordAll snapshots : Watched m Recorder).run []) fun outcome =>
      outcome.2.Nodup ∧
        (recorder.isEnabled → snapshots.countP Snapshot.isOfUnit ≤ outcome.2.length) := by
  have start : recorder.Keeps [] := ⟨List.nodup_nil, fun _ _ _ member => nomatch member⟩
  refine (recordAll_keeps named start).mono fun outcome ⟨kept, long⟩ => ⟨kept.unique, fun enabled => ?_⟩
  exact (Nat.zero_add _).symm.trans_le (long enabled)

/-- Snapshots of one function before the first of the unit, between two of them, and behind. -/
theorem recordAll_writesOnce_between_units :
    ∃ snapshots : List Snapshot, (∀ snapshot ∈ snapshots, snapshot.IsNamed) ∧
      snapshots.countP Snapshot.isOfUnit = 2 ∧
      Always ((recordAll { directory := some "run" } snapshots : Watched Machine.Action Recorder).run [])
        fun outcome => outcome.2.Nodup ∧ 2 ≤ outcome.2.length := by
  let definition : Function :=
    ⟨"f", .basic .void, [], false, .block .synthetic [], none, true, .synthetic⟩
  refine ⟨[.function "f" "input" definition, .text "input" "", .function "f" "renamed" definition,
    .function "f" "linearized" definition, .text "output" "", .function "f" "input" definition], ?_, rfl, ?_⟩
  · simp [Snapshot.IsNamed]
    decide
  · refine (recordAll_writesOnce (m := Machine.Action) _ ?_).mono fun outcome ⟨unique, long⟩ => ⟨unique, long rfl⟩
    simp [Snapshot.IsNamed]
    decide

end Recorder

end InlineMacro
