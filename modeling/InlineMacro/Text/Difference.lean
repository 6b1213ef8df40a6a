import InlineMacro.Text.Lines

/-!
# Differences of texts

The lines in which two texts differ, and their usual form: hunks of changed lines with some
unchanged lines around them, each under a header that says which lines of the two texts it shows.
As many lines as possible are taken to be unchanged.
-/

set_option autoImplicit false

namespace InlineMacro.Difference

/-! ## Lines with their ends -/

/-- The lines of a text with their ends: a line feed, a carriage return, or both in the order carriage
return, line feed. -/
def linesWithEnds (current : List Char) : List Char → List (List Char)
  | [] => if current.isEmpty then [] else [current.reverse]
  | '\r' :: '\n' :: rest => ('\n' :: '\r' :: current).reverse :: linesWithEnds [] rest
  | character :: rest =>
    if character = '\r' || character = '\n' then
      (character :: current).reverse :: linesWithEnds [] rest
    else linesWithEnds (character :: current) rest

def linesOf (text : String) : List String :=
  (linesWithEnds [] text.toList).map String.ofList

/-! ## Common lines -/

/-- For a line of the first text before given ones: the numbers of lines that can be kept, for each end
of the second text. `below` has these numbers without the line. -/
def keptRow (line : String) : List String → List Nat → List Nat
  | [], _ => [0]
  | other :: others, below =>
    let row := keptRow line others below.tail
    let kept := if line = other then below.tail.headD 0 + 1 else max (row.headD 0) (below.headD 0)
    kept :: row

/-- The rows for all ends of the first text. -/
def keptTable (new : List String) : List String → List (List Nat)
  | [] => [new.map (fun _ => 0) ++ [0]]
  | line :: lines =>
    let table := keptTable new lines
    keptRow line new (table.headD []) :: table

/-- A line of either text. -/
inductive Edit where
  | keep (line : String)
  | remove (line : String)
  | add (line : String)
deriving DecidableEq, Inhabited, Repr

/-- The way from one text to another, along a table of how many lines can be kept. -/
def path (table : List (List Nat)) (old new : List String) : List Edit :=
  match old, new with
  | [], new => new.map .add
  | old, [] => old.map .remove
  | line :: lines, other :: others =>
    if line = other then
      .keep line :: path (table.tail.map List.tail) lines others
    else if (table.headD []).tail.headD 0 ≤ (table.tail.headD []).headD 0 then
      .remove line :: path table.tail lines (other :: others)
    else .add other :: path (table.map List.tail) (line :: lines) others
termination_by old.length + new.length

def edits (old new : List String) : List Edit := path (keptTable new old) old new

/-! ## Blocks and hunks -/

/-- A stretch of both texts: unchanged lines, or lines removed and lines added in their place. -/
structure Block where
  isKept : Bool
  oldStart : Nat
  newStart : Nat
  old : List String
  new : List String
deriving Inhabited, Repr

namespace Block

def oldStop (block : Block) : Nat := block.oldStart + block.old.length

def newStop (block : Block) : Nat := block.newStart + block.new.length

def after (block : Block) (isKept : Bool) : Block :=
  ⟨isKept, block.oldStop, block.newStop, [], []⟩

/-- Without lines at its start; for a block of unchanged lines. -/
def drop (count : Nat) (block : Block) : Block :=
  { block with
    oldStart := block.oldStart + min count block.old.length
    newStart := block.newStart + min count block.new.length
    old := block.old.drop count, new := block.new.drop count }

def take (count : Nat) (block : Block) : Block :=
  { block with old := block.old.take count, new := block.new.take count }

def push (block : Block) : Edit → Block
  | .keep line => { block with old := block.old ++ [line], new := block.new ++ [line] }
  | .remove line => { block with old := block.old ++ [line] }
  | .add line => { block with new := block.new ++ [line] }

end Block

def Edit.isKeep : Edit → Bool
  | keep _ => true
  | _ => false

def blocksFrom (current : Block) : List Edit → List Block
  | [] => [current]
  | edit :: edits =>
    if edit.isKeep = current.isKept then blocksFrom (current.push edit) edits
    else current :: blocksFrom ((current.after edit.isKeep).push edit) edits

def blocks (edits : List Edit) : List Block :=
  (blocksFrom ⟨true, 0, 0, [], []⟩ edits).filter fun block =>
    !(block.old.isEmpty && block.new.isEmpty)

def radius : Nat := 3

/-- The first block, if it is unchanged, without the lines that are far from its end. -/
def trimFirst : List Block → List Block
  | [] => []
  | block :: blocks =>
    if block.isKept then block.drop (block.old.length - radius) :: blocks else block :: blocks

/-- The last block, if it is unchanged, without the lines that are far from its start. -/
def trimLast : List Block → List Block
  | [] => []
  | [block] => [if block.isKept then block.take radius else block]
  | block :: blocks => block :: trimLast blocks

/-- Cuts blocks into groups, behind a group at work: in a long stretch of unchanged lines one group
ends and another starts. -/
def groupsFrom (current : List Block) : List Block → List (List Block)
  | [] => [current]
  | block :: blocks =>
    if block.isKept && block.old.length > 2 * radius then
      (current ++ [block.take radius]) ::
        groupsFrom [block.drop (block.old.length - radius)] blocks
    else groupsFrom (current ++ [block]) blocks

def hunks (blocks : List Block) : List (List Block) :=
  (groupsFrom [] (trimLast (trimFirst blocks))).filter fun group =>
    group.any fun block => !block.isKept

/-! ## Text -/

/-- A range of lines: its first line and its length, which is left out if it is one. An empty range
has the line before it. -/
def rangeText (start stop : Nat) : String :=
  let length := stop - start
  if length = 1 then toString (start + 1)
  else toString (if length = 0 then start else start + 1) ++ "," ++ toString length

def signedLine (sign line : String) : String :=
  let isEnded := line.toList.getLast?.any fun last => last == '\n' || last == '\r'
  sign ++ line ++ (if isEnded then "" else "\n\\ No newline at end of file\n")

/-- The lines of a block under their signs. -/
def Block.text (block : Block) : String :=
  if block.isKept then Text.join "" (block.old.map (signedLine " "))
  else
    Text.join "" (block.old.map (signedLine "-")) ++ Text.join "" (block.new.map (signedLine "+"))

def hunkText (hunk : List Block) : String :=
  match hunk.head?, hunk.getLast? with
  | some first, some last =>
    "@@ -" ++ rangeText first.oldStart last.oldStop ++ " +" ++
      rangeText first.newStart last.newStop ++ " @@\n" ++ Text.join "" (hunk.map Block.text)
  | _, _ => ""

/-- The difference of two texts under their names; nothing if they are equal. -/
def text (oldName newName old new : String) : String :=
  match hunks (blocks (edits (linesOf old) (linesOf new))) with
  | [] => ""
  | found =>
    "--- " ++ oldName ++ "\n+++ " ++ newName ++ "\n" ++ Text.join "" (found.map hunkText)

end InlineMacro.Difference
