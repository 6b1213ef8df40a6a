/-!
# Wildcards

Patterns of names: a star stands for any text, a question mark for any character, and brackets for
one character of a set, or one outside it if an exclamation mark comes first. A character in quotes
stands for itself.
-/

set_option autoImplicit false

namespace InlineMacro.Wildcard

abbrev Character := Char × Bool

abbrev Range := Char × Char

/-- What a pattern is made of. -/
inductive Item where
  | anyText
  | anyCharacter
  | oneOf (isNegated : Bool) (ranges : List Range)
  | literal (character : Char)
deriving DecidableEq, Inhabited, Repr

/-- The ranges in the text of a set. -/
def rangesOf : List Character → List Range
  | (low, _) :: ('-', _) :: (high, _) :: rest => (low, high) :: rangesOf rest
  | (member, _) :: rest => (member, member) :: rangesOf rest
  | [] => []

/-- The set behind an opening bracket, and what follows its closing bracket. A set has a member, so a
closing bracket that comes first is one. -/
def set? (characters : List Character) : Option (Item × List Character) :=
  let (isNegated, body) := match characters with
    | ('!', false) :: rest => (true, rest)
    | _ => (false, characters)
  match body with
  | [] => none
  | first :: rest =>
    let others := rest.takeWhile fun character => character != (']', false)
    if others.length = rest.length then none
    else some (.oneOf isNegated (rangesOf (first :: others)), rest.drop (others.length + 1))

/-- The item at the start of a pattern, and what follows it; none if a bracket is never closed. -/
def item? : List Character → Option (Item × List Character)
  | [] => none
  | ('*', false) :: rest => some (.anyText, rest)
  | ('?', false) :: rest => some (.anyCharacter, rest)
  | ('[', false) :: rest => set? rest
  | (character, _) :: rest => some (.literal character, rest)

/-- The items of a pattern; a bracket that is never closed stands for itself. -/
def itemsFrom : Nat → List Character → List Item
  | 0, _ => []
  | _, [] => []
  | budget + 1, first :: rest =>
    match item? (first :: rest) with
    | some (item, rest) => item :: itemsFrom budget rest
    | none => .literal first.1 :: itemsFrom budget rest

def ofCharacters (characters : List Character) : List Item :=
  itemsFrom characters.length characters

def Item.literal? : Item → Option Char
  | literal character => some character
  | _ => none

def Item.holds (character : Char) : Item → Bool
  | anyText | anyCharacter => true
  | oneOf isNegated ranges =>
    (ranges.any fun range => range.1 ≤ character && character ≤ range.2) != isNegated
  | literal own => own = character

def anyEnd (condition : List Char → Bool) : List Char → Bool
  | [] => condition []
  | character :: rest => condition (character :: rest) || anyEnd condition rest

def hasForm : List Item → List Char → Bool
  | [], text => text.isEmpty
  | .anyText :: items, text => anyEnd (hasForm items) text
  | item :: items, character :: text => item.holds character && hasForm items text
  | _ :: _, [] => false

end InlineMacro.Wildcard
