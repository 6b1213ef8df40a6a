import InlineMacro.Parser.State
import InlineMacro.Syntax.Tree

/-!
# Declaration specifiers

The words in front of a declarator may come in any order. They are counted while they are read,
and the type is worked out at their end; where no word gives a type, it is `int`. The word `long`
is counted with eight bits.
-/

set_option autoImplicit false

namespace InlineMacro.Parser

/-- The words for arithmetic types that have been read. -/
structure TypeWords where
  void : Bool := false
  bool : Bool := false
  char : Bool := false
  short : Bool := false
  int : Bool := false
  longs : Nat := 0
  float : Bool := false
  double : Bool := false
  signed : Bool := false
  unsigned : Bool := false
deriving DecidableEq, Inhabited, Repr

namespace TypeWords

def any (words : TypeWords) : Bool :=
  words.void || words.bool || words.char || words.short || words.int || words.longs > 0 ||
    words.float || words.double || words.signed || words.unsigned

def add? (words : TypeWords) : Keyword → Option TypeWords
  | .kwVoid => some { words with void := true }
  | .kwBool => some { words with bool := true }
  | .kwChar => some { words with char := true }
  | .kwShort => some { words with short := true }
  | .kwInt => some { words with int := true }
  | .kwLong => some { words with longs := words.longs + 1 }
  | .kwFloat => some { words with float := true }
  | .kwDouble => some { words with double := true }
  | .kwSigned => some { words with signed := true }
  | .kwUnsigned => some { words with unsigned := true }
  | _ => none

def longBound : Nat := 256

def fits (words : TypeWords) : Bool := words.longs < longBound

def resolve (words : TypeWords) : BasicType :=
  if words.void then .void
  else if words.bool then .bool
  else if words.char then
    if words.unsigned then .unsignedChar else if words.signed then .signedChar else .char
  else if words.float then .float
  else if words.double then if words.longs > 0 then .longDouble else .double
  else if words.short then if words.unsigned then .unsignedShort else .short
  else if words.longs ≥ 2 then if words.unsigned then .unsignedLongLong else .longLong
  else if words.longs = 1 then if words.unsigned then .unsignedLong else .long
  else if words.unsigned then .unsignedInt
  else .int

end TypeWords

def addQualifier? (qualifiers : Qualifiers) : Keyword → Option Qualifiers
  | .kwConst => some { qualifiers with isConst := true }
  | .kwVolatile => some { qualifiers with isVolatile := true }
  | .kwRestrict => some { qualifiers with isRestrict := true }
  | _ => none

def storageOfKeyword? : Keyword → Option StorageClass
  | .kwTypedef => some .typeAlias
  | .kwExtern => some .external
  | .kwStatic => some .static
  | .kwAuto => some .auto
  | .kwRegister => some .register
  | _ => none

def qualifierRun (qualifiers : Qualifiers) : List Token → Qualifiers × List Token
  | [] => (qualifiers, [])
  | token :: rest =>
    match token.lexeme with
    | .keyword keyword =>
      match addQualifier? qualifiers keyword with
      | some qualifiers => qualifierRun qualifiers rest
      | none => (qualifiers, token :: rest)
    | _ => (qualifiers, token :: rest)

def qualifiers : Parse Qualifiers := do
  let state ← get
  let (found, rest) := qualifierRun {} state.tokens
  set { state with tokens := rest }
  pure found

/-- What has been read of the specifiers. -/
structure SpecifierWords where
  storage : Option StorageClass := none
  isInline : Bool := false
  qualifiers : Qualifiers := {}
  words : TypeWords := {}
  named : Option CType := none
  isEmpty : Bool := true

/-- What the specifiers of a declaration say. -/
structure Specifiers where
  storage : Option StorageClass
  isInline : Bool
  base : CType

namespace SpecifierWords

def hasType (read : SpecifierWords) : Bool := read.named.isSome || read.words.any

def addKeyword? (read : SpecifierWords) (keyword : Keyword) : Option SpecifierWords :=
  match storageOfKeyword? keyword with
  | some storage => some { read with storage := some storage, isEmpty := false }
  | none =>
    match addQualifier? read.qualifiers keyword with
    | some qualifiers => some { read with qualifiers := qualifiers, isEmpty := false }
    | none =>
      match read.words.add? keyword with
      | some words => some { read with words := words, isEmpty := false }
      | none =>
        if keyword = .kwInline then some { read with isInline := true, isEmpty := false } else none

def base (read : SpecifierWords) : CType :=
  let type := read.named.getD (.basic read.words.resolve)
  if read.qualifiers.isEmpty then type else .qualified read.qualifiers type

end SpecifierWords

/-- The three keywords with which a type with a body starts. -/
inductive BodiedType where
  | record (kind : RecordKind)
  | enumeration
deriving DecidableEq, Repr

def bodiedTypeOfKeyword? : Keyword → Option BodiedType
  | .kwStruct => some (.record .struct)
  | .kwUnion => some (.record .union)
  | .kwEnum => some .enumeration
  | _ => none

/-- Takes one more specifier, if one stands here. -/
def specifierStep (bodied : BodiedType → Parse CType) (read : SpecifierWords) :
    Parse (Option SpecifierWords) := do
  let state ← get
  match state.lexeme? with
  | some (.keyword keyword) =>
    match bodiedTypeOfKeyword? keyword with
    | some kind =>
      if read.hasType then pure none
      else
        discard advance
        return some { read with named := some (← bodied kind), isEmpty := false }
    | none =>
      match read.addKeyword? keyword with
      | some read =>
        if read.words.fits then
          discard advance
          pure (some read)
        else throw .overflow
      | none => pure none
  | some (.identifier name) =>
    if !read.hasType && state.isTypedef name then
      discard advance
      pure (some { read with named := some (.named name), isEmpty := false })
    else pure none
  | _ => pure none

/-- Takes the specifiers that stand here; there has to be at least one. -/
def specifiers (bodied : BodiedType → Parse CType) (budget : Nat) : Parse Specifiers := do
  let start ← location
  let read ← iterateWithin (specifierStep bodied) budget {}
  if read.isEmpty then
    match (← get).tokens with
    | token :: _ => unexpected "declaration specifiers" (some token)
    | [] => fault start (.endOfFile "declaration specifiers")
  else pure ⟨read.storage, read.isInline, read.base⟩

end InlineMacro.Parser
