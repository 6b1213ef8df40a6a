/-!
# Bytes as text

Reading bytes as UTF-8. `decode` takes any bytes: where they go wrong, each longest piece that could
have started a character becomes one replacement character.
-/

set_option autoImplicit false

namespace InlineMacro.Text.Utf8

def replacement : Char := '\uFFFD'

/-- A character that has begun: what its bytes say so far, how many bytes are left, and the range
of the next one. -/
structure Pending where
  value : Nat
  left : Nat
  low : Nat := 0x80
  high : Nat := 0xBF
deriving DecidableEq, Inhabited, Repr

/-- What a byte begins that is no character by itself. The ranges of second bytes leave out long
forms of short characters, surrogates, and what lies beyond the last character. -/
def begun? (byte : Nat) : Option Pending :=
  if 0xC2 ≤ byte ∧ byte ≤ 0xDF then some ⟨byte - 0xC0, 1, 0x80, 0xBF⟩
  else if byte = 0xE0 then some ⟨0, 2, 0xA0, 0xBF⟩
  else if byte = 0xED then some ⟨0xD, 2, 0x80, 0x9F⟩
  else if 0xE1 ≤ byte ∧ byte ≤ 0xEF then some ⟨byte - 0xE0, 2, 0x80, 0xBF⟩
  else if byte = 0xF0 then some ⟨0, 3, 0x90, 0xBF⟩
  else if 0xF1 ≤ byte ∧ byte ≤ 0xF3 then some ⟨byte - 0xF0, 3, 0x80, 0xBF⟩
  else if byte = 0xF4 then some ⟨4, 3, 0x80, 0x8F⟩
  else none

def first (byte : Nat) : List Char × Option Pending :=
  if byte < 0x80 then ([Char.ofNat byte], none)
  else
    match begun? byte with
    | some pending => ([], some pending)
    | none => ([replacement], none)

/-- Takes in a byte: the characters that end with it, and the character that is pending. -/
def step (pending : Option Pending) (byte : Nat) : List Char × Option Pending :=
  match pending with
  | none => first byte
  | some pending =>
    if pending.low ≤ byte ∧ byte ≤ pending.high then
      let value := 64 * pending.value + (byte - 0x80)
      if pending.left ≤ 1 then ([Char.ofNat value], none)
      else ([], some ⟨value, pending.left - 1, 0x80, 0xBF⟩)
    else
      let (characters, pending) := first byte
      (replacement :: characters, pending)

def decodeFrom (pending : Option Pending) : List UInt8 → List Char
  | [] => if pending.isSome then [replacement] else []
  | byte :: bytes =>
    let (characters, pending) := step pending byte.toNat
    characters ++ decodeFrom pending bytes

/-- The text of bytes, with replacements where they are none. -/
def decode (bytes : ByteArray) : String :=
  match String.fromUTF8? bytes with
  | some text => text
  | none => String.ofList (decodeFrom none bytes.toList)

end InlineMacro.Text.Utf8
