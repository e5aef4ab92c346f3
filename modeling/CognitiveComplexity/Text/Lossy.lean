import CognitiveComplexity.Byte

set_option autoImplicit false

namespace CognitiveComplexity.Text

-- The part of a character read so far, how many bytes of it are missing, and what the next may be.
structure Pending where
  bytes : Bytes
  missing : Nat
  low : UInt8
  high : UInt8
  deriving DecidableEq, Repr

namespace Pending

def nothing : Pending := ⟨[], 0, 0, 0⟩

/-- The start of a character of several bytes. Overlong forms, surrogates and codes that are too
great show in the second byte. -/
def ofFirst? (b : UInt8) : Option Pending :=
  if 0xC2 ≤ b && b ≤ 0xDF then some ⟨[b], 1, 0x80, 0xBF⟩
  else if b == 0xE0 then some ⟨[b], 2, 0xA0, 0xBF⟩
  else if b == 0xED then some ⟨[b], 2, 0x80, 0x9F⟩
  else if 0xE1 ≤ b && b ≤ 0xEF then some ⟨[b], 2, 0x80, 0xBF⟩
  else if b == 0xF0 then some ⟨[b], 3, 0x90, 0xBF⟩
  else if b == 0xF4 then some ⟨[b], 3, 0x80, 0x8F⟩
  else if 0xF1 ≤ b && b ≤ 0xF3 then some ⟨[b], 3, 0x80, 0xBF⟩
  else none

def continues (pending : Pending) (b : UInt8) : Bool :=
  pending.missing != 0 && pending.low ≤ b && b ≤ pending.high

def extend (pending : Pending) (b : UInt8) : Pending :=
  ⟨pending.bytes ++ [b], pending.missing - 1, 0x80, 0xBF⟩

end Pending

-- Bytes as characters, with a gap for each longest start of a character that is broken off and for
-- each byte that starts none.
def charactersFrom (pending : Pending) : Bytes → List (Option Char)
  | [] => if pending.missing == 0 then [] else [none]
  | b :: rest =>
    if pending.continues b then
      let next := pending.extend b
      if next.missing == 0 then
        (Bytes.decode next.bytes).toList.map some ++ charactersFrom .nothing rest
      else charactersFrom next rest
    else
      let broken := if pending.missing == 0 then [] else [none]
      if b < 0x80 then broken ++ some (Char.ofNat b.toNat) :: charactersFrom .nothing rest
      else match Pending.ofFirst? b with
        | some next => broken ++ charactersFrom next rest
        | none => broken ++ none :: charactersFrom .nothing rest

def characters (bytes : Bytes) : List (Option Char) :=
  match Bytes.decode? bytes with
  | some text => text.toList.map some
  | none => charactersFrom .nothing bytes

def ofCharacters (characters : List (Option Char)) : String :=
  String.ofList (characters.map fun c => c.getD '\ufffd')

def lossy (bytes : Bytes) : String := ofCharacters (characters bytes)

-- A width is only kept by the text behind the last gap, and by none if the bytes end in a gap.
def lossyPadded (width : Nat) (bytes : Bytes) : String :=
  let shown := characters bytes
  let last := (shown.reverse.takeWhile Option.isSome).length
  let padding := if last == 0 && !shown.isEmpty then 0 else width - last
  ofCharacters shown ++ String.ofList (List.replicate padding ' ')

end CognitiveComplexity.Text
