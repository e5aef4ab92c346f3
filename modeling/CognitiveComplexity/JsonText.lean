import CognitiveComplexity.Decimal.Shortest

set_option autoImplicit false

namespace CognitiveComplexity

inductive JsonText where
  | string (text : String)
  | natural (value : Nat)
  | fraction (value : Binary)
  | boolean (value : Bool)
  | array (items : List JsonText)
  | object (fields : List (String × JsonText))
  deriving Repr

namespace JsonText

def escape (c : Char) : List Char :=
  match c with
  | '"' => ['\\', '"']
  | '\\' => ['\\', '\\']
  | '\x08' => ['\\', 'b']
  | '\x0c' => ['\\', 'f']
  | '\n' => ['\\', 'n']
  | '\r' => ['\\', 'r']
  | '\t' => ['\\', 't']
  | c =>
    if c.toNat < 0x20 then
      ['\\', 'u', '0', '0', Nat.digitChar (c.toNat / 16), Nat.digitChar (c.toNat % 16)]
    else [c]

def quote (text : String) : String := "\"" ++ String.ofList (text.toList.flatMap escape) ++ "\""

def lineBreak (depth : Nat) : String := "\n" ++ String.ofList (List.replicate (2 * depth) ' ')

def bracketed (opening closing : String) (depth : Nat) (parts : List String) : String :=
  if parts.isEmpty then opening ++ closing
  else
    opening ++ lineBreak (depth + 1) ++ String.intercalate ("," ++ lineBreak (depth + 1)) parts ++
      lineBreak depth ++ closing

mutual

def render (depth : Nat) : JsonText → String
  | .string text => quote text
  | .natural value => toString value
  | .fraction value => (Decimal.shortest value).text
  | .boolean value => if value then "true" else "false"
  | .array items => bracketed "[" "]" depth (renderItems (depth + 1) items)
  | .object fields => bracketed "\x7b" "\x7d" depth (renderFields (depth + 1) fields)

def renderItems (depth : Nat) : List JsonText → List String
  | [] => []
  | item :: rest => render depth item :: renderItems depth rest

def renderFields (depth : Nat) : List (String × JsonText) → List String
  | [] => []
  | (name, value) :: rest =>
    (quote name ++ ": " ++ render depth value) :: renderFields depth rest

end

end JsonText

end CognitiveComplexity
