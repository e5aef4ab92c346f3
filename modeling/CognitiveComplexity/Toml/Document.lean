import CognitiveComplexity.Toml.Scalar

set_option autoImplicit false

namespace CognitiveComplexity.Toml

-- How deep arrays and tables may be nested in a value, and how many parts a key may have.
def nestingLimit : Nat := 80

def skipComment (text : List Char) : List Char :=
  match text with
  | '#' :: rest => rest.dropWhile isPlain
  | _ => text

def afterLine? (text : List Char) : Option (List Char) :=
  match skipComment (skipBlanks text) with
  | [] => some []
  | rest => afterNewline? rest

def isBare (c : Char) : Bool := c.isAlphanum || c == '_' || c == '-'

def keyPart? (text : List Char) : Option (String × List Char) :=
  match text with
  | '"' :: rest => basicRest [] rest
  | '\x27' :: rest => literalRest [] rest
  | _ =>
    match text.takeWhile isBare with
    | [] => none
    | bare => some (String.ofList bare, text.dropWhile isBare)

def keyParts? : (fuel : Nat) → List Char → Option (List String × List Char)
  | 0, _ => none
  | fuel + 1, text => do
    let (part, rest) ← keyPart? (skipBlanks text)
    match skipBlanks rest with
    | '.' :: more =>
      let (parts, after) ← keyParts? fuel more
      return (part :: parts, after)
    | after => return ([part], after)

def key? (text : List Char) : Option (List String × List Char) := keyParts? (nestingLimit - 1) text

def skipInArray : (fuel : Nat) → List Char → List Char
  | 0, text => text
  | fuel + 1, text =>
    match afterNewline? (skipComment (skipBlanks text)) with
    | some rest => skipInArray fuel rest
    | none => skipBlanks text

def items? (value? : Reader Value) : (fuel : Nat) → List Char → Option (List Value × List Char)
  | 0, _ => none
  | fuel + 1, text =>
    match skipInArray text.length text with
    | ']' :: rest => some ([], rest)
    | start => do
      let (item, afterItem) ← value? start
      match skipInArray afterItem.length afterItem with
      | ',' :: rest =>
        let (items, after) ← items? value? fuel rest
        return (item :: items, after)
      | ']' :: rest => return ([item], rest)
      | _ => none

def entry? (value? : Reader Value) (text : List Char) :
    Option ((List String × Value) × List Char) := do
  let (key, afterKey) ← key? text
  match afterKey with
  | '=' :: rest =>
    let (value, after) ← value? (skipBlanks rest)
    return ((key, value), after)
  | _ => none

def insertKey? (family : Table.Family) (table : Table) (key : List String) (value : Value) :
    Option Table := do
  table.insert family key.dropLast (← key.getLast?) value

def inlineEntries? (value? : Reader Value) (table : Table) :
    (fuel : Nat) → List Char → Option (Table × List Char)
  | 0, _ => none
  | fuel + 1, text => do
    let ((key, value), afterEntry) ← entry? value? text
    let extended ← insertKey? .inline table key value
    match skipBlanks afterEntry with
    | ',' :: rest => inlineEntries? value? extended fuel rest
    | '\x7d' :: rest => return (extended, rest)
    | _ => none

def inlineTable? (value? : Reader Value) (text : List Char) : Option (Value × List Char) :=
  match skipBlanks text with
  | '\x7d' :: rest => some (.inlineTable .explicit [], rest)
  | start => (inlineEntries? value? .empty start.length start).map fun (table, rest) =>
    (table.toValue .inline, rest)

def value? : (depth : Nat) → Reader Value
  | 0, text => scalar? text
  | depth + 1, text =>
    match text with
    | '[' :: rest => (items? (value? depth) text.length rest).map fun (items, after) =>
      (.array items, after)
    | '\x7b' :: rest => inlineTable? (value? depth) rest
    | _ => scalar? text

structure Draft where
  root : Table
  current : Table
  -- The keys of the header of the current table; none before the first header.
  path : List String
  -- Whether the current table is an element of repeated headers.
  repeated : Bool
  deriving Repr

namespace Draft

def start : Draft := ⟨.empty, .empty, [], false⟩

def finish? (draft : Draft) : Option Table :=
  match draft.path.getLast? with
  | none => some draft.current
  | some key =>
    let place := fun (parent : Table) =>
      if draft.repeated then
        match parent.entries.lookup key with
        | some (.tables elements) =>
          some (parent.set key (.tables (draft.current.toValue .document :: elements)), ())
        | _ => none
      else some (parent.set key (draft.current.toValue .document), ())
    (Table.modifyAt .document false place draft.root draft.path.dropLast).map (·.1)

/-- Starts the table of a header. A table that was only implied so far is taken up again, at the end
of the order. -/
def table? (draft : Draft) (path : List String) : Option Draft := do
  let root ← draft.finish?
  let key ← path.getLast?
  let take := fun (parent : Table) =>
    match parent.entries.lookup key with
    | none => some (parent, [])
    | some (.table origin entries) =>
      if origin.implicit && !origin.dotted then some (parent.erase key, entries) else none
    | some _ => none
  let (rest, entries) ← Table.modifyAt .document false take root path.dropLast
  return ⟨rest, ⟨.explicit, entries⟩, path, false⟩

def element? (draft : Draft) (path : List String) : Option Draft := do
  let root ← draft.finish?
  let key ← path.getLast?
  let prepare := fun (parent : Table) =>
    match parent.entries.lookup key with
    | none => some (parent.set key (.tables []), ())
    | some (.tables _) => some (parent, ())
    | some _ => none
  let (rest, _) ← Table.modifyAt .document false prepare root path.dropLast
  return ⟨rest, .empty, path, true⟩

def entry? (draft : Draft) (key : List String) (value : Value) : Option Draft := do
  return { draft with current := ← insertKey? .document draft.current key value }

end Draft

def header? (draft : Draft) (text : List Char) : Option (Draft × List Char) :=
  match text with
  | '[' :: rest => do
    let (path, afterKey) ← key? rest
    match afterKey with
    | ']' :: ']' :: after => return (← draft.element? path, ← afterLine? after)
    | _ => none
  | _ => do
    let (path, afterKey) ← key? text
    match afterKey with
    | ']' :: after => return (← draft.table? path, ← afterLine? after)
    | _ => none

def line? (draft : Draft) (text : List Char) : Option (Draft × List Char) :=
  match text with
  | '[' :: rest => header? draft rest
  | '#' :: _ | '\n' :: _ | '\r' :: _ => (afterLine? text).map (draft, ·)
  | _ => do
    let ((key, value), rest) ← entry? (value? (nestingLimit - 1)) text
    return (← draft.entry? key value, ← afterLine? rest)

def lines? : (fuel : Nat) → Draft → List Char → Option Draft
  | 0, _, _ => none
  | fuel + 1, draft, text =>
    match skipBlanks text with
    | [] => some draft
    | start => do
      let (next, rest) ← line? draft start
      lines? fuel next rest

def document? (text : String) : Option (List (String × Value)) := do
  let start := match text.toList with
    | '\ufeff' :: rest => rest
    | start => start
  let draft ← lines? (start.length + 1) .start start
  return (← draft.finish?).entries

end CognitiveComplexity.Toml
