import CognitiveComplexity.Text.Lossy

set_option autoImplicit false

namespace CognitiveComplexity

def lexLess {α : Type} [BEq α] (less : α → α → Bool) : List α → List α → Bool
  | _, [] => false
  | [], _ :: _ => true
  | left :: lefts, right :: rights =>
    less left right || (left == right && lexLess less lefts rights)

def Bytes.before (left right : Bytes) : Bool := lexLess (fun a b => decide (a < b)) left right

inductive Component where
  | root
  | current
  | parent
  | name (text : Bytes)
  deriving DecidableEq, Repr

namespace Component

def rank : Component → Nat
  | .root => 0
  | .current => 1
  | .parent => 2
  | .name _ => 3

def text : Component → Bytes
  | .name text => text
  | _ => []

def less (left right : Component) : Bool :=
  left.rank < right.rank || (left.rank == right.rank && left.text.before right.text)

end Component

-- The bytes are what is written. What a path means is its list of components, in which doubled
-- slashes, slashes at the end and inner dots leave no trace.
structure Path where
  bytes : Bytes
  deriving DecidableEq, Repr, Inhabited

namespace Path

def ofString (text : String) : Path := ⟨Bytes.ofString text⟩

def splitSlashes : Bytes → List Bytes
  | [] => [[]]
  | b :: rest =>
    if b == Byte.slash then [] :: splitSlashes rest
    else match splitSlashes rest with
      | [] => [[b]]
      | segment :: segments => (b :: segment) :: segments

def segments (path : Path) : List Bytes := splitSlashes path.bytes

def ofSegments (segments : List Bytes) : Path := ⟨List.intercalate [Byte.slash] segments⟩

def isAbsolute (path : Path) : Bool := path.bytes.head? == some Byte.slash

-- Segments that are no component, except at the start of a path.
def isIdle (segment : Bytes) : Bool := segment == [] || segment == [Byte.dot]

def isParent (segment : Bytes) : Bool := segment == [Byte.dot, Byte.dot]

def component? (segment : Bytes) : Option Component :=
  if isIdle segment then none
  else if isParent segment then some .parent
  else some (.name segment)

/-- The component at the start of a path: a slash is the root and a dot the current directory. -/
def leading? (path : Path) (segment : Bytes) : Option Component :=
  if path.bytes.isEmpty then none
  else if segment == [] then some .root
  else if segment == [Byte.dot] then some .current
  else component? segment

def components (path : Path) : List Component :=
  match path.segments with
  | [] => []
  | first :: rest => (path.leading? first).toList ++ rest.filterMap component?

def less (left right : Path) : Bool := lexLess Component.less left.components right.components

def lessOrEqual (left right : Path) : Bool := !right.less left

def fileName? (path : Path) : Option Bytes :=
  match path.components.getLast? with
  | some (.name text) => some text
  | _ => none

/-- A file name before and behind its last dot. A dot in front starts no extension. -/
def splitExtension (name : Bytes) : Bytes × Option Bytes :=
  let (extension, rest) := name.reverse.span (· != Byte.dot)
  match rest with
  | [] | [_] => (name, none)
  | _ :: stem => (stem.reverse, some extension.reverse)

def stem? (path : Path) : Option Bytes := path.fileName?.map fun name => (splitExtension name).1

def extension? (path : Path) : Option Bytes := path.fileName?.bind fun name =>
  (splitExtension name).2

def trimEnd (segments : List Bytes) : List Bytes := (segments.reverse.dropWhile isIdle).reverse

/-- A path without idle segments at its end. The first segment always stays. -/
def trimmed (path : Path) : Path :=
  match path.segments with
  | [] => path
  | first :: rest =>
    match trimEnd rest with
    | [] => if first == [] && !rest.isEmpty then ⟨[Byte.slash]⟩ else ⟨first⟩
    | kept => ofSegments (first :: kept)

-- The path without its last component; the root and the empty path have none to lose.
def parent? (path : Path) : Option Path :=
  if path.components.isEmpty || path.components == [.root] then none
  else match path.trimmed.segments with
    | [] | [_] => some ⟨[]⟩
    | [[], _] => some ⟨[Byte.slash]⟩
    | segments => some (ofSegments segments.dropLast).trimmed

def dropComponents : Nat → List Bytes → List Bytes
  | 0, segments => segments
  | _, [] => []
  | count + 1, segment :: rest =>
    if isIdle segment then dropComponents (count + 1) rest else dropComponents count rest

/-- What remains of a path below another one. Below the empty path a path stays as it is written, up
to idle segments at its end. -/
def below? (path base : Path) : Option Path :=
  let count := base.components.length
  if !base.components.isPrefixOf path.components then none
  else match count, path.segments with
    | 0, _ => some path.trimmed
    | _, [] => some path
    | count + 1, _ :: rest =>
      some (ofSegments (trimEnd ((dropComponents count rest).dropWhile isIdle)))

def join (directory : Path) (name : Bytes) : Path :=
  if directory.bytes.isEmpty || directory.bytes.getLast? == some Byte.slash then
    ⟨directory.bytes ++ name⟩
  else ⟨directory.bytes ++ Byte.slash :: name⟩

def display (path : Path) : String := Text.lossy path.bytes

end Path

end CognitiveComplexity
