import CognitiveComplexity.Path

set_option autoImplicit false

namespace CognitiveComplexity

inductive AccessFault where
  | notFound
  | notADirectory
  | isADirectory
  | notText
  | denied
  | tooManyLinks
  | nulByte
  | other (description : String)
  deriving DecidableEq, Repr

def AccessFault.message : AccessFault → String
  | .notFound => "No such file or directory (os error 2)"
  | .notADirectory => "Not a directory (os error 20)"
  | .isADirectory => "Is a directory (os error 21)"
  | .notText => "stream did not contain valid UTF-8"
  | .denied => "Permission denied (os error 13)"
  | .tooManyLinks => "Too many levels of symbolic links (os error 40)"
  | .nulByte => "file name contained an unexpected NUL byte"
  | .other description => description

-- What a directory refuses: to list its names, and to look a name up in it.
structure Refusal where
  listing : Option AccessFault
  search : Option AccessFault
  deriving DecidableEq, Repr

def Refusal.nothing : Refusal := ⟨none, none⟩

-- Content that cannot be read is a fault in its place. Special files are pipes, sockets and devices.
inductive FileTree where
  | file (content : Except AccessFault Bytes)
  | directory (refusal : Refusal) (entries : List (Bytes × FileTree))
  | link (destination : Path)
  | special (content : Except AccessFault Bytes)

namespace FileTree

instance : Inhabited FileTree := ⟨.directory .nothing []⟩

def isFile : FileTree → Bool
  | .file _ => true
  | _ => false

def isDirectory : FileTree → Bool
  | .directory _ _ => true
  | _ => false

def refusal : FileTree → Refusal
  | .directory refusal _ => refusal
  | _ => .nothing

def entries : FileTree → List (Bytes × FileTree)
  | .directory _ entries => entries
  | _ => []

def content : FileTree → Except AccessFault Bytes
  | .file content | .special content => content
  | .directory _ _ => .error .isADirectory
  | .link _ => .error .tooManyLinks

def setEntry (name : Bytes) (tree : FileTree) :
    List (Bytes × FileTree) → List (Bytes × FileTree)
  | [] => [(name, tree)]
  | (other, subtree) :: rest =>
    if other == name then (name, tree) :: rest else (other, subtree) :: setEntry name tree rest

-- Puts a tree at a place below another one, with the directories that lead there. A directory that is
-- there already keeps its entries when an empty one is put in its place.
def insert (tree leaf : FileTree) : List Bytes → FileTree
  | [] =>
    match tree, leaf with
    | .directory _ _, .directory _ [] => tree
    | _, _ => leaf
  | name :: rest =>
    let child := (tree.entries.lookup name).getD default
    .directory tree.refusal (setEntry name (child.insert leaf rest) tree.entries)

end FileTree

/-- A place in a tree: the names passed on the way there, innermost first, with what they name. -/
structure Location where
  root : FileTree
  trail : List (Bytes × FileTree)

namespace Location

def top (root : FileTree) : Location := ⟨root, []⟩

def tree (location : Location) : FileTree := (location.trail.head?.map (·.2)).getD location.root

def names (location : Location) : List Bytes := location.trail.reverse.map (·.1)

-- The root is its own parent.
def parent (location : Location) : Location := { location with trail := location.trail.tail }

def child (location : Location) (name : Bytes) (tree : FileTree) : Location :=
  { location with trail := (name, tree) :: location.trail }

def start (location : Location) (path : Path) : Location :=
  if path.isAbsolute then top location.root else location

-- A way either arrives or meets a link with segments left to go.
inductive Passage where
  | arrived (location : Location)
  | met (location : Location) (destination : Path) (rest : List Bytes)

def pass (location : Location) : List Bytes → Except AccessFault Passage
  | [] => .ok (.arrived location)
  | segment :: rest =>
    match location.tree with
    | .directory refusal entries =>
      if segment == [] then pass location rest
      else match refusal.search with
        | some fault => .error fault
        | none =>
          if Path.isIdle segment then pass location rest
          else if Path.isParent segment then pass location.parent rest
          else match entries.lookup segment with
            | none => .error .notFound
            | some (.link destination) => .ok (.met location destination rest)
            | some tree => pass (location.child segment tree) rest
    | _ => .error .notADirectory

def follow : Nat → Location → List Bytes → Except AccessFault Location
  | links, location, segments =>
    match location.pass segments with
    | .error fault => .error fault
    | .ok (.arrived location) => .ok location
    | .ok (.met location destination rest) =>
      match links with
      | 0 => .error .tooManyLinks
      | links + 1 =>
        if destination.bytes.isEmpty then .error .notFound
        else follow links (location.start destination) (destination.segments ++ rest)

def linkLimit : Nat := 40

def reach (location : Location) (segments : List Bytes) : Except AccessFault Location :=
  location.follow linkLimit segments

/-- Finds what a path names, from the working directory. -/
def find (working : Location) (path : Path) : Except AccessFault Location :=
  if path.bytes.isEmpty then .error .notFound
  else if path.bytes.contains 0 then .error .nulByte
  else (working.start path).reach path.segments

def hasFile (working : Location) (path : Path) : Bool :=
  match working.find path with
  | .ok location => location.tree.isFile
  | .error _ => false

def readBytes (working : Location) (path : Path) : Except AccessFault Bytes := do
  (← working.find path).tree.content

def readText (working : Location) (path : Path) : Except AccessFault String := do
  match Bytes.decode? (← working.readBytes path) with
  | some text => return text
  | none => throw .notText

end Location

end CognitiveComplexity
