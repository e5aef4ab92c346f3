import CognitiveComplexity.Ignore.Level
import CognitiveComplexity.SourceFilter

set_option autoImplicit false

namespace CognitiveComplexity

structure Target where
  path : Path
  includeTests : Bool
  filter : SourceFilter
  deriving Repr

structure TargetError where
  path : Path
  fault : AccessFault
  deriving DecidableEq, Repr

def TargetError.message (error : TargetError) : String :=
  error.path.display ++ ": " ++ error.fault.message

namespace Target

def testDirectories : List String := ["tests", "test", "__tests__", "spec"]

-- A stem that is no text is not named like a test.
def isTestFile (path : Path) : Bool :=
  (path.stem?.bind Bytes.decode?).any fun stem =>
    "Test".toList.isSuffixOf stem.toList || "_test".toList.isSuffixOf stem.toList

def isClosed (includeTests : Bool) (name : Bytes) : Bool :=
  name == Bytes.ofString ".git" ||
    (!includeTests && (Bytes.decode? name).any testDirectories.contains)

inductive Found where
  | file (names : List Bytes)
  | refused (names : List Bytes) (fault : AccessFault)
  deriving DecidableEq, Repr

namespace Found

def file? : Found → Option (List Bytes)
  | .file names => some names
  | .refused _ _ => none

def refusal? : Found → Option (List Bytes × AccessFault)
  | .file _ => none
  | .refused names fault => some (names, fault)

end Found

-- What is below a place, by the names from the target on. Links and special files are passed over. A
-- directory can be listed if the one around it can be searched and it does not refuse itself.
def walk (working : Location) (includeTests : Bool) (levels : List Ignore.Level) (location : Location)
    (above : List Bytes) : List (Bytes × FileTree) → List Found
  | [] => []
  | (name, .file _) :: rest =>
    let others := walk working includeTests levels location above rest
    if Ignore.hides levels name false then others else .file (above ++ [name]) :: others
  | (name, .directory refusal entries) :: rest =>
    let others := walk working includeTests levels location above rest
    if Ignore.hides levels name true || isClosed includeTests name then others
    else match location.tree.refusal.search.or refusal.listing with
      | some fault => .refused (above ++ [name]) fault :: others
      | none =>
        let inner := location.child name (.directory refusal entries)
        let level := Ignore.Level.ofDirectory working inner
        walk working includeTests (level :: levels) inner (above ++ [name]) entries ++ others
  | (_, .link _) :: rest | (_, .special _) :: rest =>
    walk working includeTests levels location above rest

def pathTo (target : Path) (names : List Bytes) : Path := names.foldl Path.join target

-- A dash alone stands for standard input, which has no files.
def isStandardInput (path : Path) : Bool := path.components == [.name (Bytes.ofString "-")]

def found (target : Target) (working location : Location) : List Found :=
  if isStandardInput target.path then []
  else match location.tree.refusal.listing with
    | some fault => [.refused [] fault]
    | none =>
      let levels := Ignore.Level.along working location
      walk working target.includeTests levels location [] location.tree.entries

def listed (target : Target) (working location : Location) : List Path :=
  let paths := ((target.found working location).filterMap Found.file?).map (pathTo target.path)
  let wanted := paths.filter fun path =>
    target.filter.accepts target.path path && (target.includeTests || !isTestFile path)
  wanted.mergeSort Path.lessOrEqual

/-- The source files of a target. A file given as the target is always one of them. -/
def sourceFiles (target : Target) (working : Location) : Except TargetError (List Path) :=
  match working.find target.path with
  | .error fault => .error ⟨target.path, fault⟩
  | .ok location =>
    if location.tree.isFile then .ok [target.path] else .ok (target.listed working location)

def refusals (target : Target) (working : Location) : List (Path × AccessFault) :=
  match working.find target.path with
  | .error _ => []
  | .ok location =>
    ((target.found working location).filterMap Found.refusal?).map fun (names, fault) =>
      (pathTo target.path names, fault)

end Target

end CognitiveComplexity
