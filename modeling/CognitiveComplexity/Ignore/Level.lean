import CognitiveComplexity.FileTree
import CognitiveComplexity.Ignore.Rule

set_option autoImplicit false

namespace CognitiveComplexity.Ignore

structure Level where
  name : Bytes
  plain : List Rule
  versioned : List Rule
  excluded : List Rule
  isRepository : Bool
  deriving Repr

namespace Level

-- Rules that cannot be read are no rules.
def rulesAt (directory : Location) (path : String) : List Rule :=
  match directory.readBytes (.ofString path) with
  | .ok content => rules content
  | .error _ => []

def firstLine? (content : Bytes) : Option String :=
  (textLines content).head?.map String.ofList

-- The repository data of a directory whose `.git` is a file that points to another place.
def linkedRepository? (working : Location) (content : Bytes) : Option Path := do
  let line ← firstLine? content
  let marker := "gitdir: "
  if !marker.toList.isPrefixOf line.toList then none
  else
    let place := Path.ofString (String.ofList (line.toList.drop marker.length))
    let common ← (working.readBytes (place.join (Bytes.ofString "commondir"))).toOption
    let line ← firstLine? common
    if line.toList.head? == some '.' then some (place.join (Bytes.ofString line))
    else some (.ofString line)

-- The rules of a repository that are kept outside its files.
def excludedIn (working directory : Location) : List Rule :=
  match directory.find (.ofString ".git") with
  | .error _ => []
  | .ok repository =>
    match repository.tree with
    | .file (.ok content) =>
      match linkedRepository? working content with
      | some place =>
        match working.readBytes (place.join (Bytes.ofString "info/exclude")) with
        | .ok content => rules content
        | .error _ => []
      | none => []
    | .file (.error _) => []
    | _ => rulesAt repository "info/exclude"

def ofDirectory (working directory : Location) : Level :=
  { name := (directory.trail.head?.map (·.1)).getD []
    plain := rulesAt directory ".ignore"
    versioned := rulesAt directory ".gitignore"
    excluded := excludedIn working directory
    isRepository := (directory.find (.ofString ".git")).isOk }

def around (working : Location) (root : FileTree) : List (Bytes × FileTree) → List Level
  | [] => [ofDirectory working ⟨root, []⟩]
  | entry :: outer => ofDirectory working ⟨root, entry :: outer⟩ :: around working root outer

-- The rules around a directory are only found if the way to it is open.
def along (working directory : Location) : List Level :=
  let outer := directory.trail.tail
  if directory.root.refusal.search.isSome || outer.any (·.2.refusal.search.isSome) then
    [ofDirectory working directory]
  else around working directory.root directory.trail

end Level

structure Judgement where
  plain : Verdict
  versioned : Verdict
  excluded : Verdict
  -- Whether a repository was left.
  leftRepository : Bool
  deriving Repr

namespace Judgement

def start : Judgement := ⟨.undecided, .undecided, .undecided, false⟩

/-- Takes one more level into account. The path is the entry's path below that level. -/
def add (judgement : Judgement) (inRepository : Bool) (level : Level) (path : Bytes)
    (isDirectory : Bool) : Judgement :=
  let counts := inRepository && !judgement.leftRepository
  let more := fun (verdictSoFar : Verdict) (rules : List Rule) =>
    verdictSoFar.orElse (verdict rules path isDirectory)
  { plain := more judgement.plain level.plain
    versioned := if counts then more judgement.versioned level.versioned else judgement.versioned
    excluded := if counts then more judgement.excluded level.excluded else judgement.excluded
    leftRepository := judgement.leftRepository || level.isRepository }

def result (judgement : Judgement) : Verdict :=
  judgement.plain.orElse (judgement.versioned.orElse judgement.excluded)

end Judgement

def judge (inRepository isDirectory : Bool) (judgement : Judgement) (names : List Bytes) :
    List Level → Judgement
  | [] => judgement
  | level :: outer =>
    let next := judgement.add inRepository level (List.intercalate [Byte.slash] names) isDirectory
    judge inRepository isDirectory next (level.name :: names) outer

def hides (levels : List Level) (name : Bytes) (isDirectory : Bool) : Bool :=
  let inRepository := levels.any (·.isRepository)
  (judge inRepository isDirectory .start [name] levels).result == .ignored

end CognitiveComplexity.Ignore
