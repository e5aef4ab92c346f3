import CognitiveComplexity.Command.Outcome

set_option autoImplicit false

namespace CognitiveComplexity

def faultOf (error : IO.Error) : AccessFault :=
  match error with
  | .permissionDenied .. => .denied
  | .noFileOrDirectory .. => .notFound
  | other => .other (toString other)

-- An entry with all below it. What cannot be read stays as a fault; links are left out.
partial def snapshot (entry : IO.FS.DirEntry) : IO (Option FileTree) := do
  match ← entry.path.symlinkMetadata.toBaseIO with
  | .error _ => return none
  | .ok status =>
    match status.type with
    | .file =>
      let content ← (IO.FS.readBinFile entry.path).toBaseIO
      return some (.file ((content.map (·.toList)).mapError faultOf))
    | .dir =>
      match ← entry.path.readDir.toBaseIO with
      | .error error => return some (.directory ⟨some (faultOf error), none⟩ [])
      | .ok entries =>
        let below ← entries.toList.filterMapM fun inner => do
          return (← snapshot inner).map (Bytes.ofString inner.fileName, ·)
        return some (.directory .nothing below)
    | _ => return none

def namesOf (path : String) : List Bytes := (Path.ofString path).segments.filter (· != [])

def see (root : FileTree) (path : String) : IO FileTree := do
  match ← snapshot ⟨"/", path⟩ with
  | some tree => return root.insert tree (namesOf path)
  | none => return root

-- A path is seen with the files around it that can say something about it.
def seeWithRules (root : FileTree) (path : String) : IO FileTree := do
  let names := path.splitOn "/"
  let directories := (List.range names.length).map fun count =>
    String.intercalate "/" (names.take count)
  let rules := directories.flatMap fun directory =>
    [".ignore", ".gitignore", ".git", Settings.fileName].map (directory ++ "/" ++ ·)
  (rules ++ [path]).foldlM see root

def workingDirectory (words : List String) : IO Location := do
  let directory := (← IO.currentDir).toString
  let named ← words.mapM fun word => do
    return (← IO.FS.realPath ((word.splitOn "=").getLastD "")).toString
  let root ← (directory :: named.filter (·.startsWith "/")).foldlM seeWithRules default
  match (Location.top root).reach (namesOf directory) with
  | .ok place => return place
  | .error _ => return .top root

end CognitiveComplexity

open CognitiveComplexity in
def main (words : List String) : IO UInt32 := do
  let wording : Settings.Wording := fun _ cause =>
    "TOML parse error" ++ (cause.map (": " ++ ·.message)).getD ""
  let outcome := Outcome.ofWords wording (← workingDirectory words) (words.map Bytes.ofString)
  IO.print outcome.output
  IO.eprint outcome.errors
  return outcome.status.toUInt32
