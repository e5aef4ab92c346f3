import CognitiveComplexity.Glob.Reader
import CognitiveComplexity.Path

set_option autoImplicit false

namespace CognitiveComplexity

structure SourceFilter where
  extensions : List String
  skip : List Glob
  deriving Repr

namespace SourceFilter

def default : SourceFilter := ⟨["php"], []⟩

-- Extensions may be given with dots in front and in any case.
def normalExtension (extension : String) : String :=
  (String.ofList (extension.toList.dropWhile (· == '.'))).toLower

def make (extensions skip : List String) : Except Glob.Error SourceFilter := do
  return ⟨extensions.map normalExtension, ← skip.mapM (Glob.read .skip)⟩

-- An extension that is no text is none of those asked for.
def hasExtension (filter : SourceFilter) (path : Path) : Bool :=
  (path.extension?.bind Bytes.decode?).any fun extension =>
    filter.extensions.any (·.toLower == extension.toLower)

def relative (root path : Path) : Path := (path.below? root).getD path

def accepts (filter : SourceFilter) (root path : Path) : Bool :=
  filter.hasExtension path && !filter.skip.any (·.accepts (relative root path).bytes)

end SourceFilter

end CognitiveComplexity
