import CognitiveComplexity.Glob.Reader

set_option autoImplicit false

namespace CognitiveComplexity.Ignore

inductive Verdict where
  | undecided
  | ignored
  | kept
  deriving DecidableEq, Repr, Inhabited

def Verdict.orElse : Verdict → Verdict → Verdict
  | .undecided, other => other
  | verdict, _ => verdict

structure Rule where
  glob : Glob
  verdict : Verdict
  directoriesOnly : Bool
  deriving Repr

namespace Rule

def isBlank (c : Char) : Bool :=
  let code := c.toNat
  (0x09 ≤ code && code ≤ 0x0D) || code == 0x20 || code == 0x85 || code == 0xA0 ||
    code == 0x1680 || (0x2000 ≤ code && code ≤ 0x200A) || code == 0x2028 || code == 0x2029 ||
    code == 0x202F || code == 0x205F || code == 0x3000

def trimEnd (text : List Char) : List Char := (text.reverse.dropWhile isBlank).reverse

/-- The text of a rule without what marks its kind: the verdict it gives, and whether it is bound to
the directory of its file. -/
def unmark : List Char → Verdict × Bool × List Char
  | '\\' :: '!' :: rest => (.ignored, false, '!' :: rest)
  | '\\' :: '#' :: rest => (.ignored, false, '#' :: rest)
  | '!' :: '/' :: rest => (.kept, true, rest)
  | '!' :: rest => (.kept, false, rest)
  | '/' :: rest => (.ignored, true, rest)
  | text => (.ignored, false, text)

-- A slash at the end limits a rule to directories.
def unslash (text : List Char) : Bool × List Char :=
  match text.reverse with
  | '/' :: '\\' :: rest => (true, rest.reverse)
  | '/' :: rest => (true, rest.reverse)
  | _ => (false, text)

def globText (bound : Bool) (text : List Char) : List Char :=
  let anchored :=
    if bound || text.contains '/' || text == ['*', '*'] then text else ['*', '*', '/'] ++ text
  if ['/', '*', '*'].isSuffixOf anchored then anchored ++ ['/', '*'] else anchored

/-- The rule on a line: none for blank lines, comments and texts that are no glob. -/
def ofLine? (line : List Char) : Option Rule :=
  if line.head? == some '#' then none
  else
    let text := if ['\\', ' '].isSuffixOf line then line else trimEnd line
    if text.isEmpty then none
    else
      let (verdict, bound, unmarked) := unmark text
      let (directoriesOnly, body) := unslash unmarked
      match Glob.read .ignore (String.ofList (globText bound body)) with
      | .ok glob => some ⟨glob, verdict, directoriesOnly⟩
      | .error _ => none

def concerns (rule : Rule) (path : Bytes) (isDirectory : Bool) : Bool :=
  (!rule.directoriesOnly || isDirectory) && rule.glob.accepts path

end Rule

def lines (content : Bytes) : List Bytes := go [] content
where
  go (line : Bytes) : Bytes → List Bytes
    | [] => if line.isEmpty then [] else [line.reverse]
    | Byte.newline :: rest =>
      match line with
      | Byte.carriageReturn :: kept => kept.reverse :: go [] rest
      | _ => line.reverse :: go [] rest
    | b :: rest => go (b :: line) rest

-- The lines of a file up to the first that is not text.
def textLines (content : Bytes) : List (List Char) :=
  ((lines content).map Bytes.decode?).takeWhile Option.isSome |>.map fun line =>
    (line.getD "").toList

/-- The rules of an ignore file. A byte order mark before the first line is passed over. -/
def rules (content : Bytes) : List Rule :=
  match textLines content with
  | [] => []
  | first :: rest =>
    ((first.dropWhile (· == '\ufeff')) :: rest).filterMap Rule.ofLine?

def verdict (rules : List Rule) (path : Bytes) (isDirectory : Bool) : Verdict :=
  match rules.reverse.find? (·.concerns path isDirectory) with
  | some rule => rule.verdict
  | none => .undecided

end CognitiveComplexity.Ignore
