import CognitiveComplexity.Command.Arguments

set_option autoImplicit false

namespace CognitiveComplexity

def programName : String := "cogsniff"

def programVersion : String := "0.1.0"

inductive Page where
  | program
  | command (name : CommandName)
  | help
  deriving DecidableEq, Repr

namespace Page

def checkLines : List String :=
  ["Report functions whose cognitive complexity exceeds a threshold.",
    "",
    "Cognitive complexity approximates how hard a function is to read:",
    "  +1 for each flow-breaking construct",
    "       switch, catch, if, for, foreach, while, do, continue,",
    "       & | ^ (bitwise), == != >= === !==",
    "  +1 more when that construct sits deeper than the previous one",
    "       (nesting level > 1; siblings at the same depth are not penalized)",
    "",
    "Entering a `try` block does not add a nesting level.",
    "",
    "Each violation is printed as:",
    "  path:line:column  Cognitive complexity <score> have to be less than <max>.  " ++
      "[CleanCode.CognitiveComplexity]  in <function>()",
    "",
    "line:column is the opening brace of the function body.",
    "",
    "Exit status is 1 when any function is over the threshold.",
    "",
    "Configuration is read from cogsniff.toml in the analyzed directory",
    "(or --config):",
    "  max_cognitive_complexity = 15",
    "  file_extensions = [\"php\"]",
    "  skip = [\"vendor/**\"]",
    "",
    "Examples:",
    "  cogsniff check                                # current directory",
    "  cogsniff check src/ --max-cognitive-complexity 10",
    "  cogsniff check --json                         # machine-readable output"]

def scoresLines : List String :=
  ["Show cognitive complexity scores per file and per function.",
    "",
    "Levels (informational):",
    "  simple (0-4)  moderate (5-9)  complex (10-14)",
    "  very complex (15-24)  extreme (25+)",
    "",
    "The Over column counts functions above max_cognitive_complexity.",
    "",
    "Examples:",
    "  cogsniff scores                     # top 20 files by total",
    "  cogsniff scores --sort-by max       # worst single function first",
    "  cogsniff scores --per-function      # every function, marked ! when over",
    "  cogsniff scores --json"]

def about (page : Page) (detailed : Bool) : String :=
  match page with
  | .program => "Cognitive complexity checker"
  | .command .check =>
    if detailed then String.intercalate "\n" checkLines
    else "Report functions whose cognitive complexity exceeds the threshold"
  | .command .scores =>
    if detailed then String.intercalate "\n" scoresLines
    else "Show cognitive complexity scores per file and per function"
  | .command .completions => "Print a shell completion script"
  | .help => "Print this message or the help of the given subcommand(s)"

def usage : Page → String
  | .program => "[OPTIONS] <COMMAND>"
  | .command .check => "check [OPTIONS] [PATH]"
  | .command .scores => "scores [OPTIONS] [PATH]"
  | .command .completions => "completions [OPTIONS] <SHELL>"
  | .help => "help [COMMAND]"

def text (page : Page) (detailed : Bool) : String :=
  page.about detailed ++ "\n\nUsage: " ++ programName ++ " " ++ page.usage ++ "\n"

end Page

def Shell.script (shell : Shell) : String :=
  let words := CommandName.names.map (·.1) ++ ["help"]
  match shell with
  | .bash => "complete -W \"" ++ String.intercalate " " words ++ "\" " ++ programName ++ "\n"
  | .elvish =>
    "set edit:completion:arg-completer[" ++ programName ++ "] = \x7b|@words| put " ++
      String.intercalate " " words ++ " \x7d\n"
  | .fish =>
    "complete -c " ++ programName ++ " -f -n __fish_use_subcommand -a \"" ++
      String.intercalate " " words ++ "\"\n"
  | .powershell =>
    "Register-ArgumentCompleter -Native -CommandName " ++ programName ++
      " -ScriptBlock \x7b '" ++ String.intercalate "', '" words ++ "' \x7d\n"
  | .zsh =>
    "#compdef " ++ programName ++ "\ncompadd " ++ String.intercalate " " words ++ "\n"

end CognitiveComplexity
