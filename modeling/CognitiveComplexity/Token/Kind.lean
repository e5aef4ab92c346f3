import CognitiveComplexity.Byte

set_option autoImplicit false

namespace CognitiveComplexity

inductive Kind where
  | switchWord | catchWord | ifWord | forWord | foreachWord | whileWord | doWord | continueWord
  | bitwiseAnd | bitwiseOr | bitwiseXor
  | isEqual | isNotEqual | isGreaterOrEqual | isIdentical | isNotIdentical
  | function | closure | tryWord
  | openCurly | closeCurly | openParen | closeParen | semicolon
  | elseWord | elseIfWord | caseWord | defaultWord | returnWord | breakWord
  | booleanAnd | booleanOr
  | keyword | variable | identifier | number | string | comment
  | inlineHtml | openTag | closeTag | operator
  deriving DecidableEq, Repr, Inhabited

namespace Kind

def increasing : List Kind :=
  [.switchWord, .catchWord, .ifWord, .forWord, .foreachWord, .whileWord, .doWord,
    .bitwiseAnd, .bitwiseOr, .bitwiseXor, .continueWord,
    .isEqual, .isNotEqual, .isGreaterOrEqual, .isIdentical, .isNotIdentical]

def isIncreasing (kind : Kind) : Bool := increasing.contains kind

/-- Lower-case words with a kind other than `identifier`. A `function` word without a name becomes
a `closure` once its neighbours are known. -/
def words : List (String × Kind) :=
  [("switch", .switchWord), ("catch", .catchWord), ("if", .ifWord), ("for", .forWord),
    ("foreach", .foreachWord), ("while", .whileWord), ("do", .doWord),
    ("continue", .continueWord), ("function", .function), ("try", .tryWord),
    ("else", .elseWord), ("elseif", .elseIfWord), ("case", .caseWord),
    ("default", .defaultWord), ("return", .returnWord), ("break", .breakWord),
    ("and", .booleanAnd), ("or", .booleanOr)] ++
  ["abstract", "array", "as", "class", "clone", "const", "declare", "echo", "enddeclare",
    "endfor", "endforeach", "endif", "endswitch", "endwhile", "enum", "extends", "final",
    "finally", "fn", "global", "goto", "implements", "include", "include_once", "instanceof",
    "insteadof", "interface", "isset", "list", "match", "namespace", "new", "print", "private",
    "protected", "public", "readonly", "require", "require_once", "static", "throw", "trait",
    "unset", "use", "var", "xor", "yield"].map (·, Kind.keyword)

def wordTable : List (Bytes × Kind) := words.map fun (word, kind) => (Bytes.ofString word, kind)

def keyword? (word : Bytes) : Option Kind := wordTable.lookup word

def ofWord (word : Bytes) : Kind := (keyword? (Bytes.lower word)).getD .identifier

/-- The operators, longer ones first, so that the first that fits is the longest that fits. -/
def operators : List String :=
  ["<<=", ">>=", "**=", "??=", "...", "===", "!==", "<=>", "?->", "==", "!=", "<>", ">=",
    "<=", "&&", "||", "??", "->", "=>", "::", "++", "--", "+=", "-=", "*=", "/=", ".=", "%=",
    "&=", "|=", "^=", "<<", ">>", "**", "\x7b", "\x7d", "(", ")", ";", "&", "|", "^", "+", "-",
    "*", "/", "%", "=", "<", ">", "!", "?", ":", ".", ",", "[", "]", "~", "@", "\\"]

def operatorTable : List Bytes := operators.map Bytes.ofString

def operatorKinds : List (Bytes × Kind) :=
  [("\x7b", Kind.openCurly), ("\x7d", .closeCurly), ("(", .openParen), (")", .closeParen),
    (";", .semicolon), ("&", .bitwiseAnd), ("|", .bitwiseOr), ("^", .bitwiseXor),
    ("==", .isEqual), ("!=", .isNotEqual), ("<>", .isNotEqual), (">=", .isGreaterOrEqual),
    ("===", .isIdentical), ("!==", .isNotIdentical), ("&&", .booleanAnd),
    ("||", .booleanOr)].map fun (text, kind) => (Bytes.ofString text, kind)

def ofOperator (text : Bytes) : Kind := (operatorKinds.lookup text).getD .operator

end Kind

end CognitiveComplexity
