import CognitiveComplexity.Token.Lexeme

set_option autoImplicit false

namespace CognitiveComplexity.Lexeme

def isComment (lexeme : Lexeme) : Bool := lexeme.kind == .comment

def isWord (lexeme : Lexeme) : Bool := lexeme.text.head?.any Byte.isWordStart

def memberAccess : List Bytes := ["->", "?->", "::"].map Bytes.ofString

def introducesName (kind : Kind) (text : Bytes) : Bool :=
  kind == .function || (kind == .operator && memberAccess.contains text)

def skipComments (lexemes : List Lexeme) : List Lexeme := lexemes.dropWhile isComment

-- Whether what follows `function` is a parameter list, perhaps behind a by-reference sign.
def startsParameters (rest : List Lexeme) : Bool :=
  match skipComments rest with
  | [] => false
  | next :: more =>
    next.kind == .openParen ||
      (next.kind == .bitwiseAnd && (skipComments more).head?.any (·.kind == .openParen))

def kindIn (afterIntroducer : Bool) (lexeme : Lexeme) (rest : List Lexeme) : Kind :=
  if afterIntroducer && lexeme.isWord then .identifier
  else if lexeme.kind == .function && startsParameters rest then .closure
  else lexeme.kind

/-- The kinds of a list of lexemes. The flag says whether the last token before them that is no
comment makes a name of the word behind it. -/
def kindsFrom (afterIntroducer : Bool) : List Lexeme → List Kind
  | [] => []
  | lexeme :: rest =>
    if lexeme.isComment then lexeme.kind :: kindsFrom afterIntroducer rest
    else
      let kind := kindIn afterIntroducer lexeme rest
      kind :: kindsFrom (introducesName kind lexeme.text) rest

def kinds (lexemes : List Lexeme) : List Kind := kindsFrom false lexemes

end CognitiveComplexity.Lexeme
