import CognitiveComplexity.Toml.Value

set_option autoImplicit false

namespace CognitiveComplexity.Toml

abbrev Reader (α : Type) := List Char → Option (α × List Char)

def isBlank (c : Char) : Bool := c == ' ' || c == '\t'

def skipBlanks (text : List Char) : List Char := text.dropWhile isBlank

-- Characters that may stand unescaped: no control characters but the tab.
def isPlain (c : Char) : Bool := c == '\t' || (0x20 ≤ c.toNat && c.toNat != 0x7F)

def afterNewline? : List Char → Option (List Char)
  | '\n' :: rest => some rest
  | '\r' :: '\n' :: rest => some rest
  | _ => none

def hexDigit? (c : Char) : Option Nat :=
  if '0' ≤ c && c ≤ '9' then some (c.toNat - '0'.toNat)
  else if 'a' ≤ c && c ≤ 'f' then some (c.toNat - 'a'.toNat + 10)
  else if 'A' ≤ c && c ≤ 'F' then some (c.toNat - 'A'.toNat + 10)
  else none

def hexValue? (digits : List Char) : Option Nat :=
  digits.foldlM (fun value c => (hexDigit? c).map (value * 16 + ·)) 0

def codePoint? (count : Nat) (text : List Char) : Option Char := do
  let digits := text.take count
  if digits.length != count then none
  else
    let code ← hexValue? digits
    if code < 0xD800 || (0xDFFF < code && code < 0x110000) then some (Char.ofNat code) else none

def escape? : List Char → Option (Char × Nat)
  | 'b' :: _ => some ('\x08', 1)
  | 't' :: _ => some ('\t', 1)
  | 'n' :: _ => some ('\n', 1)
  | 'f' :: _ => some ('\x0c', 1)
  | 'r' :: _ => some ('\r', 1)
  | '"' :: _ => some ('"', 1)
  | '\\' :: _ => some ('\\', 1)
  | 'u' :: rest => (codePoint? 4 rest).map (·, 5)
  | 'U' :: rest => (codePoint? 8 rest).map (·, 9)
  | _ => none

def basicRest (read : List Char) (text : List Char) : Option (String × List Char) :=
  match text with
  | [] => none
  | '"' :: rest => some (String.ofList read.reverse, rest)
  | '\\' :: rest =>
    match escape? rest with
    | some (c, count) => basicRest (c :: read) (rest.drop count)
    | none => none
  | c :: rest => if isPlain c then basicRest (c :: read) rest else none
termination_by text.length
decreasing_by all_goals simp only [List.length_drop, List.length_cons]; omega

def literalRest (read : List Char) : Reader String
  | [] => none
  | '\x27' :: rest => some (String.ofList read.reverse, rest)
  | c :: rest => if isPlain c then literalRest (c :: read) rest else none

def skipLines (text : List Char) : List Char :=
  match text with
  | '\r' :: '\n' :: rest => skipLines rest
  | c :: rest => if isBlank c || c == '\n' then skipLines rest else c :: rest
  | [] => []

theorem length_skipLines_le (text : List Char) : (skipLines text).length ≤ text.length := by
  fun_induction skipLines text <;> simp_all <;> omega

def afterContinuation? (text : List Char) : Option (List Char) :=
  (afterNewline? (skipBlanks text)).map skipLines

theorem length_afterNewline?_le {text rest : List Char} (found : afterNewline? text = some rest) :
    rest.length ≤ text.length := by
  unfold afterNewline? at found
  split at found
  · cases found; simp only [List.length_cons]; omega
  · cases found; simp only [List.length_cons]; omega
  · cases found

theorem length_afterContinuation?_le {text rest : List Char}
    (found : afterContinuation? text = some rest) : rest.length ≤ text.length := by
  obtain ⟨line, read, rfl⟩ := Option.map_eq_some_iff.mp found
  have blanks : (skipBlanks text).length ≤ text.length :=
    (List.dropWhile_sublist isBlank).length_le
  have newline := length_afterNewline?_le read
  have lines := length_skipLines_le line
  omega

/-- The quotes at the end of a string over several lines: three close it, and up to two more before
them belong to it. -/
def closingQuotes? (quote : Char) (text : List Char) : Option Nat :=
  let count := (text.takeWhile (· == quote)).length
  if 3 ≤ count then some (min count 5) else none

def basicLines (read : List Char) (text : List Char) : Option (String × List Char) :=
  match text with
  | [] => none
  | '"' :: rest =>
    match closingQuotes? '"' ('"' :: rest) with
    | some count =>
      some (String.ofList (List.replicate (count - 3) '"' ++ read).reverse, rest.drop (count - 1))
    | none => basicLines ('"' :: read) rest
  | '\\' :: rest =>
    match _continued : afterContinuation? rest with
    | some next => basicLines read next
    | none =>
      match escape? rest with
      | some (c, count) => basicLines (c :: read) (rest.drop count)
      | none => none
  | '\r' :: '\n' :: rest => basicLines ('\n' :: read) rest
  | c :: rest => if isPlain c || c == '\n' then basicLines (c :: read) rest else none
termination_by text.length
decreasing_by
  all_goals simp only [List.length_drop, List.length_cons]
  · omega
  · exact Nat.lt_succ_of_le (length_afterContinuation?_le ‹_›)
  all_goals omega

def literalLines (read : List Char) (text : List Char) : Option (String × List Char) :=
  match text with
  | [] => none
  | '\x27' :: rest =>
    match closingQuotes? '\x27' ('\x27' :: rest) with
    | some count =>
      some (String.ofList (List.replicate (count - 3) '\x27' ++ read).reverse,
        rest.drop (count - 1))
    | none => literalLines ('\x27' :: read) rest
  | '\r' :: '\n' :: rest => literalLines ('\n' :: read) rest
  | c :: rest => if isPlain c || c == '\n' then literalLines (c :: read) rest else none
termination_by text.length

-- A line break right behind the opening quotes is no part of the string.
def skipFirstNewline (text : List Char) : List Char := (afterNewline? text).getD text

def string? : Reader String
  | '"' :: '"' :: '"' :: rest => basicLines [] (skipFirstNewline rest)
  | '\x27' :: '\x27' :: '\x27' :: rest => literalLines [] (skipFirstNewline rest)
  | '"' :: rest => basicRest [] rest
  | '\x27' :: rest => literalRest [] rest
  | _ => none

def digitsRest (isDigit : Char → Bool) (read : List Char) : Reader (List Char)
  | '_' :: c :: rest => if isDigit c then digitsRest isDigit (c :: read) rest else none
  | ['_'] => none
  | c :: rest =>
    if isDigit c then digitsRest isDigit (c :: read) rest else some (read.reverse, c :: rest)
  | [] => some (read.reverse, [])

def digits? (isDigit : Char → Bool) : Reader (List Char)
  | c :: rest => if isDigit c then digitsRest isDigit [c] rest else none
  | [] => none

-- The digits of a whole number: a zero stands alone.
def wholeDigits? : Reader (List Char)
  | '0' :: rest => some (['0'], rest)
  | text => digits? Char.isDigit text

def decimalValue (digits : List Char) : Nat :=
  digits.foldl (fun value c => value * 10 + (c.toNat - '0'.toNat)) 0

def integerLimit : Nat := 0x8000000000000000

-- Integers have 64 bits.
def integer? (negative : Bool) (magnitude : Nat) : Option Value :=
  if negative then if magnitude ≤ integerLimit then some (.integer (-magnitude)) else none
  else if magnitude < integerLimit then some (.integer magnitude) else none

/-- A fraction with an exponent. Beyond the greatest one only a negative number is taken, as
negative infinity. -/
def fraction? (negative : Bool) (digits : Nat) (exponent : Int) : Option Value :=
  match Binary.ofScientific? digits exponent with
  | some magnitude => some (.fraction (.finite negative magnitude))
  | none => if negative then some (.fraction (.infinite true)) else none

def signed? : List Char → Bool × List Char
  | '+' :: rest => (false, rest)
  | '-' :: rest => (true, rest)
  | text => (false, text)

def exponent? (text : List Char) : Option (Int × List Char) := do
  let (negative, unsigned) := signed? text
  let (digits, rest) ← digits? Char.isDigit unsigned
  let magnitude : Int := decimalValue digits
  return (if negative then -magnitude else magnitude, rest)

def decimal? (text : List Char) : Option (Value × List Char) := do
  let (negative, unsigned) := signed? text
  let (whole, rest) ← wholeDigits? unsigned
  let (places, afterPlaces) ← match rest with
    | '.' :: fraction => (digits? Char.isDigit fraction).map fun (places, after) =>
      (some places, after)
    | _ => some (none, rest)
  let (exponent, afterExponent) ← match afterPlaces with
    | 'e' :: power | 'E' :: power => (exponent? power).map fun (exponent, after) =>
      (some exponent, after)
    | _ => some (none, afterPlaces)
  match places, exponent with
  | none, none => return (← integer? negative (decimalValue whole), afterExponent)
  | _, _ =>
    let fraction := places.getD []
    return (← fraction? negative (decimalValue (whole ++ fraction))
      (exponent.getD 0 - fraction.length), afterExponent)

def based? (base : Nat) (text : List Char) : Option (Value × List Char) := do
  let isDigit := fun c => (hexDigit? c).any (· < base)
  let (digits, rest) ← digits? isDigit text
  let magnitude := digits.foldl (fun value c => value * base + (hexDigit? c).getD 0) 0
  return (← integer? false magnitude, rest)

def special? (text : List Char) : Option (Value × List Char) :=
  let (negative, unsigned) := signed? text
  match unsigned with
  | 'i' :: 'n' :: 'f' :: rest => some (.fraction (.infinite negative), rest)
  | 'n' :: 'a' :: 'n' :: rest => some (.fraction .notANumber, rest)
  | _ => none

def number? (text : List Char) : Option (Value × List Char) :=
  match text with
  | '0' :: 'x' :: rest => based? 16 rest
  | '0' :: 'o' :: rest => based? 8 rest
  | '0' :: 'b' :: rest => based? 2 rest
  | _ => (special? text).or (decimal? text)

def fixed? (count : Nat) (text : List Char) : Option (Nat × List Char) :=
  let digits := text.take count
  if digits.length == count && digits.all Char.isDigit then
    some (decimalValue digits, text.drop count)
  else none

def pair? (low high : Nat) (text : List Char) : Option (Nat × List Char) :=
  (fixed? 2 text).filter fun (value, _) => low ≤ value && value ≤ high

def sign? (c : Char) : List Char → Option (List Char)
  | d :: rest => if d == c then some rest else none
  | [] => none

def daysIn (year month : Nat) : Nat :=
  if month == 2 then
    if year % 4 == 0 && (year % 100 != 0 || year % 400 == 0) then 29 else 28
  else if month == 4 || month == 6 || month == 9 || month == 11 then 30
  else 31

def afterHour? (text : List Char) : Option (List Char) := do
  let (_, text) ← pair? 0 59 text
  let (_, text) ← pair? 0 60 (← sign? ':' text)
  match text with
  | '.' :: c :: rest =>
    if c.isDigit then return rest.dropWhile Char.isDigit else return text
  | _ => return text

def afterOffset? (text : List Char) : Option (List Char) :=
  match text with
  | 'Z' :: rest | 'z' :: rest => some rest
  | '+' :: rest | '-' :: rest => do
    let (_, text) ← pair? 0 23 rest
    let (_, text) ← pair? 0 59 (← sign? ':' text)
    return text
  | _ => some text

def hour? (text : List Char) : Option (List Char) := do
  let (_, text) ← pair? 0 23 text
  sign? ':' text

def afterTime? (text : List Char) : Option (List Char) :=
  match text with
  | c :: rest =>
    if c == 'T' || c == 't' || c == ' ' then
      match hour? rest with
      | some time => afterHour? time >>= afterOffset?
      | none => some text
    else some text
  | [] => some text

def afterYear? (year : Nat) (text : List Char) : Option (List Char) := do
  let (month, text) ← pair? 1 12 text
  let (day, text) ← pair? 1 31 (← sign? '-' text)
  if daysIn year month < day then none else afterTime? text

def moment? (text : List Char) : Option (Option (List Char)) :=
  match (do let (year, text) ← fixed? 4 text; return (year, ← sign? '-' text)) with
  | some (year, text) => some (afterYear? year text)
  | none => (hour? text).map afterHour?

def scalar? (text : List Char) : Option (Value × List Char) :=
  match text with
  | '"' :: _ | '\x27' :: _ => (string? text).map fun (read, rest) => (.string read, rest)
  | 't' :: 'r' :: 'u' :: 'e' :: rest => some (.boolean true, rest)
  | 'f' :: 'a' :: 'l' :: 's' :: 'e' :: rest => some (.boolean false, rest)
  | _ =>
    match moment? text with
    | some rest => rest.map (.moment, ·)
    | none => number? text

end CognitiveComplexity.Toml
