set_option autoImplicit false

namespace CognitiveComplexity

abbrev Bytes := List UInt8

namespace Byte

@[match_pattern] abbrev newline : UInt8 := 0x0A
@[match_pattern] abbrev carriageReturn : UInt8 := 0x0D
@[match_pattern] abbrev doubleQuote : UInt8 := 0x22
@[match_pattern] abbrev hash : UInt8 := 0x23
@[match_pattern] abbrev dollar : UInt8 := 0x24
@[match_pattern] abbrev singleQuote : UInt8 := 0x27
@[match_pattern] abbrev asterisk : UInt8 := 0x2A
@[match_pattern] abbrev dash : UInt8 := 0x2D
@[match_pattern] abbrev dot : UInt8 := 0x2E
@[match_pattern] abbrev slash : UInt8 := 0x2F
@[match_pattern] abbrev less : UInt8 := 0x3C
@[match_pattern] abbrev equals : UInt8 := 0x3D
@[match_pattern] abbrev greater : UInt8 := 0x3E
@[match_pattern] abbrev question : UInt8 := 0x3F
@[match_pattern] abbrev openSquare : UInt8 := 0x5B
@[match_pattern] abbrev backslash : UInt8 := 0x5C
@[match_pattern] abbrev underscore : UInt8 := 0x5F
@[match_pattern] abbrev backquote : UInt8 := 0x60

def isBlank (b : UInt8) : Bool :=
  b == 0x20 || b == 0x09 || b == newline || b == 0x0C || b == carriageReturn

def isIndent (b : UInt8) : Bool := b == 0x20 || b == 0x09

def isDigit (b : UInt8) : Bool := 0x30 ≤ b && b ≤ 0x39

def isUpper (b : UInt8) : Bool := 0x41 ≤ b && b ≤ 0x5A

def isLower (b : UInt8) : Bool := 0x61 ≤ b && b ≤ 0x7A

def isLetter (b : UInt8) : Bool := isUpper b || isLower b

def isAlphanumeric (b : UInt8) : Bool := isLetter b || isDigit b

/-- The bytes names are made of. Every byte of a multi-byte character is one of them. -/
def isWord (b : UInt8) : Bool := isAlphanumeric b || b == underscore || 0x80 ≤ b

def isWordStart (b : UInt8) : Bool := isLetter b || b == underscore

def isQuote (b : UInt8) : Bool := b == singleQuote || b == doubleQuote || b == backquote

def lower (b : UInt8) : UInt8 := if isUpper b then b + 0x20 else b

end Byte

namespace Bytes

def ofString (text : String) : Bytes := text.toUTF8.data.toList

def decode? (bytes : Bytes) : Option String := String.fromUTF8? ⟨bytes.toArray⟩

/-- The text these bytes encode. Slices of a source text that end at character boundaries always
have one. -/
def decode (bytes : Bytes) : String := (decode? bytes).getD ""

def lower (bytes : Bytes) : Bytes := bytes.map Byte.lower

end Bytes

end CognitiveComplexity
