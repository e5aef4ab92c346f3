import CognitiveComplexity.Byte

set_option autoImplicit false

namespace CognitiveComplexity.Text

-- Where in a control sequence a byte stands.
inductive ControlState where
  | text
  | character
  | escape
  | intermediate
  | parameters
  | titled
  | enclosed
  deriving DecidableEq, Repr

namespace ControlState

def afterEscape (b : UInt8) : ControlState :=
  if b == 0x5B then .parameters
  else if b == 0x5D then .titled
  else if b == 0x50 || b == 0x58 || b == 0x5E || b == 0x5F then .enclosed
  else if 0x30 ≤ b && b ≤ 0x7E then .text
  else if 0x20 ≤ b && b ≤ 0x2F then .intermediate
  else .escape

def plain (b : UInt8) : ControlState × Bool :=
  if b == 0x1B then (.escape, false)
  else if 0xC2 ≤ b then (.character, true)
  else (.text, Byte.isBlank b || (0x20 ≤ b && b < 0x7F))

/-- The state after a byte, and whether the byte is shown. White space inside a sequence breaks it
off. -/
def step (state : ControlState) (b : UInt8) : ControlState × Bool :=
  match state with
  | .text => plain b
  | .character => if 0x80 ≤ b && b ≤ 0xBF then (.character, true) else plain b
  | .titled =>
    if b == 0x1B then (.escape, false)
    else if b == 0x07 || b == 0x18 || b == 0x1A then (.text, false)
    else (.titled, false)
  | .enclosed =>
    if b == 0x1B then (.escape, false)
    else if b == 0x9C || b == 0x18 || b == 0x1A then (.text, false)
    else (.enclosed, false)
  | _ =>
    if b == 0x1B then (.escape, false)
    else if b == 0x18 || b == 0x1A then (.text, false)
    else if b != 0x20 && Byte.isBlank b then (.text, true)
    else if state == .escape then (afterEscape b, false)
    else if state == .intermediate then
      (if 0x30 ≤ b && b ≤ 0x7E then .text else .intermediate, false)
    else (if 0x40 ≤ b && b ≤ 0x7E then .text else .parameters, false)

end ControlState

def shown (state : ControlState) : Bytes → Bytes
  | [] => []
  | b :: rest =>
    let (next, isShown) := state.step b
    if isShown then b :: shown next rest else shown next rest

def withoutControl (text : String) : String :=
  Bytes.decode (shown .text (Bytes.ofString text))

end CognitiveComplexity.Text
