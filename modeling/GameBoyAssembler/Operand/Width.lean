import GameBoyAssembler.Text.Hex

/-!
# Widths of number operands

A width is the set of values that a number operand accepts.  Where the CPU does not care about the
sign, both the signed and the unsigned reading of a byte or word are accepted.
-/

set_option relaxedAutoImplicit false
set_option autoImplicit false

namespace GameBoyAssembler

inductive Width where
  /-- A signed or an unsigned byte. -/
  | either8
  | unsigned8
  | signed8
  /-- A signed or an unsigned word. -/
  | either16
  | unsigned16
  | bitIndex
  deriving DecidableEq, Repr

namespace Width

/-- The least value. -/
def low : Width → Int
  | either8 | signed8 => -128
  | either16 => -32768
  | unsigned8 | unsigned16 | bitIndex => 0

/-- The greatest value. -/
def high : Width → Int
  | either8 | unsigned8 => 255
  | signed8 => 127
  | either16 | unsigned16 => 65535
  | bitIndex => 7

/-- The accepted values are those from `low` to `high`. -/
def Accepts (w : Width) (v : Int) : Prop :=
  w.low ≤ v ∧ v ≤ w.high

instance (w : Width) (v : Int) : Decidable (w.Accepts v) :=
  inferInstanceAs (Decidable (_ ∧ _))

/-- What an operand of this width is called. -/
def text : Width → String
  | either8 => "an 8-bit operand"
  | unsigned8 => "an unsigned 8-bit operand"
  | signed8 => "a signed 8-bit operand"
  | either16 => "a 16-bit operand"
  | unsigned16 => "an unsigned 16-bit operand"
  | bitIndex => "a bit index"

/-- The values from first to last, as they are written in a message. -/
def rangeText (w : Width) : String :=
  "(" ++ signedHex w.low ++ "..=" ++ signedHex w.high ++ ")"

end Width

end GameBoyAssembler
