import GameBoyAssembler.Text.Numeral

/-!
# Addresses on the command line

An address is decimal, or hexadecimal behind `0x` or `0X`, and may have a plus sign before its
digits.  Reading stops at the first character that is no digit or takes the value beyond 0xFFFF.
-/

set_option relaxedAutoImplicit false
set_option autoImplicit false

namespace GameBoyAssembler

/-- Why a text is no address. -/
inductive AddressFault where
  | empty
  | invalidDigit
  | tooLarge
  deriving DecidableEq, Repr

def AddressFault.text : AddressFault → String
  | empty => "cannot parse integer from empty string"
  | invalidDigit => "invalid digit found in string"
  | tooLarge => "number too large to fit in target type"

/-- The value of digits behind digits of value `n`.  Each is first looked at as a digit. -/
def addressDigits (radix n : Nat) : List Char → Except AddressFault Nat
  | [] => .ok n
  | c :: cs =>
      match digitValue? radix c with
      | none => .error .invalidDigit
      | some d =>
          if 0xFFFF < n * radix + d then .error .tooLarge
          else addressDigits radix (n * radix + d) cs

/-- The value of digits behind an optional plus sign, which does not stand alone. -/
def signedAddress (radix : Nat) : List Char → Except AddressFault Nat
  | [] => .error .empty
  | ['+'] => .error .invalidDigit
  | '+' :: cs => addressDigits radix 0 cs
  | cs => addressDigits radix 0 cs

/-- The address that a text stands for. -/
def parseAddress (text : String) : Except AddressFault UInt16 :=
  let value := match text.toList with
    | '0' :: 'x' :: cs => signedAddress 16 cs
    | '0' :: 'X' :: cs => signedAddress 16 cs
    | cs => signedAddress 10 cs
  value.map UInt16.ofNat

/-- The message for a text that is no address. -/
def AddressFault.message (fault : AddressFault) (text : String) : String :=
  "invalid address '" ++ text ++ "': " ++ fault.text

end GameBoyAssembler
