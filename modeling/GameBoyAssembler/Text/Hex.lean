/-!
# Hexadecimal numerals

Every number this library prints, line numbers and bit indices apart, is written in base sixteen
behind `0x`.  The forms differ only in the least number of digits and in the case of the letters.

* `hexDigits` — the digits alone, capital letters, filled up with zeros;
* `hex` — the numeral with its mark;
* `signedHex` — an integer as a sign and a magnitude of at least two digits;
* `lowerHex` — the small-letter form.
-/

set_option relaxedAutoImplicit false
set_option autoImplicit false

namespace GameBoyAssembler

/-- The digits of `n` in base sixteen with capital letters, filled up with zeros to `width`. -/
def hexDigits (width n : Nat) : List Char :=
  ((Nat.toDigits 16 n).map Char.toUpper).leftpad width '0'

/-- The numeral of `n` with at least `width` digits, such as `0x00FF` for width four. -/
def hex (width n : Nat) : String :=
  "0x" ++ String.ofList (hexDigits width n)

/-- An integer as a sign and a magnitude of at least two digits, such as `-0x03`. -/
def signedHex (v : Int) : String :=
  (if v < 0 then "-" else "") ++ hex 2 v.natAbs

/-- The numeral of `n` with small letters and at least `width` digits. -/
def lowerHex (width n : Nat) : String :=
  "0x" ++ String.ofList ((Nat.toDigits 16 n).leftpad width '0')

end GameBoyAssembler
