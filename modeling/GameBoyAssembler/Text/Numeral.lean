/-!
# Reading numerals

* `digitValue?` — the value of one digit of a base up to sixteen;
* `ofDigits?` — the value of a non-empty run of digits;
* `magnitude?` — a decimal numeral, or a hexadecimal one behind `0x` or `0X`;
* `numeral?` — a numeral with an optional sign whose value fits in 32 bits.
-/

set_option relaxedAutoImplicit false
set_option autoImplicit false

namespace GameBoyAssembler

/-- The value of `c` as a digit of base `radix`, for a base of at most sixteen. -/
def digitValue? (radix : Nat) (c : Char) : Option Nat :=
  let d :=
    if '0' ≤ c ∧ c ≤ '9' then some (c.toNat - '0'.toNat)
    else if 'a' ≤ c ∧ c ≤ 'f' then some (c.toNat - 'a'.toNat + 10)
    else if 'A' ≤ c ∧ c ≤ 'F' then some (c.toNat - 'A'.toNat + 10)
    else none
  d.filter (· < radix)

/-- The value of the digits `cs` read behind digits of value `n`. -/
def ofDigitsFrom? (radix : Nat) : Nat → List Char → Option Nat
  | n, [] => some n
  | n, c :: cs =>
      match digitValue? radix c with
      | some d => ofDigitsFrom? radix (n * radix + d) cs
      | none => none

/-- The value of a non-empty run of digits. -/
def ofDigits? (radix : Nat) : List Char → Option Nat
  | [] => none
  | c :: cs => ofDigitsFrom? radix 0 (c :: cs)

/-- A numeral without a sign: hexadecimal behind `0x` or `0X`, decimal otherwise. -/
def magnitude? : List Char → Option Nat
  | '0' :: 'x' :: cs => ofDigits? 16 cs
  | '0' :: 'X' :: cs => ofDigits? 16 cs
  | cs => ofDigits? 10 cs

/-- The integers of a signed 32-bit word. -/
def FitsWord (v : Int) : Prop :=
  -0x80000000 ≤ v ∧ v ≤ 0x7FFFFFFF

instance (v : Int) : Decidable (FitsWord v) :=
  inferInstanceAs (Decidable (_ ∧ _))

/-- A numeral with at most one sign, whose value fits in a signed 32-bit word. -/
def numeral? (cs : List Char) : Option Int :=
  let v : Option Int :=
    match cs with
    | '-' :: ds => (magnitude? ds).map fun n => -(n : Int)
    | '+' :: ds => (magnitude? ds).map fun n => (n : Int)
    | ds => (magnitude? ds).map fun n => (n : Int)
  v.filter fun v => FitsWord v

end GameBoyAssembler
