import GameBoyAssembler.Text.Spelling

/-!
# Register operands

The register fields of an opcode number the operands of each class.  `code` gives the number of an
operand, `ofCode` reads a field back, taking as many low bits as the class needs, and `text` is the
way the operand is written.  Names are read with `ofName?`, in either letter case.

* `Reg8` — the byte registers, with the byte at HL among them;
* `Reg16` — the pairs of 16-bit loads and arithmetic;
* `StackPair` — the pairs of PUSH and POP;
* `Pointer` — the memory operands that go with register A only;
* `Condition` — the branch conditions;
* `isRegisterName` — the names that no symbol can have.
-/

set_option relaxedAutoImplicit false
set_option autoImplicit false

namespace GameBoyAssembler

/-! ### Byte registers -/

/-- A byte operand.  `atHL` is the byte in memory that HL points to; it has the number between L
and A. -/
inductive Reg8 where
  | b | c | d | e | h | l | atHL | a
  deriving DecidableEq, Repr

namespace Reg8

/-- All byte operands, in the order of their numbers. -/
def all : List Reg8 := [b, c, d, e, h, l, atHL, a]

/-- The number in a three-bit opcode field. -/
def code : Reg8 → UInt8
  | b => 0 | c => 1 | d => 2 | e => 3 | h => 4 | l => 5 | atHL => 6 | a => 7

/-- The operand named by the low three bits. -/
def ofCode (n : UInt8) : Reg8 :=
  match n &&& 7 with
  | 0 => b | 1 => c | 2 => d | 3 => e | 4 => h | 5 => l | 6 => atHL | _ => a

@[simp] theorem ofCode_code (r : Reg8) : ofCode r.code = r := by cases r <;> rfl

def text : Reg8 → String
  | b => "B" | c => "C" | d => "D" | e => "E" | h => "H" | l => "L" | atHL => "(HL)" | a => "A"

/-- Look a byte operand up by name.  In brackets only HL names one. -/
def ofName? (name : String) : Option Reg8 :=
  match insideBrackets? name with
  | some inner => if sameLetters inner "HL" then some atHL else none
  | none => all.find? fun r => sameLetters r.text name

end Reg8

/-! ### Register pairs -/

/-- A pair of 16-bit loads and arithmetic. -/
inductive Reg16 where
  | bc | de | hl | sp
  deriving DecidableEq, Repr

namespace Reg16

def all : List Reg16 := [bc, de, hl, sp]

/-- The number in a two-bit opcode field. -/
def code : Reg16 → UInt8
  | bc => 0 | de => 1 | hl => 2 | sp => 3

/-- The pair named by the low two bits. -/
def ofCode (n : UInt8) : Reg16 :=
  match n &&& 3 with
  | 0 => bc | 1 => de | 2 => hl | _ => sp

@[simp] theorem ofCode_code (r : Reg16) : ofCode r.code = r := by cases r <;> rfl

def text : Reg16 → String
  | bc => "BC" | de => "DE" | hl => "HL" | sp => "SP"

def ofName? (name : String) : Option Reg16 :=
  all.find? fun r => sameLetters r.text name

end Reg16

/-- A pair of PUSH and POP: AF stands in the place of SP. -/
inductive StackPair where
  | bc | de | hl | af
  deriving DecidableEq, Repr

namespace StackPair

def all : List StackPair := [bc, de, hl, af]

/-- The number in a two-bit opcode field. -/
def code : StackPair → UInt8
  | bc => 0 | de => 1 | hl => 2 | af => 3

/-- The pair named by the low two bits. -/
def ofCode (n : UInt8) : StackPair :=
  match n &&& 3 with
  | 0 => bc | 1 => de | 2 => hl | _ => af

@[simp] theorem ofCode_code (q : StackPair) : ofCode q.code = q := by cases q <;> rfl

def text : StackPair → String
  | bc => "BC" | de => "DE" | hl => "HL" | af => "AF"

def ofName? (name : String) : Option StackPair :=
  all.find? fun q => sameLetters q.text name

end StackPair

/-! ### Memory behind a pair -/

/-- The byte that a pair points to, loaded into or stored from A.  After the access `hlInc` adds one
to HL and `hlDec` takes one away. -/
inductive Pointer where
  | bc | de | hlInc | hlDec
  deriving DecidableEq, Repr

namespace Pointer

def all : List Pointer := [bc, de, hlInc, hlDec]

/-- The number in a two-bit opcode field. -/
def code : Pointer → UInt8
  | bc => 0 | de => 1 | hlInc => 2 | hlDec => 3

/-- The pointer named by the low two bits. -/
def ofCode (n : UInt8) : Pointer :=
  match n &&& 3 with
  | 0 => bc | 1 => de | 2 => hlInc | _ => hlDec

@[simp] theorem ofCode_code (p : Pointer) : ofCode p.code = p := by cases p <;> rfl

def text : Pointer → String
  | bc => "(BC)" | de => "(DE)" | hlInc => "(HL+)" | hlDec => "(HL-)"

/-- The spellings between the brackets. -/
def spellings : Pointer → List String
  | bc => ["BC"]
  | de => ["DE"]
  | hlInc => ["HL+", "HLI"]
  | hlDec => ["HL-", "HLD"]

/-- Look a pointer up by name, brackets included. -/
def ofName? (name : String) : Option Pointer :=
  (insideBrackets? name).bind fun inner => all.find? fun p => p.spellings.any (sameLetters inner)

end Pointer

/-! ### Branch conditions -/

/-- A condition on the zero flag or the carry flag. -/
inductive Condition where
  | nz | z | nc | c
  deriving DecidableEq, Repr

namespace Condition

def all : List Condition := [nz, z, nc, c]

/-- The number in a two-bit opcode field. -/
def code : Condition → UInt8
  | nz => 0 | z => 1 | nc => 2 | c => 3

/-- The condition named by the low two bits. -/
def ofCode (n : UInt8) : Condition :=
  match n &&& 3 with
  | 0 => nz | 1 => z | 2 => nc | _ => c

@[simp] theorem ofCode_code (cc : Condition) : ofCode cc.code = cc := by cases cc <;> rfl

def text : Condition → String
  | nz => "NZ" | z => "Z" | nc => "NC" | c => "C"

def ofName? (name : String) : Option Condition :=
  all.find? fun cc => sameLetters cc.text name

end Condition

/-! ### Reserved names -/

/-- Register C in brackets: the byte of the high page at offset C. -/
def isHighC (name : String) : Bool :=
  (insideBrackets? name).any (sameLetters "C")

/-- The names of registers, pairs and memory operands made of them. -/
def isRegisterName (name : String) : Bool :=
  (Reg8.ofName? name).isSome
    || (Reg16.ofName? name).isSome
    || (StackPair.ofName? name).isSome
    || (Pointer.ofName? name).isSome
    || isHighC name
    || (insideBrackets? name).any fun inner => (Reg16.ofName? inner).isSome

end GameBoyAssembler
