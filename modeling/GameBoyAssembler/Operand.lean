import GameBoyAssembler.Cpu.Register
import GameBoyAssembler.Symbol
import GameBoyAssembler.Text.Numeral

/-!
# Operands

An operand is read in two ways.  Its shape says which kinds of operand it can be, and its quantity
is the number it stands for.  The shape depends on the token alone.  The quantity of a symbol is known
only with the symbol table; without one, a symbol stands for zero and every range is met.

* `Shape`, `Token.shape` — registers, memory, numbers;
* `Context` — where an operand stands, and the symbols if they are known;
* `Context.number` — a number that a width accepts;
* `Context.displacement`, `Context.highPageOffset`, `Context.restartVector` — the numbers with rules
  of their own.
-/

set_option relaxedAutoImplicit false
set_option autoImplicit false

namespace GameBoyAssembler

/-! ### Shapes -/

inductive Shape where
  | reg8 (r : Reg8)
  | reg16 (rr : Reg16)
  | af
  | via (p : Pointer)
  /-- The byte of the high page at offset C. -/
  | highC
  /-- An address or a symbol in brackets. -/
  | memory
  /-- SP with an offset. -/
  | spOffset
  /-- A number or a symbol. -/
  | immediate
  /-- A register name that is no operand, such as SP in brackets. -/
  | misplaced
  deriving DecidableEq, Repr

/-- A shape made of registers. -/
def Shape.isRegister : Shape → Bool
  | memory | spOffset | immediate => false
  | _ => true

/-- The shape of a name. -/
def Shape.ofName (name : String) (bracketed : Bool) : Shape :=
  match Reg8.ofName? name, Reg16.ofName? name, Pointer.ofName? name with
  | some r, _, _ => reg8 r
  | none, some rr, _ => reg16 rr
  | none, none, some p => via p
  | none, none, none =>
      if sameLetters name "AF" then af
      else if isHighC name then highC
      else if isRegisterName name then misplaced
      else if bracketed then memory
      else immediate

/-- The shape of an operand token. -/
def Token.shape (t : Token) : Except Error Shape :=
  match t.kind with
  | .number | .localLabel => .ok .immediate
  | .address => .ok .memory
  | .spShifted => .ok .spOffset
  | .identifier => .ok (.ofName t.text t.isBracketed)
  | _ => .error (.about t (.expectedOperand t))

/-- The error for a token whose shape is not the wanted one. -/
def Token.unlike (t : Token) (shape : Shape) (wanted : Wanted) : Error :=
  .about t (.wrongOperand wanted shape.isRegister t.text)

namespace Token

def reg8 (t : Token) : Except Error Reg8 := do
  match ← t.shape with
  | .reg8 r => return r
  | shape => throw (t.unlike shape .byteRegister)

def reg16 (t : Token) : Except Error Reg16 := do
  match ← t.shape with
  | .reg16 rr => return rr
  | shape => throw (t.unlike shape .pair)

/-- Accept register A only. -/
def expectA (t : Token) : Except Error Unit := do
  match ← t.shape with
  | .reg8 .a => return ()
  | shape => throw (t.unlike shape .accumulator)

def stackPair (t : Token) : Except Error StackPair := do
  let named := if t.kind = .identifier then StackPair.ofName? t.text else none
  match named with
  | some q => return q
  | none => throw (t.unlike (← t.shape) .stackPair)

def condition (t : Token) : Except Error Condition :=
  let named := if t.kind = .identifier then Condition.ofName? t.text else none
  match named with
  | some cc => .ok cc
  | none => .error (.about t (.expectedCondition t.text))

end Token

/-! ### Numbers -/

/-- Where an operand stands. -/
structure Context where
  /-- All symbols, once they are known. -/
  symbols : Option SymbolTable
  /-- The global label that local labels belong to. -/
  scope : Option String
  /-- The address of the instruction. -/
  address : UInt16

/-- The number that an operand stands for. -/
structure Quantity where
  value : Int
  /-- The definition it came from, if it was not written out. -/
  origin : Option Token

namespace Context

/-- The number that a token stands for, or `none` for a symbol while symbols are not known.  A
number that is written out counts whatever the shape of its token. -/
def quantity (c : Context) (t : Token) : Except Error (Option Quantity) := do
  match t.value with
  | some v => return some ⟨v, none⟩
  | none =>
      match ← t.shape with
      | .immediate | .memory =>
          let key ← symbolKey c.scope t
          match c.symbols with
          | none => return none
          | some table =>
              let (v, origin) ← table.resolve key t
              return some ⟨v, some origin⟩
      | shape => throw (t.unlike shape .number)

/-- The value of a token, passed through a rule that may refuse it.  The rule is not asked about a
symbol that is not known, which gets zero. -/
def checked {α : Type} [OfNat α 0] (c : Context) (t : Token) (rule : Int → Except Cause α) :
    Except Error α := do
  match ← c.quantity t with
  | none => return 0
  | some q =>
      match rule q.value with
      | .ok a => return a
      | .error cause => throw (.referring t cause q.origin)

/-- The value of a token, if the width accepts it. -/
def number (c : Context) (t : Token) (width : Width) : Except Error Int :=
  c.checked t width.check

def byte (c : Context) (t : Token) : Except Error UInt8 :=
  return UInt8.ofInt (← c.number t .either8)

def word (c : Context) (t : Token) : Except Error UInt16 :=
  return UInt16.ofInt (← c.number t .either16)

def addressWord (c : Context) (t : Token) : Except Error UInt16 :=
  return UInt16.ofInt (← c.number t .unsigned16)

def offset (c : Context) (t : Token) : Except Error Int8 :=
  return Int8.ofInt (← c.number t .signed8)

def bitIndex (c : Context) (t : Token) : Except Error UInt8 :=
  return UInt8.ofInt (← c.number t .bitIndex)

/-- The way from behind a relative jump at `address` to `target`.  A relative jump has two bytes. -/
def displacementTo (address : UInt16) (target : Int) : Except Cause Int8 :=
  let d := target - (address.toNat + 2)
  if ¬ FitsWord d then .error (.farOutOfReach target)
  else if Width.signed8.Accepts d then .ok (Int8.ofInt d)
  else .error (.outOfReach target d)

/-- The operand of a relative jump: a number that is written out is the displacement itself, and a
symbol is the address to jump to. -/
def displacement (c : Context) (t : Token) : Except Error Int8 :=
  match t.value with
  | some _ => c.offset t
  | none => c.checked t (displacementTo c.address)

/-- The offset into the high page, given as such or as an address in the page. -/
def highPageRule (v : Int) : Except Cause UInt8 :=
  let offset := if 0xFF00 ≤ v ∧ v ≤ 0xFFFF then v - 0xFF00 else v
  if Width.unsigned8.Accepts offset then .ok (UInt8.ofInt offset) else .error (.notInHighPage v)

def highPageOffset (c : Context) (t : Token) : Except Error UInt8 :=
  c.checked t highPageRule

/-- The restart vectors are the multiples of eight up to 0x38. -/
def restartRule (v : Int) : Except Cause UInt8 :=
  if 0 ≤ v ∧ v ≤ 0x38 ∧ v % 8 = 0 then .ok (UInt8.ofInt v) else .error (.notRestartVector v)

def restartVector (c : Context) (t : Token) : Except Error UInt8 :=
  c.checked t restartRule

end Context

end GameBoyAssembler
