import GameBoyAssembler.Cpu.Register

/-!
# Instructions

One constructor stands for each form of instruction; registers, conditions and operations are its
fields, and so are the numbers that follow the opcode.

* `Implied`, `Arith`, `Rotate`, `BitAction` — the operations that share a form;
* `Instruction` — an instruction with all its operands;
* `Instruction.erase` — the instruction with its number operand set to zero, which is what can be
  known of it before the symbols are.
-/

set_option relaxedAutoImplicit false
set_option autoImplicit false

namespace GameBoyAssembler

/-- An instruction without operand fields. -/
inductive Implied where
  | nop | stop | halt | di | ei | scf | ccf | cpl | daa | rlca | rrca | rla | rra | ret | reti
  /-- Jump to the address in HL. -/
  | jpHL
  /-- Load SP from HL. -/
  | ldSPHL
  /-- Store A to the high page at offset C. -/
  | storeHighC
  /-- Load A from the high page at offset C. -/
  | loadHighC
  deriving DecidableEq, Repr

/-- Arithmetic and logic on register A. -/
inductive Arith where
  | add | adc | sub | sbc | and | xor | or | cp
  deriving DecidableEq, Repr

namespace Arith

/-- The number in a three-bit opcode field. -/
def code : Arith → UInt8
  | add => 0 | adc => 1 | sub => 2 | sbc => 3 | and => 4 | xor => 5 | or => 6 | cp => 7

/-- The operation named by the low three bits. -/
def ofCode (n : UInt8) : Arith :=
  match n &&& 7 with
  | 0 => add | 1 => adc | 2 => sub | 3 => sbc | 4 => and | 5 => xor | 6 => or | _ => cp

@[simp] theorem ofCode_code (op : Arith) : ofCode op.code = op := by cases op <;> rfl

end Arith

/-- Rotates and shifts of the extended set. -/
inductive Rotate where
  | rlc | rrc | rl | rr | sla | sra | swap | srl
  deriving DecidableEq, Repr

namespace Rotate

/-- The number in a three-bit opcode field. -/
def code : Rotate → UInt8
  | rlc => 0 | rrc => 1 | rl => 2 | rr => 3 | sla => 4 | sra => 5 | swap => 6 | srl => 7

/-- The operation named by the low three bits. -/
def ofCode (n : UInt8) : Rotate :=
  match n &&& 7 with
  | 0 => rlc | 1 => rrc | 2 => rl | 3 => rr | 4 => sla | 5 => sra | 6 => swap | _ => srl

@[simp] theorem ofCode_code (op : Rotate) : ofCode op.code = op := by cases op <;> rfl

end Rotate

/-- What the extended set does with a single bit: test, clear or set it. -/
inductive BitAction where
  | bit | res | set
  deriving DecidableEq, Repr

/-- The number in the top two bits of an extended opcode.  Zero is left to the rotates. -/
def BitAction.code : BitAction → UInt8
  | bit => 1 | res => 2 | set => 3

/-- An instruction with all its operands. -/
inductive Instruction where
  | implied (op : Implied)
  | arith (op : Arith) (r : Reg8)
  | arithImm (op : Arith) (n : UInt8)
  | inc (r : Reg8)
  | dec (r : Reg8)
  | incPair (rr : Reg16)
  | decPair (rr : Reg16)
  | addHL (rr : Reg16)
  | addSP (e : Int8)
  | load (dst src : Reg8)
  | loadImm (r : Reg8) (n : UInt8)
  | loadPairImm (rr : Reg16) (nn : UInt16)
  | storeVia (p : Pointer)
  | loadVia (p : Pointer)
  | storeAt (nn : UInt16)
  | loadAt (nn : UInt16)
  | storeSPAt (nn : UInt16)
  /-- Store A to the high page; the operand is the offset from 0xFF00. -/
  | storeHigh (n : UInt8)
  /-- Load A from the high page. -/
  | loadHigh (n : UInt8)
  /-- Load HL with SP and an offset. -/
  | loadHLSP (e : Int8)
  | jump (cc : Option Condition) (nn : UInt16)
  /-- The operand counts from the address behind the instruction. -/
  | jumpRel (cc : Option Condition) (e : Int8)
  | call (cc : Option Condition) (nn : UInt16)
  | retIf (cc : Condition)
  /-- Call one of the vectors 0x00, 0x08, and so on to 0x38. -/
  | restart (vector : UInt8)
  | push (q : StackPair)
  | pop (q : StackPair)
  | rotate (op : Rotate) (r : Reg8)
  | bit (op : BitAction) (index : UInt8) (r : Reg8)
  deriving DecidableEq, Repr

/-- The instruction with zero in place of its number operand. -/
def Instruction.erase : Instruction → Instruction
  | arithImm op _ => arithImm op 0
  | addSP _ => addSP 0
  | loadImm r _ => loadImm r 0
  | loadPairImm rr _ => loadPairImm rr 0
  | storeAt _ => storeAt 0
  | loadAt _ => loadAt 0
  | storeSPAt _ => storeSPAt 0
  | storeHigh _ => storeHigh 0
  | loadHigh _ => loadHigh 0
  | loadHLSP _ => loadHLSP 0
  | jump cc _ => jump cc 0
  | jumpRel cc _ => jumpRel cc 0
  | call cc _ => call cc 0
  | restart _ => restart 0
  | bit op _ r => bit op 0 r
  | i => i

end GameBoyAssembler
