import GameBoyAssembler.Cpu.Opcode

/-!
# The printed form of an instruction

`Instruction.text` writes an instruction the way a source line would: the mnemonic, then the
operands with a comma and a space between them.  Numbers are hexadecimal, bit indices decimal, and
displacements carry a sign.
-/

set_option relaxedAutoImplicit false
set_option autoImplicit false

namespace GameBoyAssembler

def Implied.text : Implied → String
  | nop => "NOP"
  | stop => "STOP"
  | halt => "HALT"
  | di => "DI"
  | ei => "EI"
  | scf => "SCF"
  | ccf => "CCF"
  | cpl => "CPL"
  | daa => "DAA"
  | rlca => "RLCA"
  | rrca => "RRCA"
  | rla => "RLA"
  | rra => "RRA"
  | ret => "RET"
  | reti => "RETI"
  | jpHL => "JP HL"
  | ldSPHL => "LD SP, HL"
  | storeHighC => "LD (C), A"
  | loadHighC => "LD A, (C)"

namespace Arith

def text : Arith → String
  | add => "ADD" | adc => "ADC" | sub => "SUB" | sbc => "SBC"
  | and => "AND" | xor => "XOR" | or => "OR" | cp => "CP"

/-- The mnemonic with what comes before its source operand: ADD, ADC and SBC are written with their
destination. -/
def opening (op : Arith) : String :=
  match op with
  | add | adc | sbc => op.text ++ " A, "
  | _ => op.text ++ " "

end Arith

def Rotate.text : Rotate → String
  | rlc => "RLC" | rrc => "RRC" | rl => "RL" | rr => "RR"
  | sla => "SLA" | sra => "SRA" | swap => "SWAP" | srl => "SRL"

def BitAction.text : BitAction → String
  | bit => "BIT" | res => "RES" | set => "SET"

/-- A condition in front of another operand; nothing if there is none. -/
def conditionOpening : Option Condition → String
  | none => ""
  | some cc => cc.text ++ ", "

def byteText (n : UInt8) : String := hex 2 n.toNat

def wordText (nn : UInt16) : String := hex 4 nn.toNat

def offsetText (e : Int8) : String := signedHex e.toInt

/-- The text of an instruction. -/
def Instruction.text : Instruction → String
  | implied op => op.text
  | arith op r => op.opening ++ r.text
  | arithImm op n => op.opening ++ byteText n
  | inc r => "INC " ++ r.text
  | dec r => "DEC " ++ r.text
  | incPair rr => "INC " ++ rr.text
  | decPair rr => "DEC " ++ rr.text
  | addHL rr => "ADD HL, " ++ rr.text
  | addSP e => "ADD SP, " ++ offsetText e
  | load dst src => "LD " ++ dst.text ++ ", " ++ src.text
  | loadImm r n => "LD " ++ r.text ++ ", " ++ byteText n
  | loadPairImm rr nn => "LD " ++ rr.text ++ ", " ++ wordText nn
  | storeVia p => "LD " ++ p.text ++ ", A"
  | loadVia p => "LD A, " ++ p.text
  | storeAt nn => "LD (" ++ wordText nn ++ "), A"
  | loadAt nn => "LD A, (" ++ wordText nn ++ ")"
  | storeSPAt nn => "LD (" ++ wordText nn ++ "), SP"
  | storeHigh n => "LDH (" ++ byteText n ++ "), A"
  | loadHigh n => "LDH A, (" ++ byteText n ++ ")"
  | loadHLSP e => "LD HL, SP" ++ (if e < 0 then "" else "+") ++ offsetText e
  | jump cc nn => "JP " ++ conditionOpening cc ++ wordText nn
  | jumpRel cc e => "JR " ++ conditionOpening cc ++ offsetText e
  | call cc nn => "CALL " ++ conditionOpening cc ++ wordText nn
  | retIf cc => "RET " ++ cc.text
  | restart vector => "RST " ++ byteText vector
  | push q => "PUSH " ++ q.text
  | pop q => "POP " ++ q.text
  | rotate op r => op.text ++ " " ++ r.text
  | bit op index r => op.text ++ " " ++ Nat.repr index.toNat ++ ", " ++ r.text

end GameBoyAssembler
