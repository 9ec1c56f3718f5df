import GameBoyAssembler.Cpu.Instruction
import GameBoyAssembler.Text.Hex

/-!
# Opcodes and machine code

An instruction is one to three bytes: an opcode, then its operand, low byte first.  The opcodes of
the extended set stand behind the byte `Opcode.extension`.

* `Opcode` — an opcode of the base set or of the extended set;
* `Instruction.opcode` — the opcode that the fields of an instruction select;
* `Instruction.bytes` — the machine code.
-/

set_option relaxedAutoImplicit false
set_option autoImplicit false

namespace GameBoyAssembler

inductive Opcode where
  | base (op : UInt8)
  | extended (op : UInt8)
  deriving DecidableEq, Repr

namespace Opcode

/-- The byte in front of the opcodes of the extended set. -/
def extension : UInt8 := 0xCB

/-- The first byte of the instruction.  It decides the length. -/
def firstByte : Opcode → UInt8
  | base op => op
  | extended _ => extension

def bytes : Opcode → List UInt8
  | base op => [op]
  | extended op => [extension, op]

def text : Opcode → String
  | base op => hex 2 op.toNat
  | extended op => hex 2 extension.toNat ++ String.ofList (hexDigits 2 op.toNat)

end Opcode

def Implied.opcode : Implied → UInt8
  | nop => 0x00
  | stop => 0x10
  | halt => 0x76
  | di => 0xF3
  | ei => 0xFB
  | scf => 0x37
  | ccf => 0x3F
  | cpl => 0x2F
  | daa => 0x27
  | rlca => 0x07
  | rrca => 0x0F
  | rla => 0x17
  | rra => 0x1F
  | ret => 0xC9
  | reti => 0xD9
  | jpHL => 0xE9
  | ldSPHL => 0xF9
  | storeHighC => 0xE2
  | loadHighC => 0xF2

/-- The two bytes of a word, low byte first. -/
def wordBytes (nn : UInt16) : List UInt8 :=
  [nn.toUInt8, (nn >>> 8).toUInt8]

/-- The word with the given low and high byte. -/
def wordOf (low high : UInt8) : UInt16 :=
  low.toUInt16 ||| (high.toUInt16 <<< 8)

/-- The opcode `op` with `n` in the field that starts at bit three. -/
def withY (op n : UInt8) : UInt8 := op ||| (n <<< 3)

/-- The opcode `op` with `n` in the field that starts at bit four, which numbers a pair. -/
def withP (op n : UInt8) : UInt8 := op ||| (n <<< 4)

namespace Instruction

/-- The opcode.  A restart vector and a bit index give only the bits that fit their field. -/
def opcode : Instruction → Opcode
  | implied op => .base op.opcode
  | arith op r => .base (withY 0x80 op.code ||| r.code)
  | arithImm op _ => .base (withY 0xC6 op.code)
  | inc r => .base (withY 0x04 r.code)
  | dec r => .base (withY 0x05 r.code)
  | incPair rr => .base (withP 0x03 rr.code)
  | decPair rr => .base (withP 0x0B rr.code)
  | addHL rr => .base (withP 0x09 rr.code)
  | addSP _ => .base 0xE8
  | load dst src => .base (withY 0x40 dst.code ||| src.code)
  | loadImm r _ => .base (withY 0x06 r.code)
  | loadPairImm rr _ => .base (withP 0x01 rr.code)
  | storeVia p => .base (withP 0x02 p.code)
  | loadVia p => .base (withP 0x0A p.code)
  | storeAt _ => .base 0xEA
  | loadAt _ => .base 0xFA
  | storeSPAt _ => .base 0x08
  | storeHigh _ => .base 0xE0
  | loadHigh _ => .base 0xF0
  | loadHLSP _ => .base 0xF8
  | jump none _ => .base 0xC3
  | jump (some cc) _ => .base (withY 0xC2 cc.code)
  | jumpRel none _ => .base 0x18
  | jumpRel (some cc) _ => .base (withY 0x20 cc.code)
  | call none _ => .base 0xCD
  | call (some cc) _ => .base (withY 0xC4 cc.code)
  | retIf cc => .base (withY 0xC0 cc.code)
  | restart vector => .base (0xC7 ||| (vector &&& 0x38 : UInt8))
  | push q => .base (withP 0xC5 q.code)
  | pop q => .base (withP 0xC1 q.code)
  | rotate op r => .extended (withY 0 op.code ||| r.code)
  | bit op index r => .extended (withY (op.code <<< 6) (index &&& 7) ||| r.code)

/-- The bytes behind the opcode.  STOP carries a zero byte. -/
def operandBytes : Instruction → List UInt8
  | implied .stop => [0]
  | arithImm _ n | loadImm _ n | storeHigh n | loadHigh n => [n]
  | addSP e | loadHLSP e | jumpRel _ e => [e.toUInt8]
  | loadPairImm _ nn | storeAt nn | loadAt nn | storeSPAt nn | jump _ nn | call _ nn =>
      wordBytes nn
  | _ => []

/-- The machine code of an instruction. -/
def bytes (i : Instruction) : List UInt8 :=
  i.opcode.bytes ++ i.operandBytes

end Instruction

end GameBoyAssembler
