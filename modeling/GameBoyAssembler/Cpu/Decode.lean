import GameBoyAssembler.Cpu.Opcode

/-!
# Decoding

The first byte of an instruction announces what follows it.  An opcode splits into fields: `x` the
top two bits, `z` the low three, `y` the three between; the upper two bits of `y` number a pair.

* `Form` — what a first byte announces;
* `form` — the form of every first byte;
* `lengthTable`, `instructionLength` — the length of an instruction by its first byte, zero if there
  is none;
* `decode?` — the instruction at the start of a byte sequence.
-/

set_option relaxedAutoImplicit false
set_option autoImplicit false

namespace GameBoyAssembler

/-- What the first byte of an instruction announces. -/
inductive Form where
  /-- The byte starts no instruction. -/
  | unused
  /-- The byte is the whole instruction. -/
  | alone (i : Instruction)
  /-- A byte follows. -/
  | byte (make : UInt8 → Instruction)
  /-- A signed byte follows. -/
  | offset (make : Int8 → Instruction)
  /-- A word follows, low byte first. -/
  | word (make : UInt16 → Instruction)
  /-- A zero byte follows. -/
  | zero (i : Instruction)
  /-- An opcode of the extended set follows. -/
  | extended

/-- The number of bytes of an instruction of this form. -/
def Form.length : Form → Nat
  | unused => 0
  | alone _ => 1
  | byte _ | offset _ | zero _ | extended => 2
  | word _ => 3

/-- The forms with zero in the top two bits: 16-bit arithmetic and loads, INC, DEC, byte
immediates, relative jumps and the operations on A alone. -/
def lowForm (op : UInt8) : Form :=
  let y := (op >>> 3) &&& 7
  let p := op >>> 4
  match op &&& 7, y &&& 1 with
  | 0, _ =>
      match y with
      | 0 => .alone (.implied .nop)
      | 1 => .word .storeSPAt
      | 2 => .zero (.implied .stop)
      | 3 => .offset (.jumpRel none)
      | _ => .offset (.jumpRel (some (.ofCode y)))
  | 1, 0 => .word (.loadPairImm (.ofCode p))
  | 1, _ => .alone (.addHL (.ofCode p))
  | 2, 0 => .alone (.storeVia (.ofCode p))
  | 2, _ => .alone (.loadVia (.ofCode p))
  | 3, 0 => .alone (.incPair (.ofCode p))
  | 3, _ => .alone (.decPair (.ofCode p))
  | 4, _ => .alone (.inc (.ofCode y))
  | 5, _ => .alone (.dec (.ofCode y))
  | 6, _ => .byte (.loadImm (.ofCode y))
  | _, _ =>
      match y with
      | 0 => .alone (.implied .rlca)
      | 1 => .alone (.implied .rrca)
      | 2 => .alone (.implied .rla)
      | 3 => .alone (.implied .rra)
      | 4 => .alone (.implied .daa)
      | 5 => .alone (.implied .cpl)
      | 6 => .alone (.implied .scf)
      | _ => .alone (.implied .ccf)

/-- The forms with three in the top two bits: control flow, the stack, the high page, and
arithmetic with a byte immediate. -/
def highForm (op : UInt8) : Form :=
  let y := (op >>> 3) &&& 7
  let p := op >>> 4
  match op &&& 7 with
  | 0 =>
      match y with
      | 4 => .byte .storeHigh
      | 5 => .offset .addSP
      | 6 => .byte .loadHigh
      | 7 => .offset .loadHLSP
      | _ => .alone (.retIf (.ofCode y))
  | 1 =>
      match y with
      | 1 => .alone (.implied .ret)
      | 3 => .alone (.implied .reti)
      | 5 => .alone (.implied .jpHL)
      | 7 => .alone (.implied .ldSPHL)
      | _ => .alone (.pop (.ofCode p))
  | 2 =>
      match y with
      | 4 => .alone (.implied .storeHighC)
      | 5 => .word .storeAt
      | 6 => .alone (.implied .loadHighC)
      | 7 => .word .loadAt
      | _ => .word (.jump (some (.ofCode y)))
  | 3 =>
      match y with
      | 0 => .word (.jump none)
      | 1 => .extended
      | 6 => .alone (.implied .di)
      | 7 => .alone (.implied .ei)
      | _ => .unused
  | 4 => if y < 4 then .word (.call (some (.ofCode y))) else .unused
  | 5 =>
      match y with
      | 1 => .word (.call none)
      | 3 | 5 | 7 => .unused
      | _ => .alone (.push (.ofCode p))
  | 6 => .byte (.arithImm (.ofCode y))
  | _ => .alone (.restart (y <<< 3))

/-- The form that a first byte announces. -/
def form (op : UInt8) : Form :=
  match op >>> 6 with
  | 0 => lowForm op
  | 1 =>
      if op = Implied.halt.opcode then .alone (.implied .halt)
      else .alone (.load (.ofCode (op >>> 3)) (.ofCode op))
  | 2 => .alone (.arith (.ofCode (op >>> 3)) (.ofCode op))
  | _ => highForm op

set_option maxRecDepth 2048 in
/-- The length of the instruction that starts with each byte, sixteen bytes to a line.  Zero marks the
bytes that start none. -/
def lengthTable : Vector Nat 256 := #v[
  1, 3, 1, 1, 1, 1, 2, 1, 3, 1, 1, 1, 1, 1, 2, 1,
  2, 3, 1, 1, 1, 1, 2, 1, 2, 1, 1, 1, 1, 1, 2, 1,
  2, 3, 1, 1, 1, 1, 2, 1, 2, 1, 1, 1, 1, 1, 2, 1,
  2, 3, 1, 1, 1, 1, 2, 1, 2, 1, 1, 1, 1, 1, 2, 1,
  1, 1, 1, 1, 1, 1, 1, 1, 1, 1, 1, 1, 1, 1, 1, 1,
  1, 1, 1, 1, 1, 1, 1, 1, 1, 1, 1, 1, 1, 1, 1, 1,
  1, 1, 1, 1, 1, 1, 1, 1, 1, 1, 1, 1, 1, 1, 1, 1,
  1, 1, 1, 1, 1, 1, 1, 1, 1, 1, 1, 1, 1, 1, 1, 1,
  1, 1, 1, 1, 1, 1, 1, 1, 1, 1, 1, 1, 1, 1, 1, 1,
  1, 1, 1, 1, 1, 1, 1, 1, 1, 1, 1, 1, 1, 1, 1, 1,
  1, 1, 1, 1, 1, 1, 1, 1, 1, 1, 1, 1, 1, 1, 1, 1,
  1, 1, 1, 1, 1, 1, 1, 1, 1, 1, 1, 1, 1, 1, 1, 1,
  1, 1, 3, 3, 3, 1, 2, 1, 1, 1, 3, 2, 3, 3, 2, 1,
  1, 1, 3, 0, 3, 1, 2, 1, 1, 1, 3, 0, 3, 0, 2, 1,
  2, 1, 1, 0, 0, 1, 2, 1, 2, 1, 3, 0, 0, 0, 2, 1,
  2, 1, 1, 1, 0, 1, 2, 1, 2, 1, 3, 1, 0, 0, 2, 1]

/-- The length of the instruction that starts with `op`; zero if none does. -/
def instructionLength (op : UInt8) : Nat :=
  lengthTable.get op.toFin

/-- The instruction of an opcode of the extended set.  Every byte is one. -/
def extendedInstruction (op : UInt8) : Instruction :=
  let y := (op >>> 3) &&& 7
  match op >>> 6 with
  | 0 => .rotate (.ofCode y) (.ofCode op)
  | 1 => .bit .bit y (.ofCode op)
  | 2 => .bit .res y (.ofCode op)
  | _ => .bit .set y (.ofCode op)

/-- Complete an announced instruction with the bytes that follow, if there are enough of them. -/
def Form.complete? : Form → List UInt8 → Option Instruction
  | alone i, _ => some i
  | byte make, n :: _ => some (make n)
  | offset make, n :: _ => some (make n.toInt8)
  | word make, low :: high :: _ => some (make (wordOf low high))
  | zero i, n :: _ => if n = 0 then some i else none
  | extended, op :: _ => some (extendedInstruction op)
  | _, _ => none

/-- The instruction at the start of a byte sequence.  There is none if the first byte starts no
instruction or the sequence ends too early. -/
def decode? : List UInt8 → Option Instruction
  | [] => none
  | op :: rest => (form op).complete? rest

end GameBoyAssembler
