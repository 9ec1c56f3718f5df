import GameBoyAssembler.Cpu.Decode
import GameBoyAssembler.Cpu.Printed

/-!
# Listings

A listing has one line for each instruction: its address, its opcode and its text.  Machine code is
listed by reading one instruction after the other; a byte at which none starts is listed as data.

* `listingLine` — the line of an instruction;
* `Chunk`, `chunks` — a byte sequence cut into instructions and data bytes;
* `disassemble` — the listing of a byte sequence.
-/

set_option relaxedAutoImplicit false
set_option autoImplicit false

namespace GameBoyAssembler

/-- The line of the instruction `i` at an address. -/
def listingLine (address : UInt16) (i : Instruction) : String :=
  wordText address ++ " : [" ++ i.opcode.text ++ "] " ++ i.text ++ "\n"

/-- A piece of machine code: an instruction, or a byte at which none starts. -/
inductive Chunk where
  | code (i : Instruction)
  | data (b : UInt8)
  deriving DecidableEq, Repr

namespace Chunk

/-- The bytes of a piece. -/
def bytes : Chunk → List UInt8
  | code i => i.bytes
  | data b => [b]

/-- The line of a piece. -/
def line (address : UInt16) : Chunk → String
  | code i => listingLine address i
  | data b => wordText address ++ " : [" ++ byteText b ++ "] DB " ++ byteText b ++ "\n"

end Chunk

/-- Machine code cut into pieces, each with its offset, where the first piece has offset `pos`. -/
def chunks (pos : Nat) : List UInt8 → List (Nat × Chunk)
  | [] => []
  | op :: rest =>
      match decode? (op :: rest) with
      | some i =>
          let more := instructionLength op - 1
          (pos, .code i) :: chunks (pos + 1 + more) (rest.drop more)
      | none => (pos, .data op) :: chunks (pos + 1) rest
termination_by bytes => bytes.length

/-- The listing of machine code whose first byte is at address `base`.  Addresses wrap around. -/
def disassemble (bytes : List UInt8) (base : UInt16) : String :=
  String.join ((chunks 0 bytes).map fun p => p.2.line (base + UInt16.ofNat p.1))

end GameBoyAssembler
