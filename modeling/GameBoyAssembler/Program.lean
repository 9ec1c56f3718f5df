import GameBoyAssembler.Layout
import GameBoyAssembler.Listing

/-!
# Assembling a program

* `Program` — the instructions of a source with their addresses, and its symbols;
* `Program.image`, `Program.listing` — its machine code and its listing;
* `assemble` — assemble a source, or give its first error;
* `assembleAll` — assemble a source, or give all its errors in the order of the source.

The first error is one of the layout if there is any, and an error of an operand value otherwise.
-/

set_option relaxedAutoImplicit false
set_option autoImplicit false

namespace GameBoyAssembler

/-- An instruction and the address of its first byte. -/
structure Assembled where
  address : UInt16
  instruction : Instruction
  deriving DecidableEq, Repr

structure Program where
  /-- The instructions, in the order of the source. -/
  instructions : List Assembled
  symbols : SymbolTable

namespace Program

/-- The machine code. -/
def image (p : Program) : List UInt8 :=
  p.instructions.flatMap fun a => a.instruction.bytes

/-- The listing. -/
def listing (p : Program) : String :=
  String.join (p.instructions.map fun a => listingLine a.address a.instruction)

end Program

/-- The instruction with its operands resolved. -/
def Pending.resolve (symbols : SymbolTable) (p : Pending) : Except Error Assembled :=
  (p.build (some symbols)).map (Assembled.mk p.address)

/-- Assemble a source whose first instruction is at `base`, up to the first error. -/
def assemble (source : String) (base : UInt16) : Except Error Program := do
  let layout ← (Layout.start base).untilError (Line.ofSource source)
  let instructions ← layout.pending.toList.mapM (Pending.resolve layout.symbols)
  return ⟨instructions, layout.symbols⟩

/-- The error of a failure. -/
def errorOf? {α : Type} : Except Error α → Option Error
  | .ok _ => none
  | .error e => some e

/-- The order of errors in the source. -/
def Error.le (e f : Error) : Bool :=
  e.span.pos.le f.span.pos

/-- Assemble a source whose first instruction is at `base`, and collect all errors.  Errors at the
same place keep their order: those of the layout come first. -/
def assembleAll (source : String) (base : UInt16) : Except (List Error) Program :=
  let (layout, layoutErrors) := (Layout.start base).keepGoing (Line.ofSource source)
  let results := layout.pending.toList.map (Pending.resolve layout.symbols)
  let errors := layoutErrors ++ results.filterMap errorOf?
  if errors.isEmpty then .ok ⟨results.filterMap Except.toOption, layout.symbols⟩
  else .error (errors.mergeSort Error.le)

end GameBoyAssembler
