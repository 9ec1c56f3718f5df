/-!
# Command line options

* `Options` — what a run is asked to do;
* `Request` — what a command line asks for.
-/

set_option relaxedAutoImplicit false
set_option autoImplicit false

namespace GameBoyAssembler

structure Options where
  /-- The source, or the machine code to disassemble. -/
  input : String
  output : Option String := none
  /-- Write a listing instead of machine code. -/
  listing : Bool := false
  /-- Report every failing statement, not only the first. -/
  keepGoing : Bool := false
  /-- The address of the first instruction. -/
  base : Option UInt16 := none
  /-- The settings file to use in place of the user's. -/
  config : Option String := none
  /-- List machine code. -/
  disassemble : Bool := false
  deriving DecidableEq, Repr

/-- What a command line asks for. -/
inductive Request where
  | run (options : Options)
  /-- A text to show, such as the version or the help. -/
  | display (text : String)
  /-- Nothing that makes sense; the text says why. -/
  | usage (text : String)
  deriving DecidableEq, Repr

end GameBoyAssembler
