/-!
# Settings

What a run takes from a settings file.  Whatever the file does not set has a default.
-/

set_option relaxedAutoImplicit false
set_option autoImplicit false

namespace GameBoyAssembler

inductive OutputFormat where
  /-- The machine code. -/
  | binary
  /-- A line for each instruction. -/
  | listing
  deriving DecidableEq, Repr

structure Config where
  /-- The address of the first instruction. -/
  base : UInt16 := 0
  /-- Report every failing statement, not only the first. -/
  keepGoing : Bool := false
  format : OutputFormat := .binary
  /-- The file name extension of machine code written next to its source. -/
  extension : String := "gb"
  deriving DecidableEq, Repr

end GameBoyAssembler
