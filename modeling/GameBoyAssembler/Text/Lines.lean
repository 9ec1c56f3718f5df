/-!
# The lines of a text

A line ends with a line feed; a carriage return right before it belongs to the line end.  A text
that ends with a line feed has no further, empty line.
-/

set_option relaxedAutoImplicit false
set_option autoImplicit false

namespace GameBoyAssembler

/-- The lines of a text, without their line ends. -/
def lines : List Char → List (List Char)
  | [] => []
  | '\n' :: cs => [] :: lines cs
  | '\r' :: '\n' :: cs => [] :: lines cs
  | c :: cs =>
      match lines cs with
      | [] => [[c]]
      | l :: ls => (c :: l) :: ls

/-- The text of line number `n`, counted from one.  A number past the end names an empty line, and
zero names the first. -/
def lineText (source : List Char) (n : Nat) : List Char :=
  ((lines source)[n - 1]?).getD []

end GameBoyAssembler
