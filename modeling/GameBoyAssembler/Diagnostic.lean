import GameBoyAssembler.Error
import GameBoyAssembler.Text.Lines

/-!
# Showing errors

An error is shown with the line it is about and a mark under the characters concerned:

    1:7: range error: 0xFFFF is out of range for an 8-bit operand (-0x80..=0xFF)
    1 | LD B, 0xFFFF
      |       ^~~~~~

* `excerpt` — a line of the source with a mark under a stretch of it;
* `report` — a message with its excerpt, and with a second one if the message refers to another
  place;
* `Error.render` — an error the way a user sees it.
-/

set_option relaxedAutoImplicit false
set_option autoImplicit false

namespace GameBoyAssembler

/-- What stands before the mark: as wide as the text above it, which is why tabs are kept. -/
def markPadding (text : List Char) (width : Nat) : List Char :=
  ((text ++ List.replicate (width - text.length) ' ').take width).map
    fun c => if c = '\t' then '\t' else ' '

/-- A line of the source with a mark under a stretch of it.  Numbers that point outside of the
source are shown all the same. -/
def excerpt (source : String) (span : Span) : String :=
  let number := Nat.repr span.pos.line
  let text := lineText source.toList span.pos.line
  let padding := markPadding text (span.pos.column - 1)
  let mark := '^' :: List.replicate (span.width - 1) '~'
  number ++ " | " ++ String.ofList text ++ "\n"
    ++ String.ofList (List.replicate number.length ' ') ++ " | " ++ String.ofList (padding ++ mark)

/-- A message with the source it is about. -/
def report (source message : String) (span : Span) (reference : Option Span) : String :=
  let first := message ++ "\n" ++ excerpt source span
  match reference with
  | none => first
  | some other => first ++ "\nThe expression is referring to\n" ++ excerpt source other

/-- An error of a source, with its excerpt. -/
def Error.render (source : String) (e : Error) : String :=
  report source e.header e.span e.reference

end GameBoyAssembler
