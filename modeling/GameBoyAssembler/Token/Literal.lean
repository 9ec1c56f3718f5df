import GameBoyAssembler.Error
import GameBoyAssembler.Text.Numeral

/-!
# Tokens made from text

A token of a number kind needs a numeral in its text; the other kinds take any text.

* `literalPart?` — where the numeral stands in the text of a token;
* `Token.ofText` — the token of a given kind and text.
-/

set_option relaxedAutoImplicit false
set_option autoImplicit false

namespace GameBoyAssembler

/-- The numeral in a token's text: all of a number, what stands between the brackets of an
address, what follows SP.  Brackets and SP are counted in bytes, and a text that cannot be cut there
has no numeral. -/
def literalPart? (kind : TokenKind) (cs : List Char) : Option (List Char) :=
  match kind with
  | .number => some cs
  | .address => withoutEnds? cs
  | .spShifted => dropBytes? 2 cs
  | _ => none

/-- The kinds whose tokens stand for a number. -/
def TokenKind.isNumeric (kind : TokenKind) : Bool :=
  kind == .number || kind == .address || kind == .spShifted

/-- The token of a kind and a text, or an error if it should hold a number and does not. -/
def Token.ofText (kind : TokenKind) (text : String) (pos : Position) : Except Error Token :=
  if kind.isNumeric then
    match (literalPart? kind text.toList).bind numeral? with
    | some v => .ok ⟨kind, text, pos, some v⟩
    | none => .error ⟨.malformedNumber text, Token.spanOf pos text, none⟩
  else .ok ⟨kind, text, pos, none⟩

end GameBoyAssembler
