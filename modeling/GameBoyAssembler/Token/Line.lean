import GameBoyAssembler.Token.Lexer

/-!
# Lines of tokens

A statement ends with its line, and a lexical error spoils no more than its own line.  So a source
is read as a list of lines, each with its tokens and lexical errors and the token that ends it.
Blank lines are part of the line end before them.
-/

set_option relaxedAutoImplicit false
set_option autoImplicit false

namespace GameBoyAssembler

/-- The tokens and lexical errors of a line, and the token that ends it. -/
structure Line where
  items : List Item
  stop : Token

namespace Line

/-- Put an item in front of the first line. -/
def consItem (item : Item) : List Line → List Line
  | [] => []
  | l :: ls => { l with items := item :: l.items } :: ls

/-- Cut a list of items behind each line end. -/
def ofItems : List Item → List Line
  | [] => []
  | .ok t :: items =>
      if t.endsLine then ⟨[], t⟩ :: ofItems items else consItem (.ok t) (ofItems items)
  | .error e :: items => consItem (.error e) (ofItems items)

/-- The lines of a source. -/
def ofSource (source : String) : List Line :=
  ofItems (Cursor.ofSource source).items

end Line

end GameBoyAssembler
