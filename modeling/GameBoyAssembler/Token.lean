import GameBoyAssembler.Source.Position
import GameBoyAssembler.Text.Cut

/-!
# Tokens

* `TokenKind` — the kinds of tokens;
* `Token` — a token with its text as it stands in the source, its place, and its value if it is a
  number.
-/

set_option relaxedAutoImplicit false
set_option autoImplicit false

namespace GameBoyAssembler

inductive TokenKind where
  /-- A mnemonic, register, condition or symbol, perhaps in brackets. -/
  | identifier
  /-- A number with an optional sign. -/
  | number
  | comma
  /-- A number in brackets. -/
  | address
  /-- A name with a colon behind it. -/
  | globalLabel
  /-- A name with a dot in front, perhaps with a colon behind it. -/
  | localLabel
  /-- SP with a signed number. -/
  | spShifted
  /-- One or more line ends. -/
  | endOfLine
  | endOfFile
  /-- A character that starts no token. -/
  | invalid
  deriving DecidableEq, Repr

structure Token where
  kind : TokenKind
  /-- The text in the source, with brackets, sign and colon. -/
  text : String
  pos : Position
  /-- The number that the token stands for. -/
  value : Option Int
  deriving DecidableEq, Repr

namespace Token

/-- The characters that a token covers.  An empty token still points at one. -/
def spanOf (pos : Position) (text : String) : Span :=
  ⟨pos, max text.length 1⟩

def span (t : Token) : Span :=
  spanOf t.pos t.text

/-- The end of a line or of the whole source. -/
def endsLine (t : Token) : Bool :=
  t.kind == .endOfLine || t.kind == .endOfFile

def isComma (t : Token) : Bool :=
  t.kind == .comma

/-- The text starts with a bracket. -/
def isBracketed (t : Token) : Bool :=
  t.text.toList.head?.any fun c => c == '(' || c == '['

/-- The text without its brackets. -/
def unbracketed (t : Token) : String :=
  if t.isBracketed then String.ofList ((withoutEnds? t.text.toList).getD []) else t.text

/-- The token as a message names it. -/
def describe (t : Token) : String :=
  match t.kind with
  | .endOfLine => "end of line"
  | .endOfFile => "end of file"
  | _ => "'" ++ t.text ++ "'"

end Token

end GameBoyAssembler
