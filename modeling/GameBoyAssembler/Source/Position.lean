/-!
# Places in a source text

Lines and columns are counted from one, and a column counts characters.  Only a line feed starts a
new line.

* `Position` — a place in the text, with `Position.after` for the place behind some characters;
* `Span` — a stretch of one line.
-/

set_option relaxedAutoImplicit false
set_option autoImplicit false

namespace GameBoyAssembler

structure Position where
  line : Nat
  column : Nat
  deriving DecidableEq, Repr

namespace Position

/-- The place of the first character. -/
def start : Position := ⟨1, 1⟩

/-- The place behind the character `c` at `p`. -/
def step (p : Position) (c : Char) : Position :=
  if c = '\n' then ⟨p.line + 1, 1⟩ else ⟨p.line, p.column + 1⟩

/-- The place behind the characters `cs` that start at `p`. -/
def after (p : Position) (cs : List Char) : Position :=
  cs.foldl step p

@[simp] theorem after_nil (p : Position) : p.after [] = p := rfl

@[simp] theorem after_cons (p : Position) (c : Char) (cs : List Char) :
    p.after (c :: cs) = (p.step c).after cs := rfl

theorem after_append (p : Position) (cs ds : List Char) :
    p.after (cs ++ ds) = (p.after cs).after ds := by
  simp [after]

/-- The order of places in the text. -/
def le (p q : Position) : Bool :=
  p.line < q.line || (p.line == q.line && p.column ≤ q.column)

end Position

/-- A stretch of characters on one line. -/
structure Span where
  pos : Position
  width : Nat
  deriving DecidableEq, Repr

end GameBoyAssembler
