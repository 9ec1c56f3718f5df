/-!
# Cutting text at byte offsets

Offsets count the bytes of the UTF-8 form.  A cut is possible only between two characters.

* `dropBytes?` — the text from a byte offset on;
* `takeBytes?` — the text up to a byte offset;
* `withoutEnds?` — the text without its first and its last byte.
-/

set_option relaxedAutoImplicit false
set_option autoImplicit false

namespace GameBoyAssembler

/-- The number of bytes of the UTF-8 form. -/
def byteSize : List Char → Nat
  | [] => 0
  | c :: cs => c.utf8Size + byteSize cs

/-- What follows the first `n` bytes, if they end between two characters. -/
def dropBytes? : Nat → List Char → Option (List Char)
  | 0, cs => some cs
  | _ + 1, [] => none
  | n + 1, c :: cs => if c.utf8Size ≤ n + 1 then dropBytes? (n + 1 - c.utf8Size) cs else none

/-- The first `n` bytes, if they end between two characters. -/
def takeBytes? : Nat → List Char → Option (List Char)
  | 0, _ => some []
  | _ + 1, [] => none
  | n + 1, c :: cs =>
      if c.utf8Size ≤ n + 1 then (takeBytes? (n + 1 - c.utf8Size) cs).map (c :: ·) else none

/-- The text without its first and its last byte, if there are two and both are characters. -/
def withoutEnds? (cs : List Char) : Option (List Char) :=
  if byteSize cs < 2 then none
  else (dropBytes? 1 cs).bind (takeBytes? (byteSize cs - 2))

end GameBoyAssembler
