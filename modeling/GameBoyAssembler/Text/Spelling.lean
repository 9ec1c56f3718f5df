/-!
# Spelling of names

Names of mnemonics, registers and conditions are read without regard to the case of ASCII letters,
and a memory operand is a name in matching brackets, round or square.

* `sameLetters` — equality up to the case of ASCII letters;
* `insideBrackets?` — what stands between matching brackets.
-/

set_option relaxedAutoImplicit false
set_option autoImplicit false

namespace GameBoyAssembler

/-- The characters of `s` with every ASCII letter made a capital. -/
def capitals (s : String) : List Char :=
  s.toList.map Char.toUpper

/-- Equality up to the case of ASCII letters. -/
def sameLetters (s t : String) : Bool :=
  capitals s == capitals t

theorem sameLetters_iff {s t : String} : sameLetters s t = true ↔ capitals s = capitals t := by
  simp [sameLetters]

@[simp] theorem sameLetters_refl (s : String) : sameLetters s s = true := by
  simp [sameLetters]

/-- The list without its last element, provided that this is `a`. -/
def dropLast? {α : Type} [DecidableEq α] (a : α) (as : List α) : Option (List α) :=
  if as.getLast? = some a then some as.dropLast else none

/-- What stands inside a pair of matching brackets around the whole text. -/
def insideBrackets? (name : String) : Option String :=
  match name.toList with
  | '(' :: cs => (dropLast? ')' cs).map String.ofList
  | '[' :: cs => (dropLast? ']' cs).map String.ofList
  | _ => none

end GameBoyAssembler
