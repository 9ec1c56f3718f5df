import GameBoyAssembler.Text.Spelling
import GameBoyAssembler.Token.Literal

/-!
# Reading tokens

Reading is done in two steps.  `lexeme` looks at the characters alone: it finds the kind of the
token in front and its length, or the fault and how far in it lies.  `Cursor.next` adds the place,
skips blanks and comments, and takes a run of line ends as one token.

* `Cursor` — what is left of a source, and where it starts;
* `Cursor.next` — the next token or lexical error, and the cursor behind it;
* `Cursor.skipLine` — the cursor at the end of the line;
* `Cursor.items` — all tokens and lexical errors to the end of the source.

Main result: `Cursor.length_next_lt` — every reading short of the end of the source takes at least
one character, so that `Cursor.items` comes to an end.
-/

set_option relaxedAutoImplicit false
set_option autoImplicit false

namespace GameBoyAssembler

/-! ### Classes of characters -/

/-- A blank inside a line. -/
def isBlank (c : Char) : Bool :=
  c == ' ' || c == '\t' || c == '\r'

def isNameStart (c : Char) : Bool :=
  c.isAlpha || c == '_'

def isNameChar (c : Char) : Bool :=
  c.isAlphanum || c == '_'

/-- Inside brackets a name may hold signs, as in the operands that step HL. -/
def isBracketedChar (c : Char) : Bool :=
  isNameChar c || c == '+' || c == '-'

def isSign (c : Char) : Bool :=
  c == '+' || c == '-'

/-! ### The token in front -/

/-- The length of the run of characters of a class in front. -/
def runLength (p : Char → Bool) (cs : List Char) : Nat :=
  (cs.takeWhile p).length

/-- The characters in front that hold no token: blanks, then a comment up to the line end. -/
def blankLength (cs : List Char) : Nat :=
  let n := runLength isBlank cs
  match cs.drop n with
  | ';' :: comment => n + 1 + runLength (· != '\n') comment
  | _ => n

/-- The characters in front that are line ends, blanks and comments.  The flag says that a comment
has started. -/
def breakLength : Bool → List Char → Nat
  | _, [] => 0
  | comment, c :: cs =>
      if c = '\n' then breakLength false cs + 1
      else if comment || c = ';' then breakLength true cs + 1
      else if isBlank c then breakLength false cs + 1
      else 0

/-- What stands in front of a text: a token of some kind, or a fault, and the number of characters
taken.  A fault lies right behind them. -/
structure Lexeme where
  outcome : Except Cause TokenKind
  length : Nat

/-- The rest of a token after its opening bracket. -/
def bracketLexeme (opening : Char) (cs : List Char) : Lexeme :=
  let closed (kind : TokenKind) (n : Nat) : Lexeme :=
    match cs.drop n with
    | c :: _ =>
        if c = closingBracket opening then ⟨.ok kind, n + 2⟩
        else ⟨.error (.unclosedBracket opening (some c)), n + 1⟩
    | [] => ⟨.error (.unclosedBracket opening none), n + 1⟩
  match cs with
  | [] => ⟨.error (.badBracketContent opening none), 1⟩
  | c :: _ =>
      if isNameStart c then closed .identifier (runLength isBracketedChar cs)
      else if c.isDigit then closed .address (runLength isNameChar cs)
      else ⟨.error (.badBracketContent opening (some c)), 1⟩

/-- A token that starts with a name of `n` characters: SP with an offset, a global label, or the
name itself. -/
def nameLexeme (n : Nat) (cs : List Char) : Lexeme :=
  let name := String.ofList (cs.take n)
  match cs.drop n with
  | sign :: digit :: rest =>
      if sameLetters name "SP" && isSign sign && digit.isDigit then
        ⟨.ok .spShifted, n + 1 + runLength isNameChar (digit :: rest)⟩
      else if sign = ':' then ⟨.ok .globalLabel, n + 1⟩
      else ⟨.ok .identifier, n⟩
  | [c] => if c = ':' then ⟨.ok .globalLabel, n + 1⟩ else ⟨.ok .identifier, n⟩
  | [] => ⟨.ok .identifier, n⟩

/-- The token in front of a text that starts with none of blank, comment and line end. -/
def lexeme : List Char → Lexeme
  | [] => ⟨.ok .endOfFile, 0⟩
  | c :: cs =>
      if c = ',' then ⟨.ok .comma, 1⟩
      else if c = '.' then
        let n := runLength isNameChar cs
        if n = 0 then ⟨.error (.noLabelName cs.head?), 1⟩
        else if (cs.drop n).head? = some ':' then ⟨.ok .localLabel, n + 2⟩
        else ⟨.ok .localLabel, n + 1⟩
      else if c = '(' || c = '[' then bracketLexeme c cs
      else if c.isDigit then ⟨.ok .number, runLength isNameChar cs + 1⟩
      else if isSign c then
        if cs.head?.any Char.isDigit then ⟨.ok .number, runLength isNameChar cs + 1⟩
        else ⟨.error (.signWithoutDigit c), 1⟩
      else if isNameStart c then nameLexeme (runLength isNameChar (c :: cs)) (c :: cs)
      else ⟨.ok .invalid, 1⟩

theorem length_bracketLexeme_pos (opening : Char) (cs : List Char) :
    0 < (bracketLexeme opening cs).length := by
  simp only [bracketLexeme]
  repeat' split
  all_goals exact Nat.succ_pos _

theorem le_length_nameLexeme (n : Nat) (cs : List Char) : n ≤ (nameLexeme n cs).length := by
  simp only [nameLexeme]
  repeat' split
  all_goals dsimp only
  all_goals omega

theorem runLength_isNameChar_pos {c : Char} (h : isNameStart c = true) (cs : List Char) :
    0 < runLength isNameChar (c :: cs) := by
  have : isNameChar c = true := by
    simp only [isNameStart, isNameChar, Char.isAlphanum, Bool.or_eq_true] at h ⊢
    exact h.imp_left Or.inl
  simp [runLength, this]

theorem length_lexeme_pos {cs : List Char} (h : cs ≠ []) : 0 < (lexeme cs).length := by
  cases cs with
  | nil => exact absurd rfl h
  | cons c cs =>
      by_cases hn : isNameStart c = true
      · have hr := runLength_isNameChar_pos hn cs
        have hl := le_length_nameLexeme (runLength isNameChar (c :: cs)) (c :: cs)
        have hb := length_bracketLexeme_pos c cs
        grind [lexeme]
      · have hb := length_bracketLexeme_pos c cs
        grind [lexeme]

/-! ### Cursors -/

/-- What is left of a source, and the place where it starts. -/
structure Cursor where
  rest : List Char
  pos : Position
  deriving DecidableEq, Repr

/-- A token, or the lexical error that stands in its place. -/
abbrev Item := Except Error Token

namespace Cursor

/-- The cursor in front of a source. -/
def ofSource (source : String) : Cursor :=
  ⟨source.toList, .start⟩

/-- The cursor `n` characters further. -/
def advance (c : Cursor) (n : Nat) : Cursor :=
  ⟨c.rest.drop n, c.pos.after (c.rest.take n)⟩

@[simp] theorem rest_advance (c : Cursor) (n : Nat) : (c.advance n).rest = c.rest.drop n := rfl

/-- The cursor behind blanks and a comment. -/
def skipBlanks (c : Cursor) : Cursor :=
  c.advance (blankLength c.rest)

/-- The cursor at the end of the line. -/
def skipLine (c : Cursor) : Cursor :=
  c.advance (runLength (· != '\n') c.rest)

/-- The token for a run of line ends, blank lines and comments, and the cursor behind it.  If
nothing follows it is the end of the source. -/
def lineBreak (c : Cursor) : Item × Cursor :=
  let behind := c.advance (breakLength false c.rest)
  let kind := if behind.rest = [] then TokenKind.endOfFile else .endOfLine
  (Token.ofText kind "\n" c.pos, behind)

/-- The token in front, which is no line end, and the cursor behind it. -/
def word (c : Cursor) : Item × Cursor :=
  let l := lexeme c.rest
  let behind := c.advance l.length
  match l.outcome with
  | .error cause => (.error (.atPosition behind.pos cause), behind)
  | .ok .invalid =>
      let text := String.ofList (c.rest.take l.length)
      (.error ⟨.strayCharacter text, Token.spanOf c.pos text, none⟩, behind)
  | .ok kind => (Token.ofText kind (String.ofList (c.rest.take l.length)) c.pos, behind)

/-- The next token or lexical error, and the cursor behind it.  At the end of the source it is the
end-of-file token, again and again. -/
def next (c : Cursor) : Item × Cursor :=
  let c := c.skipBlanks
  if c.rest.head? = some '\n' then c.lineBreak else c.word

end Cursor

/-- The token that ends the source. -/
def Item.isEnd : Item → Bool
  | .ok t => t.kind == .endOfFile
  | .error _ => false

namespace Cursor

theorem length_lineBreak_lt {c : Cursor} (h : c.rest.head? = some '\n') :
    c.lineBreak.2.rest.length < c.rest.length := by
  obtain ⟨rest, pos⟩ := c
  cases rest with
  | nil => simp at h
  | cons a cs =>
      obtain rfl : a = '\n' := by simpa using h
      simp only [lineBreak, breakLength, rest_advance, ↓reduceIte, List.length_drop,
        List.length_cons]
      omega

theorem word_end {c : Cursor} (h : c.word.1.isEnd = false) : c.rest ≠ [] := by
  intro hc
  simp [word, hc, lexeme, Token.ofText, TokenKind.isNumeric, Item.isEnd] at h

theorem length_word_lt {c : Cursor} (h : c.word.1.isEnd = false) :
    c.word.2.rest.length < c.rest.length := by
  have hc := word_end h
  have hpos := length_lexeme_pos hc
  have hlen : 0 < c.rest.length := List.length_pos_iff.2 hc
  have hw : c.word.2 = c.advance (lexeme c.rest).length := by
    simp only [word]
    split <;> rfl
  rw [hw, rest_advance, List.length_drop]
  omega

/-- **Progress**: a reading that is not the end of the source takes at least one character. -/
theorem length_next_lt {c : Cursor} (h : c.next.1.isEnd = false) :
    c.next.2.rest.length < c.rest.length := by
  have hb : c.skipBlanks.rest.length ≤ c.rest.length := by
    simp [skipBlanks]
  by_cases hn : c.skipBlanks.rest.head? = some '\n'
  · have := length_lineBreak_lt hn
    simp only [next, hn, if_true]
    omega
  · simp only [next, hn, if_false] at h ⊢
    have := length_word_lt h
    omega

/-- Every token and lexical error from here on, the last of them the end of the source. -/
def items (c : Cursor) : List Item :=
  if c.next.1.isEnd then [c.next.1] else c.next.1 :: c.next.2.items
termination_by c.rest.length
decreasing_by
  rename_i h
  exact length_next_lt (by simpa using h)

end Cursor

/-- The tokens and lexical errors of a source, without the token that ends it. -/
def tokenize (source : String) : List Item :=
  (Cursor.ofSource source).items.dropLast

end GameBoyAssembler
