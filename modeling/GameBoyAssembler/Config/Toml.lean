import GameBoyAssembler.Text.Numeral

/-!
# The TOML of a settings file

The part of TOML that settings need: comments, table headers and assignments of numbers, dates,
booleans and strings to bare keys, each on a line of its own.  Everything else is malformed.

* `Toml.Value`, `Toml.Document` — the content of a file;
* `Toml.value?` — the value in front of a text;
* `Toml.parse?` — the document of a text.
-/

set_option relaxedAutoImplicit false
set_option autoImplicit false

namespace GameBoyAssembler

namespace Toml

inductive Value where
  | integer (n : Int)
  /-- A floating-point number; no setting has one, so its digits do not matter. -/
  | float
  /-- A date; no setting has one, so its fields do not matter. -/
  | date
  | boolean (b : Bool)
  | text (s : String)
  deriving DecidableEq, Repr

/-- An assignment. -/
abbrev Entry := String × Value

structure Document where
  /-- The assignments before the first table header. -/
  entries : List Entry
  /-- The tables, in the order of their headers. -/
  tables : List (String × List Entry)
  deriving DecidableEq, Repr

/-! ### Characters -/

def isSpace (c : Char) : Bool :=
  c == ' ' || c == '\t'

/-- The characters of a bare key; a number is made of them too. -/
def isBare (c : Char) : Bool :=
  c.isAlphanum || c == '-' || c == '_'

/-- The characters of a comment. -/
def isCommentChar (c : Char) : Bool :=
  c == '\t' || ' ' ≤ c

/-- The characters of a string. -/
def isStringChar (c : Char) : Bool :=
  isCommentChar c && c != '\x7f'

def skipSpace (cs : List Char) : List Char :=
  cs.dropWhile isSpace

/-- The run of bare characters in front, which must not be empty, and what follows it. -/
def bare? (cs : List Char) : Option (List Char × List Char) :=
  match cs.takeWhile isBare with
  | [] => none
  | key => some (key, cs.dropWhile isBare)

/-- Nothing but blanks and a comment up to the end of the line. -/
def endsLine (cs : List Char) : Bool :=
  match skipSpace cs with
  | [] => true
  | '#' :: comment => comment.all isCommentChar
  | _ => false

/-! ### Numbers -/

/-- Every underscore stands between two digits, and there is a digit.  The flag says that a digit
stands right before. -/
def underscoresBetween : Bool → List Char → Bool
  | digitBefore, [] => digitBefore
  | digitBefore, c :: cs =>
      if c = '_' then digitBefore && underscoresBetween false cs else underscoresBetween true cs

/-- The digits in front of a text, underscores left out, and what follows them.  Unless `zeros` is
set, a zero is not followed by another digit. -/
def digits? (radix : Nat) (zeros : Bool) (cs : List Char) : Option (List Char × List Char) :=
  let isDigit (c : Char) : Bool := c == '_' || (digitValue? radix c).isSome
  let run := cs.takeWhile isDigit
  let digits := run.filter (· != '_')
  if underscoresBetween false run && (zeros || digits.length ≤ 1 || digits.head? != some '0') then
    some (digits, cs.dropWhile isDigit)
  else none

/-- The text without a sign in front. -/
def dropSign : List Char → List Char
  | '+' :: cs => cs
  | '-' :: cs => cs
  | cs => cs

/-- Integers have 64 bits. -/
def integer? (negative : Bool) (radix : Nat) (digits : List Char) : Option Value := do
  let n ← ofDigits? radix digits
  let v : Int := if negative then -(n : Int) else n
  guard (-0x8000000000000000 ≤ v ∧ v ≤ 0x7FFFFFFFFFFFFFFF)
  return .integer v

/-- An integer that takes up a whole run of bare characters. -/
def wholeInteger? (run : List Char) : Option Value := do
  match run with
  | '0' :: 'x' :: cs => unsigned 16 cs
  | '0' :: 'o' :: cs => unsigned 8 cs
  | '0' :: 'b' :: cs => unsigned 2 cs
  | _ =>
      let (digits, rest) ← digits? 10 false (dropSign run)
      guard rest.isEmpty
      integer? (run.head? == some '-') 10 digits
where
  /-- An integer behind the mark of its base. -/
  unsigned (radix : Nat) (cs : List Char) : Option Value := do
    let (digits, rest) ← digits? radix true cs
    guard rest.isEmpty
    integer? false radix digits

/-- The exponent of a float, given what follows its digits in the run, and what follows the run.
The sign plus ends a run of bare characters. -/
def exponent? (suffix rest : List Char) : Option (List Char) := do
  match suffix with
  | [] => return rest
  | [e] =>
      guard (e == 'e' || e == 'E')
      let behind := match rest with
        | '+' :: cs => cs
        | cs => cs
      let (run, rest) ← bare? behind
      let (_, left) ← digits? 10 true run
      guard left.isEmpty
      return rest
  | e :: cs =>
      guard (e == 'e' || e == 'E')
      let (_, left) ← digits? 10 true (dropSign cs)
      guard left.isEmpty
      return rest

/-- A number whose first run of bare characters is `run`, with `rest` behind it. -/
def number? (run rest : List Char) : Option (Value × List Char) := do
  match run with
  | '0' :: 'x' :: _ | '0' :: 'o' :: _ | '0' :: 'b' :: _ => return (← wholeInteger? run, rest)
  | _ =>
      if run.contains 'e' || run.contains 'E' then
        let (_, suffix) ← digits? 10 false (dropSign run)
        return (.float, ← exponent? suffix rest)
      else
        match rest with
        | '.' :: behind =>
            let (fraction, rest) ← bare? behind
            let (_, left) ← digits? 10 false (dropSign run)
            guard left.isEmpty
            let (_, suffix) ← digits? 10 true fraction
            return (.float, ← exponent? suffix rest)
        | _ =>
            let name := String.ofList (dropSign run)
            if name == "inf" || name == "nan" then return (.float, rest)
            return (← wholeInteger? run, rest)

/-- A run that is read as a date.  Of numbers, those with a minus sign inside count as dates, unless
a small e stands before it. -/
def isDate (run : List Char) : Bool :=
  run.contains 'T' || run.contains 't'
    || (run.tail.contains '-' && !hasNegativeExponent run)
where
  /-- The letter e with a minus sign behind it. -/
  hasNegativeExponent : List Char → Bool
    | 'e' :: '-' :: _ => true
    | _ :: cs => hasNegativeExponent cs
    | [] => false

/-! ### Values and lines -/

/-- A string in the given quotes, without its opening quote. -/
def string? (quote : Char) (cs : List Char) : Option (Value × List Char) := do
  let content := cs.takeWhile (· != quote)
  guard (content.all fun c => isStringChar c && !(quote == '"' && c == '\\'))
  match cs.dropWhile (· != quote) with
  | _ :: rest => return (.text (String.ofList content), rest)
  | [] => none

/-- The value in front of a text, and what follows it. -/
def value? (cs : List Char) : Option (Value × List Char) := do
  match cs with
  | '"' :: rest => string? '"' rest
  | '\'' :: rest => string? '\'' rest
  | '+' :: rest =>
      let (run, rest) ← bare? rest
      number? run rest
  | _ =>
      let (run, rest) ← bare? cs
      let word := String.ofList run
      if word == "true" then return (.boolean true, rest)
      if word == "false" then return (.boolean false, rest)
      let numeric := word == "inf" || word == "nan"
        || run.head?.any fun c => c == '-' || c.isDigit
      guard (numeric && rest.head? != some ':')
      if isDate run then return (.date, rest)
      number? run rest

/-- What a line says. -/
inductive Line where
  | blank
  | header (name : String)
  | entry (key : String) (value : Value)
  deriving DecidableEq, Repr

/-- The content of one line. -/
def line? (cs : List Char) : Option Line := do
  if endsLine cs then return .blank
  match skipSpace cs with
  | '[' :: rest =>
      let (name, rest) ← bare? (skipSpace rest)
      match skipSpace rest with
      | ']' :: rest =>
          guard (endsLine rest)
          return .header (String.ofList name)
      | _ => none
  | rest =>
      let (key, rest) ← bare? rest
      match skipSpace rest with
      | '=' :: rest =>
          let (value, rest) ← value? (skipSpace rest)
          guard (endsLine rest)
          return .entry (String.ofList key) value
      | _ => none

/-- The text cut at its line feeds, with the carriage returns right before them. -/
def cutLines : List Char → List (List Char)
  | [] => [[]]
  | '\n' :: cs => [] :: cutLines cs
  | '\r' :: '\n' :: cs => [] :: cutLines cs
  | c :: cs =>
      match cutLines cs with
      | [] => [[c]]
      | l :: ls => (c :: l) :: ls

/-- The document that lines make up: an assignment belongs to the header before it. -/
def Document.ofLines : List Line → Document
  | [] => ⟨[], []⟩
  | .blank :: lines => ofLines lines
  | .entry key value :: lines =>
      let d := ofLines lines
      ⟨(key, value) :: d.entries, d.tables⟩
  | .header name :: lines =>
      let d := ofLines lines
      ⟨[], (name, d.entries) :: d.tables⟩

/-- The document of a text, if the text is well formed and has no table twice. -/
def parse? (text : String) : Option Document := do
  let d := Document.ofLines (← (cutLines text.toList).mapM line?)
  guard (d.tables.map Prod.fst).Nodup
  return d

end Toml

end GameBoyAssembler
