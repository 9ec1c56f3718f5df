import GameBoyAssembler.Operand.Width
import GameBoyAssembler.Token

/-!
# Errors

An error is a cause and the stretch of source it is about.  Where a value came from somewhere else,
such as the definition of a symbol, the error points there too.

* `Cause` — everything that can be wrong with a source;
* `Cause.kind`, `Cause.message` — its kind and its wording;
* `Error` — a cause with its place.
-/

set_option relaxedAutoImplicit false
set_option autoImplicit false

namespace GameBoyAssembler

inductive ErrorKind where
  | lexical
  | grammar
  | operand
  | range
  | scope
  | resolution
  deriving DecidableEq, Repr

def ErrorKind.text : ErrorKind → String
  | lexical => "lexical"
  | grammar => "grammar"
  | operand => "operand"
  | range => "range"
  | scope => "scope"
  | resolution => "symbol resolution"

/-- What an operand position asks for. -/
inductive Wanted where
  | byteRegister
  | pair
  | stackPair
  | accumulator
  | anyRegister
  | number
  | byteRegisterOrNumber
  deriving DecidableEq, Repr

def Wanted.text : Wanted → String
  | byteRegister => "an 8-bit register"
  | pair => "register BC, DE, HL or SP"
  | stackPair => "register BC, DE, HL or AF"
  | accumulator => "register A"
  | anyRegister => "a register"
  | number => "a number"
  | byteRegisterOrNumber => "an 8-bit register or a number"

/-- The closing partner of an opening bracket. -/
def closingBracket (opening : Char) : Char :=
  if opening = '(' then ')' else ']'

/-- The next character as a message names it.  A NUL character marks the end of a text. -/
def describeNext : Option Char → String
  | none => "end of file"
  | some c =>
      if c = '\n' then "end of line"
      else if c = '\x00' then "end of file"
      else "'" ++ c.toString ++ "'"

inductive Cause where
  -- Characters.
  | malformedNumber (text : String)
  | signWithoutDigit (sign : Char)
  | noLabelName (next : Option Char)
  | badBracketContent (opening : Char) (next : Option Char)
  | unclosedBracket (opening : Char) (next : Option Char)
  | strayCharacter (text : String)
  -- Statements.
  | expectedStatement (found : Token)
  | expectedLineEnd (found : Token)
  | unexpectedAfter (found after : Token)
  | registerAsLabel (name : String)
  | badConstantName (name : String)
  | badConstantValue (found : Token)
  | registerAsValue (text : String)
  | unknownMnemonic (text : String)
  | addressSpaceExceeded (address : Nat)
  -- Operands.
  | missingOperand (after : Token)
  | expectedComma (found : Token)
  | expectedOperand (found : Token)
  | wrongOperand (wanted : Wanted) (isRegister : Bool) (text : String)
  | expectedCondition (text : String)
  | memoryToMemory
  | cannotLoad (src dst : String)
  | expectedHighPageLoad
  | expectedStepLoad
  -- Values.
  | outOfRange (width : Width) (value : Int)
  | outOfReach (value displacement : Int)
  | farOutOfReach (value : Int)
  | notInHighPage (value : Int)
  | notRestartVector (value : Int)
  -- Symbols.
  | duplicateSymbol (key : String)
  | noEnclosingLabel (name : String)
  | unknownSymbol (key : String)
  | circularSymbol (key : String)
  deriving DecidableEq, Repr

namespace Cause

def kind : Cause → ErrorKind
  | malformedNumber _ | signWithoutDigit _ | noLabelName _ | badBracketContent _ _
  | unclosedBracket _ _ | strayCharacter _ => .lexical
  | expectedStatement _ | expectedLineEnd _ | unexpectedAfter _ _ | registerAsLabel _
  | badConstantName _ | badConstantValue _ | unknownMnemonic _ | missingOperand _
  | expectedComma _ | expectedOperand _ => .grammar
  | registerAsValue _ | wrongOperand _ _ _ | expectedCondition _ | memoryToMemory
  | cannotLoad _ _ | expectedHighPageLoad | expectedStepLoad => .operand
  | addressSpaceExceeded _ | outOfRange _ _ | outOfReach _ _ | farOutOfReach _
  | notInHighPage _ | notRestartVector _ => .range
  | duplicateSymbol _ | noEnclosingLabel _ => .scope
  | unknownSymbol _ | circularSymbol _ => .resolution

/-- The text in single quotes. -/
def quoted (text : String) : String := "'" ++ text ++ "'"

def message : Cause → String
  | malformedNumber text => "malformed numeric literal " ++ quoted text
  | signWithoutDigit sign =>
      "malformed numeric literal, expected digit after " ++ quoted sign.toString
  | noLabelName next => "expected label name after '.', found " ++ describeNext next
  | badBracketContent opening next =>
      "expected register, symbol or address after " ++ quoted opening.toString ++ ", found "
        ++ describeNext next
  | unclosedBracket opening next =>
      "expected " ++ quoted (closingBracket opening).toString ++ " to close "
        ++ quoted opening.toString ++ ", found " ++ describeNext next
  | strayCharacter text => "unexpected character " ++ quoted text
  | expectedStatement found =>
      "expected label, constant or instruction, found " ++ found.describe
  | expectedLineEnd found => "expected end of line, found " ++ found.describe
  | unexpectedAfter found after => "unexpected " ++ found.describe ++ " after " ++ after.describe
  | registerAsLabel name => "register name " ++ quoted name ++ " can't be used as a label"
  | badConstantName name => quoted name ++ " can't be used as a constant name"
  | badConstantValue found =>
      "expected a number or symbol after EQU, found " ++ found.describe
  | registerAsValue text => "expected a number or symbol, found register " ++ text
  | unknownMnemonic text => "unknown mnemonic " ++ quoted text
  | addressSpaceExceeded address =>
      "instruction at " ++ lowerHex 4 address ++ " doesn't fit in the address space"
  | missingOperand after => "expected operand after " ++ after.describe
  | expectedComma found => "expected ',', found " ++ found.describe
  | expectedOperand found => "expected operand, found " ++ found.describe
  | wrongOperand wanted isRegister text =>
      "expected " ++ wanted.text ++ ", found "
        ++ (if isRegister then "register " ++ text else quoted text)
  | expectedCondition text => "expected condition NZ, Z, NC or C, found " ++ quoted text
  | memoryToMemory => "can't load from (HL) to (HL)"
  | cannotLoad src dst => "can't load " ++ src ++ " into " ++ dst
  | expectedHighPageLoad => "expected register A and an address in the high page"
  | expectedStepLoad => "expected register A and (HL)"
  | outOfRange width value =>
      signedHex value ++ " is out of range for " ++ width.text ++ " " ++ width.rangeText
  | outOfReach value displacement =>
      signedHex value ++ " is out of reach of a relative jump, the displacement "
        ++ signedHex displacement ++ " doesn't fit in " ++ Width.signed8.text ++ " "
        ++ Width.signed8.rangeText
  | farOutOfReach value => signedHex value ++ " is out of reach of a relative jump"
  | notInHighPage value =>
      signedHex value ++ " is not in the high page (0xFF00..=0xFFFF or 0x00..=0xFF)"
  | notRestartVector value =>
      signedHex value ++ " is not a restart vector (a multiple of 0x08 up to 0x38)"
  | duplicateSymbol key => "duplicate symbol " ++ quoted key
  | noEnclosingLabel name =>
      "local label " ++ quoted name ++ " has no global label before it"
  | unknownSymbol key => "unknown symbol " ++ quoted key
  | circularSymbol key => "the definition of " ++ quoted key ++ " refers to itself"

end Cause

structure Error where
  cause : Cause
  span : Span
  /-- Where the offending value comes from. -/
  reference : Option Span
  deriving DecidableEq, Repr

namespace Error

/-- An error about the token `t`. -/
def about (t : Token) (cause : Cause) : Error :=
  ⟨cause, t.span, none⟩

/-- An error about the token `t`, with the definition that it goes back to. -/
def referring (t : Token) (cause : Cause) (origin : Option Token) : Error :=
  ⟨cause, t.span, origin.map Token.span⟩

/-- An error about the one character at `pos`. -/
def atPosition (pos : Position) (cause : Cause) : Error :=
  ⟨cause, ⟨pos, 1⟩, none⟩

def kind (e : Error) : ErrorKind := e.cause.kind

def message (e : Error) : String := e.cause.message

/-- The place, the kind and the message on one line. -/
def header (e : Error) : String :=
  Nat.repr e.span.pos.line ++ ":" ++ Nat.repr e.span.pos.column ++ ": " ++ e.kind.text
    ++ " error: " ++ e.message

end Error

/-- The value, if the width accepts it. -/
def Width.check (w : Width) (v : Int) : Except Cause Int :=
  if w.Accepts v then .ok v else .error (.outOfRange w v)

end GameBoyAssembler
