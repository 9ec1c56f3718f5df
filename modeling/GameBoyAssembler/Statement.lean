import GameBoyAssembler.Cpu.Register
import GameBoyAssembler.Mnemonic
import GameBoyAssembler.Token.Line

/-!
# Statements

A line holds an optional label and then, optionally, a constant or an instruction.  Reading a
statement needs neither symbols nor addresses.  A label takes effect even if the rest of its line is
wrong, and so does a constant with something behind it; this is why `Statement` keeps the error of
the rest beside what was read before it.

* `Statement` — a label and a body;
* `Line.statement` — the statement of a line.
-/

set_option relaxedAutoImplicit false
set_option autoImplicit false

namespace GameBoyAssembler

/-- What a constant is set to: a number, or what another symbol stands for. -/
inductive ConstantValue where
  | number (v : Int)
  | symbol (t : Token)
  deriving DecidableEq, Repr

/-- What a line says behind its label. -/
inductive Body where
  | empty
  /-- A constant; `trailing` is the error of whatever follows it on the line. -/
  | constant (name : Token) (value : ConstantValue) (trailing : Option Error)
  /-- An instruction with all tokens behind its mnemonic. -/
  | instruction (mnemonic : Mnemonic) (name : Token) (operands : List Token)
  deriving DecidableEq, Repr

structure Statement where
  label : Option Token
  body : Except Error Body

namespace Statement

/-- The error of a token or lexical error where a line should end. -/
def trailingError : List Item → Option Error
  | [] => none
  | .error e :: _ => some e
  | .ok t :: _ => some (.about t (.expectedLineEnd t))

/-- What the token behind EQU sets the constant to. -/
def constantValue (t : Token) : Except Error ConstantValue :=
  match t.kind, t.value with
  | .number, some v => .ok (.number v)
  | .identifier, _ =>
      if isRegisterName t.text then .error (.about t (.registerAsValue t.text))
      else if t.isBracketed then .error (.about t (.badConstantValue t))
      else .ok (.symbol t)
  | .localLabel, _ => .ok (.symbol t)
  | _, _ => .error (.about t (.badConstantValue t))

/-- Read what follows a name and EQU. -/
def readConstant (stop name equ : Token) (items : List Item) : Except Error Body :=
  if isRegisterName name.text || name.isBracketed then
    .error (.about name (.badConstantName name.text))
  else
    match items with
    | [] => .error (.about equ (.unexpectedAfter stop equ))
    | .error e :: _ => .error e
    | .ok t :: rest => (constantValue t).map fun v => .constant name v (trailingError rest)

/-- Read what follows a mnemonic. -/
def readInstruction (name : Token) (items : List Item) : Except Error Body :=
  match Mnemonic.ofName? name.text with
  | none => .error (.about name (.unknownMnemonic name.text))
  | some mnemonic => (items.mapM id).map fun operands => .instruction mnemonic name operands

/-- The word that makes its line a constant. -/
def isEqu (t : Token) : Bool :=
  t.kind == .identifier && sameLetters t.text "EQU"

/-- Read the body whose first token is `t`. -/
def readBody (stop t : Token) (items : List Item) : Except Error Body :=
  if t.kind != .identifier then .error (.about t (.expectedStatement t))
  else
    match items with
    | [] => readInstruction t []
    | .error e :: _ => .error e
    | .ok next :: rest =>
        if isEqu next then readConstant stop t next rest else readInstruction t (.ok next :: rest)

end Statement

/-- A token that can open a line as its label. -/
def Token.isLabel (t : Token) : Bool :=
  t.kind == .globalLabel || t.kind == .localLabel

/-- The statement of a line. -/
def Line.statement (l : Line) : Statement :=
  match l.items with
  | [] => ⟨none, .ok .empty⟩
  | .error e :: _ => ⟨none, .error e⟩
  | .ok t :: rest =>
      if t.isLabel then
        match rest with
        | [] => ⟨some t, .ok .empty⟩
        | .error e :: _ => ⟨some t, .error e⟩
        | .ok first :: rest => ⟨some t, Statement.readBody l.stop first rest⟩
      else ⟨none, Statement.readBody l.stop t rest⟩

end GameBoyAssembler
