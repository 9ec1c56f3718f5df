import GameBoyAssembler.Cpu.Decode
import GameBoyAssembler.Selection
import GameBoyAssembler.Statement

/-!
# Laying a program out

The length of an instruction depends on the form of its operands and never on their values.  So one
walk over the lines gives every instruction its address and every label its value, before any
symbol is looked up.

* `Pending` — an instruction with its address, its operands still as tokens;
* `Layout` — what the lines so far have defined;
* `Layout.add` — the effect of a statement, and its error if it has one;
* `Layout.untilError`, `Layout.keepGoing` — the effect of all lines up to the first error, or of
  every line with all errors.
-/

set_option relaxedAutoImplicit false
set_option autoImplicit false

namespace GameBoyAssembler

/-- An instruction whose operands are not resolved. -/
structure Pending where
  mnemonic : Mnemonic
  name : Token
  operands : List Token
  address : UInt16
  /-- The global label that its local labels belong to. -/
  scope : Option String
  deriving DecidableEq, Repr

/-- The instruction, with the symbols if they are known. -/
def Pending.build (p : Pending) (symbols : Option SymbolTable) : Except Error Instruction :=
  Context.select ⟨symbols, p.scope, p.address⟩ p.mnemonic p.name p.operands

/-- The number of addresses. -/
def addressSpace : Nat := 0x10000

structure Layout where
  symbols : SymbolTable
  /-- The instructions so far. -/
  pending : Array Pending
  /-- The address of the next instruction. -/
  address : Nat
  /-- The latest global label. -/
  scope : Option String

namespace Layout

/-- The layout of nothing yet, with the first instruction at `base`. -/
def start (base : UInt16) : Layout :=
  ⟨∅, #[], base.toNat, none⟩

/-- A layout and the error that stopped the statement, if any.  What was done before the error
stands. -/
abbrev Step := Layout × Option Error

/-- Go on with `f` unless there was an error. -/
def Step.andThen (s : Step) (f : Layout → Step) : Step :=
  match s with
  | (l, none) => f l
  | (l, some e) => (l, some e)

/-- Bind a key. -/
def bind (l : Layout) (key : String) (symbol : Symbol) : Step :=
  match l.symbols.bind key symbol with
  | .ok symbols => ({ l with symbols }, none)
  | .error e => (l, some e)

/-- Bind the key of a label token to the current address. -/
def bindLabel (l : Layout) (t : Token) : Step :=
  match symbolKey l.scope t with
  | .ok key => l.bind key ⟨.label, .value l.address, t⟩
  | .error e => (l, some e)

/-- Define a label.  A global label opens its scope even if it is bound already. -/
def defineLabel (l : Layout) (t : Token) : Step :=
  if t.kind = .globalLabel then
    let name := withoutColons t.text
    if isRegisterName name then (l, some (.about t (.registerAsLabel name)))
    else bindLabel { l with scope := some name } t
  else l.bindLabel t

/-- Define a constant. -/
def defineConstant (l : Layout) (name : Token) : ConstantValue → Step
  | .number v => l.bind name.text ⟨.constant, .value v, name⟩
  | .symbol t =>
      match symbolKey l.scope t with
      | .ok key => l.bind name.text ⟨.constant, .sameAs key t, name⟩
      | .error e => (l, some e)

/-- Put an instruction at the current address. -/
def place (l : Layout) (mnemonic : Mnemonic) (name : Token) (operands : List Token) : Step :=
  let p : Pending := ⟨mnemonic, name, operands, UInt16.ofNat l.address, l.scope⟩
  match p.build none with
  | .error e => (l, some e)
  | .ok i =>
      let length := instructionLength i.opcode.firstByte
      if addressSpace < l.address + length then
        (l, some (.about name (.addressSpaceExceeded l.address)))
      else ({ l with pending := l.pending.push p, address := l.address + length }, none)

/-- The effect of a body. -/
def addBody (l : Layout) : Body → Step
  | .empty => (l, none)
  | .constant name value trailing =>
      (l.defineConstant name value).andThen fun l => (l, trailing)
  | .instruction mnemonic name operands => l.place mnemonic name operands

/-- The effect of a statement. -/
def add (l : Layout) (s : Statement) : Step :=
  let labelled : Step :=
    match s.label with
    | none => (l, none)
    | some t => l.defineLabel t
  labelled.andThen fun l =>
    match s.body with
    | .error e => (l, some e)
    | .ok body => l.addBody body

/-- The effect of lines up to the first error. -/
def untilError (l : Layout) : List Line → Except Error Layout
  | [] => .ok l
  | line :: lines =>
      match l.add line.statement with
      | (l, none) => untilError l lines
      | (_, some e) => .error e

/-- The effect of all lines, and all errors in the order of the lines. -/
def keepGoing (l : Layout) : List Line → Layout × List Error
  | [] => (l, [])
  | line :: lines =>
      let (l, e) := l.add line.statement
      let (l, es) := keepGoing l lines
      (l, e.toList ++ es)

end Layout

end GameBoyAssembler
