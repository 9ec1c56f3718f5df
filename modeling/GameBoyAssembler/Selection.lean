import GameBoyAssembler.Mnemonic
import GameBoyAssembler.Operand

/-!
# Selecting an instruction

The mnemonic fixes how many operands there are and what they can be; their shapes select the
instruction.  Each family of mnemonics reads its operands from the tokens and leaves the rest, which
must be empty.

* `Context.select` — the instruction of a mnemonic and the tokens behind it.

Selection runs twice for every instruction: once without symbols, to learn its length, and once
with them.  Shapes do not depend on symbols, so both runs select the same form.
-/

set_option relaxedAutoImplicit false
set_option autoImplicit false

namespace GameBoyAssembler

/-! ### Taking operands -/

/-- The tokens that are left behind an operand list. -/
abbrev Rest := List Token

/-- The first token behind `last`. -/
def takeOne (last : Token) : List Token → Except Error (Token × Rest)
  | [] => .error (.about last (.missingOperand last))
  | t :: rest => .ok (t, rest)

/-- Two operands with a comma between them. -/
def takeTwo (last : Token) (tokens : List Token) : Except Error (Token × Token × Rest) := do
  let (first, rest) ← takeOne last tokens
  let (comma, rest) ← takeOne first rest
  if ¬ comma.isComma then throw (.about comma (.expectedComma comma))
  let (second, rest) ← takeOne comma rest
  return (first, second, rest)

/-- A comma follows the first operand: it is a destination or a condition. -/
def isLongForm : List Token → Bool
  | _ :: t :: _ => t.isComma
  | _ => false

/-- A branch target behind an optional condition. -/
def takeBranch (name : Token) (tokens : List Token) :
    Except Error (Option Condition × Token × Rest) := do
  match tokens with
  | first :: comma :: rest =>
      if comma.isComma then
        let cc ← first.condition
        let (target, rest) ← takeOne comma rest
        return (some cc, target, rest)
      else return (none, first, comma :: rest)
  | _ =>
      let (target, rest) ← takeOne name tokens
      return (none, target, rest)

/-! ### The families -/

namespace Context

/-- Arithmetic with a register or a number. -/
def arithSource (c : Context) (op : Arith) (src : Token) : Except Error Instruction := do
  match ← src.shape with
  | .reg8 r => return .arith op r
  | .immediate => return .arithImm op (← c.byte src)
  | shape => throw (src.unlike shape .byteRegisterOrNumber)

/-- Arithmetic with its destination written out.  ADD also goes to HL and to SP. -/
def arithTo (c : Context) (op : Arith) (dst src : Token) : Except Error Instruction := do
  match op, ← dst.shape with
  | .add, .reg16 .hl => return .addHL (← src.reg16)
  | .add, .reg16 .sp => return .addSP (← c.offset src)
  | _, _ =>
      dst.expectA
      c.arithSource op src

/-- The load of `src` into `dst`. -/
def load (c : Context) (dst src : Token) : Except Error Instruction := do
  match ← dst.shape, ← src.shape with
  | .reg8 .atHL, .reg8 .atHL => throw (.about src .memoryToMemory)
  | .reg8 r, .reg8 r₂ => return .load r r₂
  | .reg8 r, .immediate => return .loadImm r (← c.byte src)
  | .reg16 rr, .immediate => return .loadPairImm rr (← c.word src)
  | .reg16 .sp, .reg16 .hl => return .implied .ldSPHL
  | .reg16 .hl, .spOffset => return .loadHLSP (← c.offset src)
  | .memory, .reg16 .sp => return .storeSPAt (← c.addressWord dst)
  | .via p, _ =>
      src.expectA
      return .storeVia p
  | _, .via p =>
      dst.expectA
      return .loadVia p
  | .memory, _ =>
      src.expectA
      return .storeAt (← c.addressWord dst)
  | _, .memory =>
      dst.expectA
      return .loadAt (← c.addressWord src)
  | .highC, _ =>
      src.expectA
      return .implied .storeHighC
  | _, .highC =>
      dst.expectA
      return .implied .loadHighC
  | _, _ => throw (.about dst (.cannotLoad src.text dst.text))

/-- The load of A from the high page, or to it. -/
def loadHighPage (c : Context) (dst src : Token) : Except Error Instruction := do
  match ← dst.shape, ← src.shape with
  | .highC, _ =>
      src.expectA
      return .implied .storeHighC
  | _, .highC =>
      dst.expectA
      return .implied .loadHighC
  | .memory, _ =>
      src.expectA
      return .storeHigh (← c.highPageOffset dst)
  | _, .memory =>
      dst.expectA
      return .loadHigh (← c.highPageOffset src)
  | _, _ => throw (.about dst .expectedHighPageLoad)

/-- The load of A through HL, with a step of HL after it. -/
def loadStep (p : Pointer) (dst src : Token) : Except Error Instruction := do
  match ← dst.shape, ← src.shape with
  | .reg8 .atHL, _ =>
      src.expectA
      return .storeVia p
  | _, .reg8 .atHL =>
      dst.expectA
      return .loadVia p
  | _, _ => throw (.about dst .expectedStepLoad)

/-- The absolute jump.  Without a condition HL is a target, with or without brackets. -/
def jumpTo (c : Context) (cc : Option Condition) (target : Token) : Except Error Instruction := do
  match cc, ← target.shape with
  | none, .reg16 .hl | none, .reg8 .atHL => return .implied .jpHL
  | _, _ => return .jump cc (← c.addressWord target)

/-- INC and DEC of a byte register or of a pair. -/
def step (byte : Reg8 → Instruction) (pair : Reg16 → Instruction) (t : Token) :
    Except Error Instruction := do
  match ← t.shape with
  | .reg8 r => return byte r
  | .reg16 rr => return pair rr
  | shape => throw (t.unlike shape .anyRegister)

/-- The instruction of a mnemonic, and the tokens behind its operands. -/
def selectFront (c : Context) (mnemonic : Mnemonic) (name : Token) (tokens : List Token) :
    Except Error (Instruction × Rest) := do
  match mnemonic with
  | .implied op => return (.implied op, tokens)
  | .arith op =>
      if isLongForm tokens then
        let (dst, src, rest) ← takeTwo name tokens
        return (← c.arithTo op dst src, rest)
      else
        let (src, rest) ← takeOne name tokens
        return (← c.arithSource op src, rest)
  | .inc =>
      let (t, rest) ← takeOne name tokens
      return (← step .inc .incPair t, rest)
  | .dec =>
      let (t, rest) ← takeOne name tokens
      return (← step .dec .decPair t, rest)
  | .bit op =>
      let (index, reg, rest) ← takeTwo name tokens
      let r ← reg.reg8
      return (.bit op (← c.bitIndex index) r, rest)
  | .rotate op =>
      let (t, rest) ← takeOne name tokens
      return (.rotate op (← t.reg8), rest)
  | .jp =>
      let (cc, target, rest) ← takeBranch name tokens
      return (← c.jumpTo cc target, rest)
  | .jr =>
      let (cc, target, rest) ← takeBranch name tokens
      return (.jumpRel cc (← c.displacement target), rest)
  | .call =>
      let (cc, target, rest) ← takeBranch name tokens
      return (.call cc (← c.addressWord target), rest)
  | .ret =>
      match tokens with
      | [] => return (.implied .ret, [])
      | t :: rest => return (.retIf (← t.condition), rest)
  | .rst =>
      let (t, rest) ← takeOne name tokens
      return (.restart (← c.restartVector t), rest)
  | .ld =>
      let (dst, src, rest) ← takeTwo name tokens
      return (← c.load dst src, rest)
  | .ldh =>
      let (dst, src, rest) ← takeTwo name tokens
      return (← c.loadHighPage dst src, rest)
  | .ldi =>
      let (dst, src, rest) ← takeTwo name tokens
      return (← loadStep .hlInc dst src, rest)
  | .ldd =>
      let (dst, src, rest) ← takeTwo name tokens
      return (← loadStep .hlDec dst src, rest)
  | .push =>
      let (t, rest) ← takeOne name tokens
      return (.push (← t.stackPair), rest)
  | .pop =>
      let (t, rest) ← takeOne name tokens
      return (.pop (← t.stackPair), rest)

/-- The instruction of a mnemonic and all the tokens behind it. -/
def select (c : Context) (mnemonic : Mnemonic) (name : Token) (tokens : List Token) :
    Except Error Instruction := do
  match ← c.selectFront mnemonic name tokens with
  | (i, []) => return i
  | (_, t :: _) => throw (.about t (.expectedLineEnd t))

end Context

end GameBoyAssembler
