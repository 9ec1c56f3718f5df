import GameBoyAssembler.Cpu.Printed
import GameBoyAssembler.Mnemonic
import GameBoyAssembler.Proofs.Lexing
import GameBoyAssembler.Proofs.MachineCode

/-!
# Printed instructions as words

The text of an instruction is a mnemonic and its operands, each of them a word.  In a canonical
instruction every word is read as one token.

Main definitions:

* `Instruction.mnemonic`, `Instruction.operands`, `Instruction.words` — what the text of an
  instruction is made of;
* `Word.IsOperand` — a word that is read and does not make its line a constant.

Main results:

* `Instruction.toList_text` — the text of an instruction is the text of its words;
* `Instruction.isOperand_operands` — every operand of a canonical instruction is such a word;
* `Instruction.isRead_mnemonic` — the mnemonic is read, and found by its name.
-/

set_option relaxedAutoImplicit false
set_option autoImplicit false

namespace GameBoyAssembler

/-! ### The words of an instruction -/

/-- The mnemonic of an instruction without operand fields. -/
def Implied.mnemonic : Implied → Mnemonic
  | ret => .ret
  | jpHL => .jp
  | ldSPHL | storeHighC | loadHighC => .ld
  | op => .implied op

/-- The name of a mnemonic. -/
def Mnemonic.text : Mnemonic → String
  | arith op => op.text
  | inc => "INC"
  | dec => "DEC"
  | bit op => op.text
  | rotate op => op.text
  | jp => "JP"
  | jr => "JR"
  | call => "CALL"
  | ret => "RET"
  | rst => "RST"
  | ld => "LD"
  | ldh => "LDH"
  | ldi => "LDI"
  | ldd => "LDD"
  | push => "PUSH"
  | pop => "POP"
  | implied op => op.text

namespace Word

def reg8 (r : Reg8) : Word := .name r.text

def reg16 (rr : Reg16) : Word := .name rr.text

def stackPair (q : StackPair) : Word := .name q.text

def pointer (p : Pointer) : Word := .name p.text

def condition (cc : Condition) : Word := .name cc.text

/-- The byte of the high page at offset C. -/
def highC : Word := .name "(C)"

def byte (n : UInt8) : Word := .number (byteText n) n.toNat

def word (nn : UInt16) : Word := .number (wordText nn) nn.toNat

def offset (e : Int8) : Word := .number (offsetText e) e.toInt

def bitIndex (index : UInt8) : Word := .number (Nat.repr index.toNat) index.toNat

/-- An address in brackets. -/
def atWord (nn : UInt16) : Word := .address (wordText nn) nn.toNat

/-- An offset into the high page in brackets. -/
def atByte (n : UInt8) : Word := .address (byteText n) n.toNat

/-- SP with an offset, which has a sign even if it is not negative. -/
def spOffset (e : Int8) : Word :=
  .spShifted ((if e < 0 then "" else "+") ++ offsetText e) e.toInt

end Word

/-- The operands of an instruction without operand fields. -/
def Implied.operands : Implied → List Word
  | jpHL => [.reg16 .hl]
  | ldSPHL => [.reg16 .sp, .comma, .reg16 .hl]
  | storeHighC => [.highC, .comma, .reg8 .a]
  | loadHighC => [.reg8 .a, .comma, .highC]
  | _ => []

/-- The destination that ADD, ADC and SBC are written with. -/
def Arith.destination : Arith → List Word
  | add | adc | sbc => [.reg8 .a, .comma]
  | _ => []

/-- A condition in front of a branch target. -/
def conditionWords : Option Condition → List Word
  | none => []
  | some cc => [.condition cc, .comma]

namespace Instruction

def mnemonic : Instruction → Mnemonic
  | implied op => op.mnemonic
  | arith op _ | arithImm op _ => .arith op
  | inc _ | incPair _ => .inc
  | dec _ | decPair _ => .dec
  | addHL _ | addSP _ => .arith .add
  | load _ _ | loadImm _ _ | loadPairImm _ _ | storeVia _ | loadVia _ | storeAt _ | loadAt _
  | storeSPAt _ | loadHLSP _ => .ld
  | storeHigh _ | loadHigh _ => .ldh
  | jump _ _ => .jp
  | jumpRel _ _ => .jr
  | call _ _ => .call
  | retIf _ => .ret
  | restart _ => .rst
  | push _ => .push
  | pop _ => .pop
  | rotate op _ => .rotate op
  | bit op _ _ => .bit op

def operands : Instruction → List Word
  | implied op => op.operands
  | arith op r => op.destination ++ [.reg8 r]
  | arithImm op n => op.destination ++ [.byte n]
  | inc r | dec r => [.reg8 r]
  | incPair rr | decPair rr => [.reg16 rr]
  | addHL rr => [.reg16 .hl, .comma, .reg16 rr]
  | addSP e => [.reg16 .sp, .comma, .offset e]
  | load dst src => [.reg8 dst, .comma, .reg8 src]
  | loadImm r n => [.reg8 r, .comma, .byte n]
  | loadPairImm rr nn => [.reg16 rr, .comma, .word nn]
  | storeVia p => [.pointer p, .comma, .reg8 .a]
  | loadVia p => [.reg8 .a, .comma, .pointer p]
  | storeAt nn => [.atWord nn, .comma, .reg8 .a]
  | loadAt nn => [.reg8 .a, .comma, .atWord nn]
  | storeSPAt nn => [.atWord nn, .comma, .reg16 .sp]
  | storeHigh n => [.atByte n, .comma, .reg8 .a]
  | loadHigh n => [.reg8 .a, .comma, .atByte n]
  | loadHLSP e => [.reg16 .hl, .comma, .spOffset e]
  | jump cc nn | call cc nn => conditionWords cc ++ [.word nn]
  | jumpRel cc e => conditionWords cc ++ [.offset e]
  | retIf cc => [.condition cc]
  | restart vector => [.byte vector]
  | push q | pop q => [.stackPair q]
  | rotate _ r => [.reg8 r]
  | bit _ index r => [.bitIndex index, .comma, .reg8 r]

/-- The words of the text of an instruction. -/
def words (i : Instruction) : List Word :=
  .name i.mnemonic.text :: i.operands

end Instruction

/-! ### The text of the words -/

section SpacedText

variable (s : String) (v : Int)

@[simp] theorem spacedText_comma : Word.comma.spacedText = [','] := rfl

@[simp] theorem spacedText_name : (Word.name s).spacedText = ' ' :: s.toList := by
  simp [Word.spacedText, Word.name, Word.comma]

@[simp] theorem spacedText_number : (Word.number s v).spacedText = ' ' :: s.toList := by
  simp [Word.spacedText, Word.number, Word.comma]

@[simp] theorem spacedText_address :
    (Word.address s v).spacedText = ' ' :: '(' :: s.toList ++ [')'] := by
  simp [Word.spacedText, Word.address, Word.comma]

@[simp] theorem spacedText_spShifted :
    (Word.spShifted s v).spacedText = ' ' :: 'S' :: 'P' :: s.toList := by
  simp [Word.spacedText, Word.spShifted, Word.comma]

end SpacedText

/-- **The text of an instruction is the text of its words.** -/
theorem Instruction.toList_text (i : Instruction) :
    i.text.toList = i.mnemonic.text.toList ++ spaced i.operands := by
  cases i with
  | implied op => cases op <;> rfl
  | arith op r | arithImm op n =>
      cases op <;> simp [text, mnemonic, operands, spaced, Mnemonic.text, Arith.opening,
        Arith.destination, Word.reg8, Word.byte, Reg8.text]
  | jump cc nn | jumpRel cc e | call cc nn =>
      cases cc <;> simp [text, mnemonic, operands, spaced, Mnemonic.text, conditionOpening,
        conditionWords, Word.condition, Word.word, Word.offset]
  | _ =>
      simp [text, mnemonic, operands, spaced, Mnemonic.text, Arith.text, Reg8.text, Reg16.text,
        Word.reg8, Word.reg16, Word.stackPair, Word.pointer, Word.condition, Word.byte, Word.word,
        Word.offset, Word.bitIndex, Word.atWord, Word.atByte, Word.spOffset]

/-! ### Words that are operands -/

/-- The word that makes its line a constant. -/
def Word.isEqu (w : Word) : Bool :=
  w.kind == .identifier && sameLetters w.text "EQU"

namespace Word

/-- The word is read as one token, and it does not make its line a constant. -/
structure IsOperand (w : Word) : Prop where
  isRead : w.IsRead
  isEqu : w.isEqu = false

theorem isNameChar_hexDigits (width n : Nat) :
    ('x' :: hexDigits width n).all isNameChar = true := by
  refine List.all_eq_true.2 (List.forall_mem_cons.2 ⟨rfl, ?_⟩)
  intro d hd
  exact isNameChar_of_digitValue? (isSome_digitValue?_hexDigits width n d hd)

theorem toList_hex (width n : Nat) : (hex width n).toList = '0' :: 'x' :: hexDigits width n := by
  simp [hex]

theorem isRead_hex {n : Nat} (h : n ≤ 0x7FFFFFFF) (width : Nat) :
    (number (hex width n) n).IsRead :=
  isRead_number (toList_hex width n) rfl (isNameChar_hexDigits width n) (numeral?_hex h width)

theorem isRead_hexAddress {n : Nat} (h : n ≤ 0x7FFFFFFF) (width : Nat) :
    (address (hex width n) n).IsRead :=
  isRead_address (toList_hex width n) rfl (isNameChar_hexDigits width n) (numeral?_hex h width)

/-- An offset is its magnitude behind its sign. -/
theorem numeral?_offset (e : Int8) :
    if e.toInt < 0 then
      numeral? ('-' :: '0' :: 'x' :: hexDigits 2 e.toInt.natAbs) = some e.toInt
    else numeral? ('0' :: 'x' :: hexDigits 2 e.toInt.natAbs) = some e.toInt ∧
      numeral? ('+' :: '0' :: 'x' :: hexDigits 2 e.toInt.natAbs) = some e.toInt := by
  have hlow := e.le_toInt
  have hhigh := e.toInt_lt
  have hfits : e.toInt.natAbs ≤ 0x7FFFFFFF := by omega
  split
  · have habs : -(e.toInt.natAbs : Int) = e.toInt := by omega
    rw [numeral?_minus_hex hfits, habs]
  · have habs : (e.toInt.natAbs : Int) = e.toInt := by omega
    rw [numeral?_hex hfits, numeral?_plus_hex hfits, habs]
    exact ⟨rfl, rfl⟩

theorem isRead_offset (e : Int8) : (offset e).IsRead := by
  have hv := numeral?_offset e
  by_cases he : e.toInt < 0
  · rw [if_pos he] at hv
    have hs : (offsetText e).toList = '-' :: '0' :: 'x' :: hexDigits 2 e.toInt.natAbs := by
      simp [offsetText, signedHex, he, toList_hex]
    exact isRead_signed hs rfl rfl (isNameChar_hexDigits 2 _) hv
  · rw [if_neg he] at hv
    have hs : (offsetText e).toList = '0' :: 'x' :: hexDigits 2 e.toInt.natAbs := by
      simp [offsetText, signedHex, he, toList_hex]
    exact isRead_number hs rfl (isNameChar_hexDigits 2 _) hv.1

theorem isRead_spOffset (e : Int8) : (spOffset e).IsRead := by
  have hv := numeral?_offset e
  have hneg : e < 0 ↔ e.toInt < 0 := Int8.lt_iff_toInt_lt
  by_cases he : e.toInt < 0
  · rw [if_pos he] at hv
    have hs : ((if e < 0 then "" else "+") ++ offsetText e).toList
        = '-' :: '0' :: 'x' :: hexDigits 2 e.toInt.natAbs := by
      simp [offsetText, signedHex, hneg, he, toList_hex]
    exact isRead_spShifted hs rfl rfl (isNameChar_hexDigits 2 _) hv
  · rw [if_neg he] at hv
    have hs : ((if e < 0 then "" else "+") ++ offsetText e).toList
        = '+' :: '0' :: 'x' :: hexDigits 2 e.toInt.natAbs := by
      simp [offsetText, signedHex, hneg, he, toList_hex]
    exact isRead_spShifted hs rfl rfl (isNameChar_hexDigits 2 _) hv.2

/-- A bit index has one decimal digit. -/
theorem isRead_bitIndex {index : UInt8} (h : index &&& 7 = index) : (bitIndex index).IsRead := by
  have hmem := bitField_mem index
  rw [h] at hmem
  simp only [List.mem_cons, List.not_mem_nil, or_false] at hmem
  rcases hmem with rfl | rfl | rfl | rfl | rfl | rfl | rfl | rfl <;>
    exact isRead_number rfl rfl rfl (by decide)

theorem isRead_reg8 (r : Reg8) : (reg8 r).IsRead := by
  cases r with
  | atHL => exact isRead_bracketed 'H' ['L'] rfl rfl rfl
  | _ => exact isRead_name rfl rfl rfl

theorem isRead_pointer (p : Pointer) : (pointer p).IsRead := by
  cases p with
  | bc => exact isRead_bracketed 'B' ['C'] rfl rfl rfl
  | de => exact isRead_bracketed 'D' ['E'] rfl rfl rfl
  | hlInc => exact isRead_bracketed 'H' ['L', '+'] rfl rfl rfl
  | hlDec => exact isRead_bracketed 'H' ['L', '-'] rfl rfl rfl

section IsOperand

@[simp] theorem isOperand_comma : comma.IsOperand := ⟨isRead_comma, rfl⟩

@[simp] theorem isOperand_byte (n : UInt8) : (byte n).IsOperand :=
  ⟨isRead_hex (by have := n.toNat_lt; omega) 2, rfl⟩

@[simp] theorem isOperand_word (nn : UInt16) : (word nn).IsOperand :=
  ⟨isRead_hex (by have := nn.toNat_lt; omega) 4, rfl⟩

@[simp] theorem isOperand_offset (e : Int8) : (offset e).IsOperand := ⟨isRead_offset e, rfl⟩

theorem isOperand_bitIndex {index : UInt8} (h : index &&& 7 = index) :
    (bitIndex index).IsOperand :=
  ⟨isRead_bitIndex h, rfl⟩

@[simp] theorem isOperand_atByte (n : UInt8) : (atByte n).IsOperand :=
  ⟨isRead_hexAddress (by have := n.toNat_lt; omega) 2, rfl⟩

@[simp] theorem isOperand_atWord (nn : UInt16) : (atWord nn).IsOperand :=
  ⟨isRead_hexAddress (by have := nn.toNat_lt; omega) 4, rfl⟩

@[simp] theorem isOperand_spOffset (e : Int8) : (spOffset e).IsOperand := ⟨isRead_spOffset e, rfl⟩

@[simp] theorem isOperand_reg8 (r : Reg8) : (reg8 r).IsOperand :=
  ⟨isRead_reg8 r, by cases r <;> rfl⟩

@[simp] theorem isOperand_reg16 (rr : Reg16) : (reg16 rr).IsOperand := by
  cases rr <;> exact ⟨isRead_name rfl rfl rfl, rfl⟩

@[simp] theorem isOperand_stackPair (q : StackPair) : (stackPair q).IsOperand := by
  cases q <;> exact ⟨isRead_name rfl rfl rfl, rfl⟩

@[simp] theorem isOperand_pointer (p : Pointer) : (pointer p).IsOperand :=
  ⟨isRead_pointer p, by cases p <;> rfl⟩

@[simp] theorem isOperand_condition (cc : Condition) : (condition cc).IsOperand := by
  cases cc <;> exact ⟨isRead_name rfl rfl rfl, rfl⟩

@[simp] theorem isOperand_highC : highC.IsOperand :=
  ⟨isRead_bracketed 'C' [] rfl rfl rfl, rfl⟩

end IsOperand

end Word

namespace Instruction

/-- **Every operand of a canonical instruction is read as one token**, and none of them is EQU. -/
theorem isOperand_operands {i : Instruction} (hi : i.IsCanonical) :
    ∀ w ∈ i.operands, w.IsOperand := by
  cases i with
  | implied op => cases op <;> simp [operands, Implied.operands]
  | arith op r | arithImm op n => cases op <;> simp [operands, Arith.destination]
  | jump cc nn | jumpRel cc e | call cc nn => cases cc <;> simp [operands, conditionWords]
  | bit op index r =>
      have hindex := isCanonical_bit_iff.1 hi
      simp [operands, Word.isOperand_bitIndex hindex]
  | _ => simp [operands]

/-! ### Mnemonics -/

/-- The name of a mnemonic is a single word, and the mnemonic is found by it. -/
theorem isRead_mnemonic (i : Instruction) :
    (Word.name i.mnemonic.text).IsRead ∧ Mnemonic.ofName? i.mnemonic.text = some i.mnemonic := by
  -- the operand fields have no part in the name, so `mnemonic` is opened first
  cases i with
  | implied op => cases op <;> exact ⟨Word.isRead_name rfl rfl rfl, rfl⟩
  | arith op r | arithImm op n =>
      rw [mnemonic]
      cases op <;> exact ⟨Word.isRead_name rfl rfl rfl, rfl⟩
  | rotate op r | bit op index r =>
      rw [mnemonic]
      cases op <;> exact ⟨Word.isRead_name rfl rfl rfl, rfl⟩
  | _ =>
      rw [mnemonic]
      exact ⟨Word.isRead_name rfl rfl rfl, rfl⟩

/-- Every word of a canonical instruction is read. -/
theorem isRead_words {i : Instruction} (hi : i.IsCanonical) : ∀ w ∈ i.words, w.IsRead := by
  refine List.forall_mem_cons.2 ⟨i.isRead_mnemonic.1, ?_⟩
  intro w hw
  exact (isOperand_operands hi w hw).isRead

end Instruction

end GameBoyAssembler
