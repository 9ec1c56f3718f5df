import GameBoyAssembler.Selection
import GameBoyAssembler.Proofs.Printed

/-!
# Printed operands select their instruction

A register is written so that it is taken for nothing else, and a number is printed only where it is
in the range of its operand.  So the words of a canonical instruction select the instruction they
were printed for.  As no symbol is among them, it does not matter which symbols are known.

Main results:

* `Context.checked_of_value` — a number that is written out is passed through its rule as it is;
* `takeBranch_words`, `Context.select_load`, `Context.select_arith` — the families whose operands
  differ in form;
* `Context.select_operands` — **the operands of a canonical instruction select it**.
-/

set_option relaxedAutoImplicit false
set_option autoImplicit false

namespace GameBoyAssembler

/-! ### Results that are known -/

@[simp] theorem ok_bind {α β : Type} (a : α) (f : α → Except Error β) :
    (Except.ok a >>= f) = f a := rfl

@[simp] theorem pure_eq_ok {α : Type} (a : α) : (pure a : Except Error α) = .ok a := rfl

/-! ### Operands read from their words -/

section Shapes

variable (pos : Position)

theorem shape_name {s : String} {shape : Shape}
    (h : Shape.ofName s (s.toList.head?.any fun c => c == '(' || c == '[') = shape) :
    ((Word.name s).token pos).shape = .ok shape :=
  congrArg Except.ok h

@[simp] theorem shape_reg8 (r : Reg8) : ((Word.reg8 r).token pos).shape = .ok (.reg8 r) :=
  shape_name pos (by cases r <;> rfl)

@[simp] theorem shape_reg16 (rr : Reg16) : ((Word.reg16 rr).token pos).shape = .ok (.reg16 rr) :=
  shape_name pos (by cases rr <;> rfl)

@[simp] theorem shape_pointer (p : Pointer) : ((Word.pointer p).token pos).shape = .ok (.via p) :=
  shape_name pos (by cases p <;> rfl)

@[simp] theorem shape_highC : (Word.highC.token pos).shape = .ok .highC :=
  shape_name pos rfl

@[simp] theorem shape_byte (n : UInt8) : ((Word.byte n).token pos).shape = .ok .immediate := rfl

@[simp] theorem shape_word (nn : UInt16) : ((Word.word nn).token pos).shape = .ok .immediate := rfl

@[simp] theorem shape_atWord (nn : UInt16) : ((Word.atWord nn).token pos).shape = .ok .memory := rfl

@[simp] theorem shape_atByte (n : UInt8) : ((Word.atByte n).token pos).shape = .ok .memory := rfl

@[simp] theorem shape_spOffset (e : Int8) : ((Word.spOffset e).token pos).shape = .ok .spOffset :=
  rfl

@[simp] theorem condition_condition (cc : Condition) :
    ((Word.condition cc).token pos).condition = .ok cc := by
  have h : Condition.ofName? cc.text = some cc := by cases cc <;> rfl
  simp [Token.condition, Word.condition, Word.name, Word.token, h]

@[simp] theorem stackPair_stackPair (q : StackPair) :
    ((Word.stackPair q).token pos).stackPair = .ok q := by
  have h : StackPair.ofName? q.text = some q := by cases q <;> rfl
  simp [Token.stackPair, Word.stackPair, Word.name, Word.token, h]

@[simp] theorem isComma_comma : (Word.comma.token pos).isComma = true := rfl

end Shapes

namespace Context

variable (c : Context) (pos : Position)

/-- A number that is written out is passed through the rule as it is. -/
theorem checked_of_value {α : Type} [OfNat α 0] {t : Token} {v : Int} (hv : t.value = some v)
    {rule : Int → Except Cause α} {a : α} (hrule : rule v = .ok a) :
    c.checked t rule = .ok a := by
  simp [checked, quantity, hv, hrule]

theorem number_of_value {t : Token} {v : Int} (hv : t.value = some v) {w : Width}
    (hw : w.Accepts v) : c.number t w = .ok v :=
  c.checked_of_value hv (by simp [Width.check, hw])

/-- A number in front of a field is the value of the field, if the width accepts it. -/
theorem field_of_value {α : Type} {t : Token} {v : Int} (hv : t.value = some v) {w : Width}
    (hw : w.Accepts v) (ofInt : Int → α) :
    (return ofInt (← c.number t w) : Except Error α) = .ok (ofInt v) := by
  rw [c.number_of_value hv hw]
  rfl

theorem accepts_byte (n : UInt8) : Width.either8.Accepts (n.toNat : Int) := by
  have hlt := n.toNat_lt
  simp only [Width.Accepts, Width.low, Width.high]
  omega

theorem accepts_word (nn : UInt16) :
    Width.either16.Accepts (nn.toNat : Int) ∧ Width.unsigned16.Accepts (nn.toNat : Int) := by
  have hlt := nn.toNat_lt
  simp only [Width.Accepts, Width.low, Width.high]
  omega

theorem accepts_offset (e : Int8) : Width.signed8.Accepts e.toInt := by
  have hlow := e.le_toInt
  have hhigh := e.toInt_lt
  simp only [Width.Accepts, Width.low, Width.high]
  omega

theorem ofInt_toNat_byte (n : UInt8) : UInt8.ofInt (n.toNat : Int) = n := by
  have hlt := n.toNat_lt
  have hmod : ((n.toNat : Int) % 2 ^ 8).toNat = n.toNat := by omega
  rw [UInt8.ofInt, hmod, UInt8.ofNat_toNat]

theorem ofInt_toNat_word (nn : UInt16) : UInt16.ofInt (nn.toNat : Int) = nn := by
  have hlt := nn.toNat_lt
  have hmod : ((nn.toNat : Int) % 2 ^ 16).toNat = nn.toNat := by omega
  rw [UInt16.ofInt, hmod, UInt16.ofNat_toNat]

@[simp] theorem byte_byte (n : UInt8) : c.byte ((Word.byte n).token pos) = .ok n := by
  rw [byte, c.field_of_value rfl (accepts_byte n), ofInt_toNat_byte]

@[simp] theorem word_word (nn : UInt16) : c.word ((Word.word nn).token pos) = .ok nn := by
  rw [word, c.field_of_value rfl (accepts_word nn).1, ofInt_toNat_word]

@[simp] theorem addressWord_word (nn : UInt16) :
    c.addressWord ((Word.word nn).token pos) = .ok nn := by
  rw [addressWord, c.field_of_value rfl (accepts_word nn).2, ofInt_toNat_word]

@[simp] theorem addressWord_atWord (nn : UInt16) :
    c.addressWord ((Word.atWord nn).token pos) = .ok nn := by
  rw [addressWord, c.field_of_value rfl (accepts_word nn).2, ofInt_toNat_word]

@[simp] theorem offset_offset (e : Int8) : c.offset ((Word.offset e).token pos) = .ok e := by
  rw [offset, c.field_of_value rfl (accepts_offset e), Int8.ofInt_toInt]

@[simp] theorem offset_spOffset (e : Int8) : c.offset ((Word.spOffset e).token pos) = .ok e := by
  rw [offset, c.field_of_value rfl (accepts_offset e), Int8.ofInt_toInt]

/-- A displacement that is written out is not an address. -/
@[simp] theorem displacement_offset (e : Int8) :
    c.displacement ((Word.offset e).token pos) = .ok e :=
  c.offset_offset pos e

@[simp] theorem highPageOffset_atByte (n : UInt8) :
    c.highPageOffset ((Word.atByte n).token pos) = .ok n := by
  have hlt := n.toNat_lt
  have hbelow : ¬ (0xFF00 ≤ (n.toNat : Int) ∧ (n.toNat : Int) ≤ 0xFFFF) := by omega
  have haccepts : Width.unsigned8.Accepts (n.toNat : Int) := by
    simp only [Width.Accepts, Width.low, Width.high]
    omega
  refine c.checked_of_value rfl ?_
  simp only [highPageRule, if_neg hbelow, if_pos haccepts, ofInt_toNat_byte]

theorem restartVector_byte {vector : UInt8} (h : vector &&& 0x38 = vector) :
    c.restartVector ((Word.byte vector).token pos) = .ok vector := by
  refine c.checked_of_value rfl ?_
  have hmem := vectorField_mem vector
  rw [h] at hmem
  simp only [List.mem_cons, List.not_mem_nil, or_false] at hmem
  rcases hmem with rfl | rfl | rfl | rfl | rfl | rfl | rfl | rfl <;> rfl

theorem bitIndex_bitIndex {index : UInt8} (h : index &&& 7 = index) :
    c.bitIndex ((Word.bitIndex index).token pos) = .ok index := by
  have haccepts : Width.bitIndex.Accepts (index.toNat : Int) := by
    have hmem := bitField_mem index
    rw [h] at hmem
    simp only [List.mem_cons, List.not_mem_nil, or_false] at hmem
    rcases hmem with rfl | rfl | rfl | rfl | rfl | rfl | rfl | rfl <;> decide
  rw [bitIndex, c.field_of_value rfl haccepts, ofInt_toNat_byte]

end Context

/-! ### Selection -/

theorem tokens_of_one {ts : List Token} {w : Word} (h : ts.map Token.word = [w]) :
    ∃ p, ts = [w.token p] := by
  obtain ⟨t, rest, rfl, ht, hrest⟩ := List.map_eq_cons_iff.1 h
  obtain rfl := List.map_eq_nil_iff.1 hrest
  obtain ⟨p, rfl⟩ := Word.exists_token ht
  exact ⟨p, rfl⟩

theorem tokens_of_three {ts : List Token} {v w : Word} (h : ts.map Token.word = [v, .comma, w]) :
    ∃ p q r, ts = [v.token p, Word.comma.token q, w.token r] := by
  obtain ⟨t, rest, rfl, ht, hrest⟩ := List.map_eq_cons_iff.1 h
  obtain ⟨u, rest', rfl, hu, hrest'⟩ := List.map_eq_cons_iff.1 hrest
  obtain ⟨p, rfl⟩ := Word.exists_token ht
  obtain ⟨q, rfl⟩ := Word.exists_token hu
  obtain ⟨r, rfl⟩ := tokens_of_one hrest'
  exact ⟨p, q, r, rfl⟩

@[simp] theorem expectA_reg8_a (pos : Position) : ((Word.reg8 .a).token pos).expectA = .ok () := by
  simp [Token.expectA]

theorem takeTwo_eq {name first comma second : Token} (hcomma : comma.isComma = true) :
    takeTwo name [first, comma, second] = .ok (first, second, []) := by
  simp [takeTwo, takeOne, hcomma]

@[simp] theorem takeTwo_comma (name first second : Token) (pos : Position) :
    takeTwo name [first, Word.comma.token pos, second] = .ok (first, second, []) :=
  takeTwo_eq rfl

theorem takeBranch_words {cc : Option Condition} {w : Word} (name : Token) {ts : List Token}
    (hts : ts.map Token.word = conditionWords cc ++ [w]) :
    ∃ p, takeBranch name ts = .ok (cc, w.token p, []) := by
  cases cc with
  | none =>
      obtain ⟨p, rfl⟩ := tokens_of_one hts
      exact ⟨p, rfl⟩
  | some cc =>
      obtain ⟨p, q, r, rfl⟩ := tokens_of_three hts
      refine ⟨r, ?_⟩
      simp [takeBranch, takeOne]

namespace Context

variable (c : Context) (name : Token) {ts : List Token} {i : Instruction}

/-- A selection that leaves nothing behind its operands. -/
theorem select_eq_of_front {m : Mnemonic} {x : Except Error Instruction}
    (h : c.selectFront m name ts = do return (← x, [])) : c.select m name ts = x := by
  rw [select, h]
  cases x <;> rfl

theorem select_of_front {m : Mnemonic} (h : c.selectFront m name ts = .ok (i, [])) :
    c.select m name ts = .ok i :=
  c.select_eq_of_front name h

theorem select_ld {dst comma src : Token} (hcomma : comma.isComma = true) :
    c.select .ld name [dst, comma, src] = c.load dst src := by
  apply select_eq_of_front
  rw [selectFront, takeTwo_eq hcomma, ok_bind]

theorem select_load {dst src : Word} (h : ∀ p q, c.load (dst.token p) (src.token q) = .ok i)
    (hts : ts.map Token.word = [dst, .comma, src]) : c.select .ld name ts = .ok i := by
  obtain ⟨p, q, r, rfl⟩ := tokens_of_three hts
  refine c.select_of_front name ?_
  simp [selectFront, h]

/-- Of all loads between byte registers only the one from memory to memory is refused. -/
theorem load_reg8 {dst src : Reg8} (h : dst = .atHL → src ≠ .atHL) (p q : Position) :
    c.load ((Word.reg8 dst).token p) ((Word.reg8 src).token q) = .ok (.load dst src) := by
  simp only [load, shape_reg8, ok_bind]
  cases dst with
  | atHL =>
      cases src with
      | atHL => exact absurd rfl (h rfl)
      | _ => rfl
  | _ => cases src <;> rfl

/-- Arithmetic is selected from its source; a destination in front of it must be register A. -/
theorem select_arith {op : Arith} {src : Word} (h : ∀ p, c.arithSource op (src.token p) = .ok i)
    (hts : ts.map Token.word = op.destination ++ [src]) : c.select (.arith op) name ts = .ok i := by
  have hlong (hts : ts.map Token.word = [.reg8 .a, .comma, src]) :
      c.select (.arith op) name ts = .ok i := by
    obtain ⟨p, q, r, rfl⟩ := tokens_of_three hts
    refine c.select_of_front name ?_
    simp [selectFront, isLongForm, arithTo, h]
  have hshort (hts : ts.map Token.word = [src]) : c.select (.arith op) name ts = .ok i := by
    obtain ⟨p, rfl⟩ := tokens_of_one hts
    refine c.select_of_front name ?_
    simp [selectFront, isLongForm, takeOne, h]
  cases op with
  | add | adc | sbc => exact hlong hts
  | sub | and | xor | or | cp => exact hshort hts

theorem select_implied {op : Implied} (hts : ts.map Token.word = op.operands) :
    c.select op.mnemonic name ts = .ok (.implied op) := by
  cases op with
  | jpHL =>
      obtain ⟨p, rfl⟩ := tokens_of_one hts
      refine c.select_of_front name ?_
      simp [Implied.mnemonic, selectFront, takeBranch, takeOne, jumpTo]
  | ldSPHL | storeHighC | loadHighC =>
      refine c.select_load name (fun p q => ?_) hts
      simp [load]
  | _ =>
      obtain rfl := List.map_eq_nil_iff.1 hts
      rfl

/-- **The operands of a canonical instruction select it**, whatever symbols are known. -/
theorem select_operands (hi : i.IsCanonical) (hts : ts.map Token.word = i.operands) :
    c.select i.mnemonic name ts = .ok i := by
  cases i with
  | implied op => exact c.select_implied name hts
  | arith op r | arithImm op n =>
      refine c.select_arith name (fun p => ?_) hts
      simp [arithSource]
  | addHL rr | addSP e =>
      obtain ⟨p, q, r, rfl⟩ := tokens_of_three hts
      refine c.select_of_front name ?_
      simp [Instruction.mnemonic, selectFront, isLongForm, arithTo, Token.reg16]
  | load dst src =>
      exact c.select_load name (c.load_reg8 hi.not_load_atHL) hts
  | loadImm | loadPairImm | storeVia | loadVia | storeAt | loadAt | storeSPAt | loadHLSP =>
      refine c.select_load name (fun p q => ?_) hts
      simp [load]
  | storeHigh n | loadHigh n =>
      obtain ⟨p, q, r, rfl⟩ := tokens_of_three hts
      refine c.select_of_front name ?_
      simp [Instruction.mnemonic, selectFront, loadHighPage]
  | jump cc nn | jumpRel cc e | call cc nn =>
      obtain ⟨p, hp⟩ := takeBranch_words name hts
      refine c.select_of_front name ?_
      simp [Instruction.mnemonic, selectFront, hp, jumpTo]
  | restart vector =>
      obtain ⟨p, rfl⟩ := tokens_of_one hts
      refine c.select_of_front name ?_
      have hvector := Instruction.isCanonical_restart_iff.1 hi
      simp [Instruction.mnemonic, selectFront, takeOne, c.restartVector_byte p hvector]
  | bit op index r =>
      obtain ⟨p, q, r, rfl⟩ := tokens_of_three hts
      refine c.select_of_front name ?_
      have hindex := Instruction.isCanonical_bit_iff.1 hi
      simp [Instruction.mnemonic, selectFront, Token.reg8, c.bitIndex_bitIndex p hindex]
  | _ =>
      obtain ⟨p, rfl⟩ := tokens_of_one hts
      refine c.select_of_front name ?_
      simp [Instruction.mnemonic, selectFront, takeOne, step, Token.reg8]

end Context

end GameBoyAssembler
