import GameBoyAssembler.Cpu.Decode

/-!
# Machine code read back

The first byte of an instruction's code announces exactly the operand bytes that the code has, so
the code can be read back wherever it stands.  Three kinds of fields are not all kept by the code: a
restart vector and a bit index lose the bits that have no place in the opcode, and the load of the
byte at HL into itself has the opcode of HALT.

Main definitions:

* `Instruction.canonical`, `Instruction.IsCanonical` — the instruction that the code of an
  instruction stands for, and the instructions that stand for themselves;
* `Instruction.announced` — the form that its first byte has.

Main results:

* `instructionLength_eq` — the table of lengths agrees with the announced forms on every byte;
* `Instruction.form_firstByte` — the first byte announces the form of its instruction;
* `Instruction.length_bytes` — the first byte tells the length of the code;
* `Instruction.length_bytes_erase` — the value of a number operand does not change the length;
* `Instruction.decode?_bytes_append` — the code reads back as the canonical instruction, whatever
  bytes follow it.
-/

set_option relaxedAutoImplicit false
set_option autoImplicit false

namespace GameBoyAssembler

/-! ### Bytes and words -/

/-- A property of all bytes can be checked on their numbers. -/
theorem forall_byte {P : UInt8 → Prop} (h : ∀ n : Fin 256, P (UInt8.ofFin n)) (v : UInt8) :
    P v := by
  simpa using h v.toFin

/-- **The table of lengths is that of the announced forms.** -/
theorem instructionLength_eq (op : UInt8) : instructionLength op = (form op).length :=
  forall_byte (P := fun op => instructionLength op = (form op).length) (by decide +kernel) op

/-- What is left of a bit index in an opcode. -/
theorem bitField_mem (v : UInt8) : v &&& 7 ∈ [0, 1, 2, 3, 4, 5, 6, (7 : UInt8)] :=
  forall_byte (P := fun v => v &&& 7 ∈ [0, 1, 2, 3, 4, 5, 6, (7 : UInt8)]) (by decide +kernel) v

/-- What is left of a restart vector in an opcode. -/
theorem vectorField_mem (v : UInt8) :
    v &&& 0x38 ∈ [0, 0x08, 0x10, 0x18, 0x20, 0x28, 0x30, (0x38 : UInt8)] :=
  forall_byte (P := fun v => v &&& 0x38 ∈ [0, 0x08, 0x10, 0x18, 0x20, 0x28, 0x30, (0x38 : UInt8)])
    (by decide +kernel) v

/-- A word is made of its low and its high byte. -/
@[simp] theorem wordOf_toUInt8 (nn : UInt16) : wordOf nn.toUInt8 (nn >>> 8).toUInt8 = nn := by
  have hlt := nn.toNat_lt
  have hhigh : nn.toNat >>> 8 = nn.toNat / 256 := Nat.shiftRight_eq_div_pow _ 8
  have hshift : (nn.toNat / 256) <<< 8 = nn.toNat / 256 * 256 := Nat.shiftLeft_eq _ 8
  -- the two bytes share no bit, so that the bitwise "or" is a sum
  have hor : nn.toNat % 256 ||| (nn.toNat / 256) <<< 8
      = (nn.toNat / 256) <<< 8 + nn.toNat % 256 := by
    rw [Nat.or_comm]
    exact (Nat.shiftLeft_add_eq_or_of_lt (Nat.mod_lt _ (by decide)) _).symm
  have h₁ : nn.toNat / 256 % 256 = nn.toNat / 256 := Nat.mod_eq_of_lt (by omega)
  have h₂ : (nn.toNat / 256) <<< 8 % 65536 = (nn.toNat / 256) <<< 8 := by omega
  apply UInt16.toNat_inj.1
  simp only [wordOf, UInt16.toNat_or, UInt16.toNat_shiftLeft, UInt8.toNat_toUInt16,
    UInt16.toNat_toUInt8, UInt16.toNat_shiftRight, UInt16.reduceToNat, Nat.reduceMod,
    Nat.reducePow, hhigh, h₁, h₂, hor]
  omega

theorem Form.complete?_offset (make : Int8 → Instruction) (e : Int8) (rest : List UInt8) :
    (Form.offset make).complete? (e.toUInt8 :: rest) = some (make e) := by
  simp [Form.complete?]

theorem Form.complete?_word (make : UInt16 → Instruction) (nn : UInt16) (rest : List UInt8) :
    (Form.word make).complete? (wordBytes nn ++ rest) = some (make nn) := by
  simp [Form.complete?, wordBytes]

/-! ### The form of an instruction -/

namespace Instruction

/-- The instruction that the code of `i` stands for. -/
def canonical : Instruction → Instruction
  | restart vector => restart (vector &&& 0x38)
  | bit op index r => bit op (index &&& 7) r
  | load .atHL .atHL => implied .halt
  | i => i

/-- The code of the instruction keeps all its fields. -/
def IsCanonical (i : Instruction) : Prop :=
  i.canonical = i

theorem isCanonical_restart_iff {vector : UInt8} :
    (restart vector).IsCanonical ↔ vector &&& 0x38 = vector := by
  constructor
  · intro h
    exact restart.inj h
  · intro h
    exact congrArg restart h

theorem IsCanonical.not_load_atHL {dst src : Reg8} (h : (load dst src).IsCanonical) :
    dst = .atHL → src ≠ .atHL := by
  rintro rfl rfl
  cases h

theorem isCanonical_bit_iff {op : BitAction} {index : UInt8} {r : Reg8} :
    (bit op index r).IsCanonical ↔ index &&& 7 = index := by
  constructor
  · intro h
    exact (bit.inj h).2.1
  · intro h
    exact congrArg (bit op · r) h

/-- The form that the first byte of an instruction announces. -/
def announced : Instruction → Form
  | implied .stop => .zero (implied .stop)
  | arithImm op _ => .byte (arithImm op)
  | loadImm r _ => .byte (loadImm r)
  | storeHigh _ => .byte storeHigh
  | loadHigh _ => .byte loadHigh
  | addSP _ => .offset addSP
  | loadHLSP _ => .offset loadHLSP
  | jumpRel cc _ => .offset (jumpRel cc)
  | loadPairImm rr _ => .word (loadPairImm rr)
  | storeAt _ => .word storeAt
  | loadAt _ => .word loadAt
  | storeSPAt _ => .word storeSPAt
  | jump cc _ => .word (jump cc)
  | call cc _ => .word (call cc)
  | rotate _ _ | bit _ _ _ => .extended
  | i => .alone i.canonical

theorem form_restart (vector : UInt8) :
    form (0xC7 ||| (vector &&& 0x38 : UInt8)) = .alone (restart (vector &&& 0x38)) := by
  have h := vectorField_mem vector
  generalize vector &&& 0x38 = v at h ⊢
  simp only [List.mem_cons, List.not_mem_nil, or_false] at h
  rcases h with rfl | rfl | rfl | rfl | rfl | rfl | rfl | rfl <;> rfl

theorem extendedInstruction_rotate (op : Rotate) (r : Reg8) :
    extendedInstruction (withY 0 op.code ||| r.code) = rotate op r := by
  cases op <;> cases r <;> rfl

theorem extendedInstruction_bit (op : BitAction) (index : UInt8) (r : Reg8) :
    extendedInstruction (withY (op.code <<< 6) (index &&& 7) ||| r.code)
      = bit op (index &&& 7) r := by
  have h := bitField_mem index
  generalize index &&& 7 = n at h ⊢
  simp only [List.mem_cons, List.not_mem_nil, or_false] at h
  rcases h with rfl | rfl | rfl | rfl | rfl | rfl | rfl | rfl <;> cases op <;> cases r <;> rfl

/-- **The first byte announces the form of its instruction.** -/
theorem form_firstByte (i : Instruction) : form i.opcode.firstByte = i.announced := by
  -- the field of a number operand has no part in the opcode, so `opcode` is opened first
  cases i with
  | implied op => cases op <;> rfl
  | arith op r => cases op <;> cases r <;> rfl
  | arithImm op n => rw [opcode]; cases op <;> rfl
  | inc r | dec r => cases r <;> rfl
  | incPair rr | decPair rr | addHL rr => cases rr <;> rfl
  | addSP e | loadHLSP e => rw [opcode]; rfl
  | load dst src => cases dst <;> cases src <;> rfl
  | loadImm r n => rw [opcode]; cases r <;> rfl
  | loadPairImm rr nn => rw [opcode]; cases rr <;> rfl
  | storeVia p | loadVia p => cases p <;> rfl
  | storeAt nn | loadAt nn | storeSPAt nn => rw [opcode]; rfl
  | storeHigh n | loadHigh n => rw [opcode]; rfl
  | jump cc nn | jumpRel cc nn | call cc nn =>
      cases cc with
      | none => rw [opcode]; rfl
      | some cc => rw [opcode]; cases cc <;> rfl
  | retIf cc => cases cc <;> rfl
  | restart vector => exact form_restart vector
  | push q | pop q => cases q <;> rfl
  | rotate op r | bit op index r => rw [opcode, Opcode.firstByte]; rfl

/-! ### Length and reading back -/

/-- **The first byte tells the length of the code.** -/
theorem length_bytes (i : Instruction) :
    i.bytes.length = instructionLength i.opcode.firstByte := by
  rw [instructionLength_eq, form_firstByte]
  cases i with
  | implied op => cases op <;> rfl
  | jump cc nn | jumpRel cc nn | call cc nn => cases cc <;> rfl
  | _ => rfl

theorem length_bytes_pos (i : Instruction) : 0 < i.bytes.length := by
  rw [bytes, List.length_append]
  have h : 0 < i.opcode.bytes.length := by cases i.opcode <;> exact Nat.succ_pos _
  omega

/-- The code of an instruction is its first byte and as many more as this announces. -/
theorem exists_bytes_eq (i : Instruction) :
    ∃ ops, i.bytes = i.opcode.firstByte :: ops ∧
      instructionLength i.opcode.firstByte - 1 = ops.length := by
  have hlength := i.length_bytes
  obtain ⟨ops, hops⟩ : ∃ ops, i.bytes = i.opcode.firstByte :: ops := by
    rw [bytes]
    cases i.opcode <;> exact ⟨_, rfl⟩
  refine ⟨ops, hops, ?_⟩
  rw [← hlength, hops, List.length_cons, Nat.add_sub_cancel]

/-- The value of a number operand does not change the length. -/
theorem length_bytes_erase (i : Instruction) : i.erase.bytes.length = i.bytes.length := by
  cases i with
  | jump cc nn | jumpRel cc nn | call cc nn => cases cc <;> rfl
  | _ => rfl

/-- The first byte is read for the form, and the others for the operand. -/
theorem decode?_bytes_eq (i : Instruction) (rest : List UInt8) :
    decode? (i.bytes ++ rest) = i.announced.complete? (i.bytes.tail ++ rest) := by
  rw [← form_firstByte, bytes]
  cases i.opcode <;> rfl

/-- **The code of an instruction reads back as the canonical instruction**, whatever follows. -/
theorem decode?_bytes_append (i : Instruction) (rest : List UInt8) :
    decode? (i.bytes ++ rest) = some i.canonical := by
  rw [decode?_bytes_eq]
  cases i with
  | implied op => cases op <;> rfl
  | load dst src => cases dst <;> cases src <;> rfl
  | addSP e | loadHLSP e => exact Form.complete?_offset _ e rest
  | jumpRel cc e => cases cc <;> exact Form.complete?_offset _ e rest
  | loadPairImm rr nn => exact Form.complete?_word _ nn rest
  | storeAt nn | loadAt nn | storeSPAt nn => exact Form.complete?_word _ nn rest
  | jump cc nn | call cc nn => cases cc <;> exact Form.complete?_word _ nn rest
  | rotate op r => exact congrArg some (extendedInstruction_rotate op r)
  | bit op index r => exact congrArg some (extendedInstruction_bit op index r)
  | _ => rfl

/-- The canonical instructions are those whose code reads back as the instruction itself. -/
theorem decode?_bytes_eq_some_iff {i : Instruction} : decode? i.bytes = some i ↔ i.IsCanonical := by
  have h := decode?_bytes_append i []
  rw [List.append_nil] at h
  rw [h, Option.some_inj, IsCanonical]

end Instruction

end GameBoyAssembler
