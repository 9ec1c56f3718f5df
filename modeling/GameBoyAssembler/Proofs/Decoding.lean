import GameBoyAssembler.Proofs.MachineCode

/-!
# Decoding and encoding are inverse

Machine code that was made from an instruction reads back as the canonical instruction.  This module
adds the way round: bytes that read as an instruction are the code of this instruction, and the bytes
that read as none are told by the first byte, the number of bytes and the byte behind STOP.

The form that a first byte announces holds functions of the operand, so that forms cannot be compared
one by one.  Instead every first byte that starts an instruction at all is the first byte of a known
instruction, and the form of this one is known.

Main results:

* `Instruction.bytes_canonical` — an instruction and its canonical one have the same code;
* `exists_firstByte_eq` — every byte with a length is the first byte of some instruction;
* `bytes_prefix_of_decode?` — bytes that decode start with the code of the instruction;
* `decode?_eq_none_iff` — the bytes that do not decode;
* `decode?_inverse` — **decoding and encoding are inverse**.
-/

set_option relaxedAutoImplicit false
set_option autoImplicit false

namespace GameBoyAssembler

/-! ### Operands -/

theorem toNat_wordOf (low high : UInt8) :
    (wordOf low high).toNat = high.toNat * 256 + low.toNat := by
  have hlow := low.toNat_lt
  have hhigh := high.toNat_lt
  -- the low byte has no bit of the shifted high byte, so that "or" adds them
  have hor : low.toNat ||| high.toNat * 256 = high.toNat * 256 + low.toNat := by
    have hshift : high.toNat <<< 8 = high.toNat * 256 := Nat.shiftLeft_eq _ 8
    rw [← hshift, Nat.or_comm]
    exact (Nat.shiftLeft_add_eq_or_of_lt hlow _).symm
  have hmod : high.toNat * 256 % 65536 = high.toNat * 256 := by omega
  simp only [wordOf, UInt16.toNat_or, UInt16.toNat_shiftLeft, UInt8.toNat_toUInt16,
    UInt16.reduceToNat, Nat.reduceMod, Nat.reducePow, Nat.shiftLeft_eq, hmod, hor]

/-- A word splits into the two bytes that it was made of. -/
theorem wordBytes_wordOf (low high : UInt8) : wordBytes (wordOf low high) = [low, high] := by
  have hlow := low.toNat_lt
  have hhigh := high.toNat_lt
  have hword := toNat_wordOf low high
  have h₁ : (wordOf low high).toUInt8 = low := by
    apply UInt8.toNat_inj.1
    rw [UInt16.toNat_toUInt8, hword]
    omega
  have h₂ : (wordOf low high >>> 8).toUInt8 = high := by
    apply UInt8.toNat_inj.1
    simp only [UInt16.toNat_toUInt8, UInt16.toNat_shiftRight, UInt16.reduceToNat, Nat.reduceMod,
      hword]
    omega
  rw [wordBytes, h₁, h₂]

theorem bytes_extendedInstruction (op : UInt8) :
    (extendedInstruction op).bytes = [Opcode.extension, op] :=
  forall_byte (P := fun op => (extendedInstruction op).bytes = [Opcode.extension, op])
    (by decide +kernel) op

/-! ### What a first byte announces -/

/-- The bytes of a form: what its instruction is completed to has the code `op`, then the operand. -/
def Form.Codes (op : UInt8) : Form → Prop
  | unused => True
  | alone i => i.bytes = [op]
  | byte make => ∀ n, (make n).bytes = [op, n]
  | offset make => ∀ e, (make e).bytes = [op, e.toUInt8]
  | word make => ∀ nn, (make nn).bytes = op :: wordBytes nn
  | zero i => i.bytes = [op, 0]
  | extended => op = Opcode.extension

namespace Instruction

/-- Masking twice is masking once. -/
theorem and_mask_mask (v mask : UInt8) : v &&& mask &&& mask = v &&& mask := by
  rw [UInt8.and_assoc, UInt8.and_self]

/-- An instruction and its canonical one have the same code. -/
theorem bytes_canonical (i : Instruction) : i.canonical.bytes = i.bytes := by
  cases i with
  | load dst src => cases dst <;> cases src <;> rfl
  | restart vector =>
      change (restart (vector &&& 0x38)).bytes = _
      simp only [bytes, opcode, operandBytes, and_mask_mask]
  | bit op index r =>
      change (bit op (index &&& 7) r).bytes = _
      simp only [bytes, opcode, operandBytes, and_mask_mask]
  | _ => rfl

/-- The opcode has no part of the number operand, so that the announced form codes for the first
byte whatever the operand is. -/
theorem codes_announced (i : Instruction) : i.announced.Codes i.opcode.firstByte := by
  cases i with
  | implied op => cases op <;> rfl
  | jump cc nn | call cc nn => cases cc <;> exact fun _ => rfl
  | jumpRel cc e => cases cc <;> exact fun _ => rfl
  | arithImm op n | loadImm r n | storeHigh n | loadHigh n => exact fun _ => rfl
  | addSP e | loadHLSP e => exact fun _ => rfl
  | loadPairImm rr nn | storeAt nn | loadAt nn | storeSPAt nn => exact fun _ => rfl
  | load dst src => exact bytes_canonical (load dst src)
  | restart vector => exact bytes_canonical (restart vector)
  | _ => rfl

end Instruction

/-- The bytes that start an instruction are the first bytes of instructions. -/
theorem exists_firstByte_eq {op : UInt8} (h : instructionLength op ≠ 0) :
    ∃ i : Instruction, i.opcode.firstByte = op := by
  have hread : (decode? [op, 0, 0]).map (fun i => i.opcode.firstByte) = some op :=
    forall_byte (P := fun op => instructionLength op ≠ 0 →
      (decode? [op, 0, 0]).map (fun i => i.opcode.firstByte) = some op) (by decide +kernel) op h
  obtain ⟨i, -, hi⟩ := Option.map_eq_some_iff.1 hread
  exact ⟨i, hi⟩

theorem codes_form (op : UInt8) : (form op).Codes op := by
  by_cases h : instructionLength op = 0
  · rw [instructionLength_eq] at h
    cases hform : form op with
    | unused => trivial
    | alone _ | byte _ | offset _ | word _ | zero _ | extended => rw [hform] at h; cases h
  · obtain ⟨i, rfl⟩ := exists_firstByte_eq h
    rw [i.form_firstByte]
    exact i.codes_announced

/-! ### Reading bytes -/

/-- What a form is completed to has its code in front of the bytes that were read. -/
theorem Form.Codes.prefix_of_complete? {op : UInt8} {f : Form} (hf : f.Codes op)
    {rest : List UInt8} {i : Instruction} (h : f.complete? rest = some i) :
    i.bytes <+: op :: rest := by
  cases f with
  | unused => cases h
  | alone j =>
      cases h
      rw [hf]
      exact ⟨rest, rfl⟩
  | byte make =>
      cases rest with
      | nil => cases h
      | cons n rest =>
          cases h
          rw [hf n]
          exact ⟨rest, rfl⟩
  | offset make =>
      cases rest with
      | nil => cases h
      | cons n rest =>
          cases h
          rw [hf n.toInt8, UInt8.toUInt8_toInt8]
          exact ⟨rest, rfl⟩
  | word make =>
      cases rest with
      | nil => cases h
      | cons low rest =>
          cases rest with
          | nil => cases h
          | cons high rest =>
              cases h
              rw [hf (wordOf low high), wordBytes_wordOf]
              exact ⟨rest, rfl⟩
  | zero j =>
      cases rest with
      | nil => cases h
      | cons n rest =>
          simp only [complete?] at h
          split at h
          · rename_i hn
            cases h
            rw [hf, hn]
            exact ⟨rest, rfl⟩
          · cases h
  | extended =>
      cases rest with
      | nil => cases h
      | cons op' rest =>
          cases h
          rw [bytes_extendedInstruction, ← (hf : op = Opcode.extension)]
          exact ⟨rest, rfl⟩

/-- Bytes that decode start with the code of the instruction. -/
theorem bytes_prefix_of_decode? {bs : List UInt8} {i : Instruction} (h : decode? bs = some i) :
    i.bytes <+: bs := by
  cases bs with
  | nil => cases h
  | cons op rest => exact (codes_form op).prefix_of_complete? h

/-- Bytes that decode start with as many bytes of code as the first of them announces. -/
theorem take_of_decode? {op : UInt8} {rest : List UInt8} {i : Instruction}
    (h : decode? (op :: rest) = some i) :
    i.bytes = (op :: rest).take (instructionLength op) := by
  have hprefix := bytes_prefix_of_decode? h
  obtain ⟨ops, hops, -⟩ := i.exists_bytes_eq
  have hfirst : i.opcode.firstByte = op := by
    rw [hops] at hprefix
    exact (List.cons_prefix_cons.1 hprefix).1
  rw [← hfirst, ← i.length_bytes, hfirst]
  exact List.prefix_iff_eq_take.1 hprefix

/-- STOP is the only instruction that asks for a certain byte behind its opcode. -/
theorem eq_stop_of_form {op : UInt8} {i : Instruction} (h : form op = .zero i) : op = 0x10 := by
  have hlength : instructionLength op ≠ 0 := by
    rw [instructionLength_eq, h]
    exact Nat.succ_ne_zero 1
  obtain ⟨j, rfl⟩ := exists_firstByte_eq hlength
  rw [j.form_firstByte] at h
  cases j with
  | implied op => cases op <;> first | rfl | cases h
  | _ => cases h

theorem Form.complete?_eq_none_iff (f : Form) (rest : List UInt8) :
    f.complete? rest = none ↔ f.length = 0 ∨ rest.length + 1 < f.length ∨
      (∃ i, f = .zero i) ∧ ∃ n more, rest = n :: more ∧ n ≠ 0 := by
  cases f with
  | unused => simp [complete?, length]
  | alone i => simp [complete?, length]
  | byte make | offset make | extended => cases rest <;> simp [complete?, length]
  | word make =>
      cases rest with
      | nil => simp [complete?, length]
      | cons low rest => cases rest <;> simp [complete?, length]
  | zero i =>
      cases rest with
      | nil => simp [complete?, length]
      | cons n rest =>
          have hlong : ¬ rest.length + 1 + 1 < 2 := by omega
          simp [complete?, length, hlong]

/-- **The bytes that do not decode**: there is none, the first one starts no instruction, they end
before the instruction does, or they are STOP with a byte other than zero behind it. -/
theorem decode?_eq_none_iff (bs : List UInt8) :
    decode? bs = none ↔ bs = [] ∨ ∃ op rest, bs = op :: rest ∧
      (instructionLength op = 0 ∨ bs.length < instructionLength op ∨
        op = 0x10 ∧ ∃ n more, rest = n :: more ∧ n ≠ 0) := by
  cases bs with
  | nil => simp [decode?]
  | cons op rest =>
      have hstop : (∃ i, form op = .zero i) ↔ op = 0x10 := by
        constructor
        · rintro ⟨i, hi⟩
          exact eq_stop_of_form hi
        · rintro rfl
          exact ⟨.implied .stop, rfl⟩
      rw [decode?, Form.complete?_eq_none_iff, hstop, ← instructionLength_eq]
      constructor
      · intro h
        exact Or.inr ⟨op, rest, rfl, h⟩
      · rintro (h | ⟨_, _, h, hnone⟩)
        · cases h
        · cases h
          exact hnone

/-! ### Both ways -/

/-- **Decoding and encoding are inverse.**  The code of an instruction reads back as the canonical
instruction, whatever follows, and the canonical instruction has the same code, as long as its first
byte announces.  Bytes that decode start with the code of the instruction, again as long as the
first byte announces.  And it is known which bytes do not decode. -/
theorem decode?_inverse :
    (∀ (i : Instruction) (rest : List UInt8), decode? (i.bytes ++ rest) = some i.canonical ∧
      i.canonical.bytes = i.bytes ∧
      ∃ op ops, i.bytes = op :: ops ∧ i.bytes.length = instructionLength op) ∧
    (∀ (bs : List UInt8) (i : Instruction), decode? bs = some i →
      ∃ op rest, bs = op :: rest ∧ i.bytes = bs.take (instructionLength op) ∧
        instructionLength op ≤ bs.length) ∧
    ∀ bs : List UInt8, decode? bs = none ↔ bs = [] ∨ ∃ op rest, bs = op :: rest ∧
      (instructionLength op = 0 ∨ bs.length < instructionLength op ∨
        op = 0x10 ∧ ∃ n more, rest = n :: more ∧ n ≠ 0) := by
  refine ⟨?_, ?_, decode?_eq_none_iff⟩
  · intro i rest
    obtain ⟨ops, hops, -⟩ := i.exists_bytes_eq
    exact ⟨i.decode?_bytes_append rest, i.bytes_canonical, _, ops, hops, i.length_bytes⟩
  · intro bs i h
    cases bs with
    | nil => cases h
    | cons op rest =>
        refine ⟨op, rest, rfl, take_of_decode? h, Nat.le_of_not_lt ?_⟩
        -- too few bytes do not decode at all
        intro hshort
        have hnone : decode? (op :: rest) = none :=
          (decode?_eq_none_iff _).2 (Or.inr ⟨op, rest, rfl, Or.inr (Or.inl hshort)⟩)
        rw [h] at hnone
        cases hnone

/-- An index and a vector with bits outside of their fields, the load that is HALT, and bytes with
more behind the instruction or none. -/
theorem decode?_inverse_fields :
    decode? ((Instruction.bit .set 0xFF .atHL).bytes ++ [0x10]) = some (.bit .set 7 .atHL) ∧
      (Instruction.bit .set 7 .atHL).bytes = (Instruction.bit .set 0xFF .atHL).bytes ∧
      decode? (Instruction.restart 0xFF).bytes = some (.restart 0x38) ∧
      decode? (Instruction.load .atHL .atHL).bytes = some (.implied .halt) ∧
      decode? [0xC3, 0x34, 0x12, 0x99] = some (.jump none 0x1234) ∧
      (Instruction.jump none 0x1234).bytes = [0xC3, 0x34, 0x12, 0x99].take (instructionLength 0xC3) ∧
      decode? [0xC3, 0x34] = none ∧ decode? [0x10, 0x01] = none := by
  obtain ⟨hbytes, hdecode, hnone⟩ := decode?_inverse
  have hjump : decode? [0xC3, 0x34, 0x12, 0x99] = some (.jump none 0x1234) := by decide
  refine ⟨(hbytes (.bit .set 0xFF .atHL) [0x10]).1, (hbytes (.bit .set 0xFF .atHL) []).2.1,
    (hbytes (.restart 0xFF) []).1, (hbytes (.load .atHL .atHL) []).1, hjump, ?_, ?_, ?_⟩
  · obtain ⟨op, rest, hop, htake, -⟩ := hdecode _ _ hjump
    cases hop
    exact htake
  · exact (hnone _).2 (Or.inr ⟨0xC3, [0x34], rfl, Or.inr (Or.inl (by decide))⟩)
  · exact (hnone _).2
      (Or.inr ⟨0x10, [0x01], rfl, Or.inr (Or.inr ⟨rfl, 0x01, [], rfl, by decide⟩)⟩)

end GameBoyAssembler
