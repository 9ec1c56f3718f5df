import GameBoyAssembler.Proofs.Addresses

/-!
# Disassembly undoes assembly

Machine code is read one instruction after the other, and every instruction tells by its first byte
where the next one starts.  A program is made of canonical instructions, so reading its image never
gets out of step: it finds the instructions of the program and nothing else, and lists them at the
addresses that the program gives them.

Main definitions:

* `decodeAll?` — the instructions of a byte sequence that holds nothing else.

Main results:

* `Program.isCanonical_of_assemble` — every instruction of a program is canonical;
* `decodeAll?_flatMap_bytes`, `chunks_bytes_append` — reading the code of instructions that follow
  one another;
* `Program.disassemble_image` — **the disassembly of the image is the listing**.
-/

set_option relaxedAutoImplicit false
set_option autoImplicit false

namespace GameBoyAssembler

/-! ### Reading one instruction after the other -/

/-- The instructions of a byte sequence: one is read at the start, and the next one stands behind as
many bytes as the first byte announces.  There are none if some byte starts no instruction or the
last instruction is cut off. -/
def decodeAll? : List UInt8 → Option (List Instruction)
  | [] => some []
  | op :: rest =>
      match decode? (op :: rest), decodeAll? (rest.drop (instructionLength op - 1)) with
      | some i, some is => some (i :: is)
      | _, _ => none
termination_by bytes => bytes.length

theorem decodeAll?_bytes_append (i : Instruction) (rest : List UInt8) :
    decodeAll? (i.bytes ++ rest) = (decodeAll? rest).map (i.canonical :: ·) := by
  have hdecode := i.decode?_bytes_append rest
  obtain ⟨ops, hbytes, hlength⟩ := i.exists_bytes_eq
  rw [hbytes, List.cons_append] at hdecode ⊢
  rw [decodeAll?, hdecode, hlength, List.drop_left]
  cases decodeAll? rest <;> rfl

/-- The code of instructions that follow one another reads back as the canonical ones. -/
theorem decodeAll?_flatMap_bytes (is : List Instruction) :
    decodeAll? (is.flatMap Instruction.bytes) = some (is.map Instruction.canonical) := by
  induction is with
  | nil => rw [List.flatMap_nil, decodeAll?]; rfl
  | cons i is ih =>
      rw [List.flatMap_cons, decodeAll?_bytes_append, ih]
      rfl

/-- The first piece of machine code that starts with an instruction is this instruction. -/
theorem chunks_bytes_append (pos : Nat) (i : Instruction) (rest : List UInt8) :
    chunks pos (i.bytes ++ rest)
      = (pos, .code i.canonical) :: chunks (pos + i.bytes.length) rest := by
  have hdecode := i.decode?_bytes_append rest
  obtain ⟨ops, hbytes, hlength⟩ := i.exists_bytes_eq
  rw [hbytes, List.cons_append] at hdecode ⊢
  have hpos : pos + 1 + ops.length = pos + (i.opcode.firstByte :: ops).length := by
    rw [List.length_cons]
    omega
  rw [chunks, hdecode]
  dsimp only
  rw [hlength, List.drop_left, hpos]

/-! ### Programs -/

namespace Program

theorem isCanonical_of_assemble {source : String} {base : UInt16} {p : Program}
    (h : assemble source base = .ok p) : ∀ a ∈ p.instructions, a.instruction.IsCanonical := by
  obtain ⟨l, -, hresolve, -⟩ := assemble_eq_ok_iff.1 h
  generalize l.pending.toList = qs, p.instructions = as at hresolve ⊢
  induction hresolve with
  | nil => simp
  | @cons q a qs as hq _ ih =>
      intro b hb
      rcases List.mem_cons.1 hb with rfl | hb
      · exact q.build_canonical (Pending.resolve_eq_ok hq).1
      · exact ih b hb

/-- The address of an instruction, counted from the base as the disassembly counts. -/
theorem address_eq_add {base address : UInt16} {pos : Nat}
    (h : address.toNat = base.toNat + pos) : address = base + UInt16.ofNat pos := by
  have hlt := address.toNat_lt
  apply UInt16.toNat_inj.1
  rw [UInt16.toNat_add, UInt16.toNat_ofNat', h]
  omega

/-- Canonical instructions that stand one behind the other are listed where they stand. -/
theorem map_line_chunks {base : UInt16} {as : List Assembled}
    (hcanonical : ∀ a ∈ as, a.instruction.IsCanonical) {pos stop : Nat}
    (h : Consecutive (fun a : Assembled => a.address.toNat)
      (fun a => a.instruction.bytes.length) (base.toNat + pos) as stop) :
    (chunks pos (as.flatMap fun a => a.instruction.bytes)).map
        (fun q => q.2.line (base + UInt16.ofNat q.1))
      = as.map fun a => listingLine a.address a.instruction := by
  induction as generalizing pos with
  | nil => rw [List.flatMap_nil, chunks]; rfl
  | cons a as ih =>
      obtain ⟨ha, has⟩ := h
      rw [Nat.add_assoc] at has
      have hi : a.instruction.canonical = a.instruction := hcanonical a List.mem_cons_self
      have htail := ih (fun b hb => hcanonical b (List.mem_cons_of_mem a hb)) has
      rw [List.flatMap_cons, chunks_bytes_append, List.map_cons, List.map_cons, htail, hi,
        address_eq_add ha]
      rfl

/-- **Disassembly undoes assembly.**  Reading the image of a program one instruction after the other
gives the instructions of the program and uses the image up, and the disassembly of the image is the
listing of the program. -/
theorem disassemble_image {source : String} {base : UInt16} {p : Program}
    (h : assemble source base = .ok p) :
    decodeAll? p.image = some (p.instructions.map Assembled.instruction) ∧
      disassemble p.image base = p.listing := by
  have hcanonical := isCanonical_of_assemble h
  constructor
  · have himage : p.image
        = (p.instructions.map Assembled.instruction).flatMap Instruction.bytes := by
      rw [image, List.flatMap_map]
    rw [himage, decodeAll?_flatMap_bytes, List.map_map]
    exact congrArg some (List.map_congr_left hcanonical)
  · obtain ⟨stop, -, hcons⟩ := consecutive_of_assemble h
    rw [disassemble, listing, image, map_line_chunks hcanonical hcons]

/-- A loop whose last byte is the last of the address space. -/
theorem disassemble_image_loop :
    ∃ p, assemble "MAIN: BIT 7, (HL)\n.wait: JR Z, .wait\nJP MAIN" 0xFFF9 = .ok p ∧
      p.image = [0xCB, 0x7E, 0x28, 0xFE, 0xC3, 0xF9, 0xFF] ∧
      decodeAll? p.image = some (p.instructions.map Assembled.instruction) ∧
      disassemble p.image 0xFFF9 = p.listing := by
  have himage : (assemble "MAIN: BIT 7, (HL)\n.wait: JR Z, .wait\nJP MAIN" 0xFFF9).toOption.map
      image = some [0xCB, 0x7E, 0x28, 0xFE, 0xC3, 0xF9, 0xFF] := by decide +kernel
  cases h : assemble "MAIN: BIT 7, (HL)\n.wait: JR Z, .wait\nJP MAIN" 0xFFF9 with
  | error e => rw [h] at himage; cases himage
  | ok p =>
      rw [h] at himage
      exact ⟨p, rfl, Option.some.inj himage, disassemble_image h⟩

end Program

end GameBoyAssembler
