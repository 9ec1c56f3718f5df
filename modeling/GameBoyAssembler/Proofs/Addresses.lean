import GameBoyAssembler.Program
import GameBoyAssembler.Proofs.Layout

/-!
# The addresses of a program

The layout gives every instruction its address before any symbol is known.  The machine code is made
later, from the resolved instructions.  This module ties the two together: in a program that was
assembled, the address of every instruction is the place of its bytes in the image, counted from the
base, and the image ends inside the address space.

Main results:

* `assemble_eq_ok_iff` — how a program comes out of a layout;
* `assemble_of_assembleAll` — a program that comes out with all errors collected comes out up to the
  first error too;
* `Program.consecutive_of_assemble` — the instructions of a program stand one behind the other;
* `Program.addresses_are_offsets` — **every address is the offset of its bytes in the image**.
-/

set_option relaxedAutoImplicit false
set_option autoImplicit false

namespace GameBoyAssembler

/-! ### From a layout to a program -/

section Outcomes

variable {ε α β : Type} {f : α → Except ε β}

theorem bind_eq_ok_iff {x : Except ε α} {b : β} :
    (x >>= f) = .ok b ↔ ∃ a, x = .ok a ∧ f a = .ok b := by
  constructor
  · intro h
    cases x with
    | error e => cases h
    | ok a => exact ⟨a, rfl, h⟩
  · rintro ⟨a, rfl, h⟩
    exact h

/-- A list of steps succeeds if every step does. -/
theorem mapM_eq_ok_iff {as : List α} {bs : List β} :
    as.mapM f = .ok bs ↔ List.Forall₂ (fun a b => f a = .ok b) as bs := by
  induction as generalizing bs with
  | nil =>
      rw [List.mapM_nil, List.forall₂_nil_left_iff]
      exact ⟨fun h => by cases h; rfl, fun h => by rw [h]; rfl⟩
  | cons a as ih =>
      rw [List.mapM_cons, bind_eq_ok_iff, List.forall₂_cons_left_iff]
      constructor
      · rintro ⟨b, hb, h⟩
        obtain ⟨bs', hbs, h⟩ := bind_eq_ok_iff.1 h
        cases h
        exact ⟨b, bs', hb, ih.1 hbs, rfl⟩
      · rintro ⟨b, bs', hb, hbs, rfl⟩
        exact ⟨b, hb, bind_eq_ok_iff.2 ⟨bs', ih.2 hbs, rfl⟩⟩

/-- Where no step has an error, the results are those of all steps. -/
theorem mapM_eq_ok_of_errorOf? {f : α → Except Error β} {as : List α}
    (h : (as.map f).filterMap errorOf? = []) :
    as.mapM f = .ok ((as.map f).filterMap Except.toOption) := by
  rw [mapM_eq_ok_iff]
  induction as with
  | nil => exact .nil
  | cons a as ih =>
      cases ha : f a with
      | error e => simp [ha, errorOf?] at h
      | ok b =>
          have has : (as.map f).filterMap errorOf? = [] := by simpa [ha, errorOf?] using h
          simpa [ha, Except.toOption] using ih has

end Outcomes

/-- A program is a layout without errors, with all its instructions resolved. -/
theorem assemble_eq_ok_iff {source : String} {base : UInt16} {p : Program} :
    assemble source base = .ok p ↔
      ∃ l : Layout, (Layout.start base).keepGoing (Line.ofSource source) = (l, []) ∧
        List.Forall₂ (fun q a => q.resolve l.symbols = .ok a) l.pending.toList p.instructions ∧
        p.symbols = l.symbols := by
  unfold assemble
  rw [bind_eq_ok_iff]
  constructor
  · rintro ⟨l, hl, h⟩
    obtain ⟨as, has, h⟩ := bind_eq_ok_iff.1 h
    cases h
    exact ⟨l, Layout.untilError_eq_ok_iff.1 hl, mapM_eq_ok_iff.1 has, rfl⟩
  · rintro ⟨l, hl, has, hsymbols⟩
    refine ⟨l, Layout.untilError_eq_ok_iff.2 hl, bind_eq_ok_iff.2 ⟨_, mapM_eq_ok_iff.2 has, ?_⟩⟩
    rw [← hsymbols]
    rfl

/-- A program that comes out with all errors collected comes out up to the first error too. -/
theorem assemble_of_assembleAll {source : String} {base : UInt16} {p : Program}
    (h : assembleAll source base = .ok p) : assemble source base = .ok p := by
  unfold assembleAll at h
  cases hk : (Layout.start base).keepGoing (Line.ofSource source) with
  | mk l errors =>
      simp only [hk] at h
      split at h
      · rename_i hempty
        cases h
        obtain ⟨herrors, hresolve⟩ := List.append_eq_nil_iff.1 (List.isEmpty_iff.1 hempty)
        rw [herrors] at hk
        exact assemble_eq_ok_iff.2 ⟨l, hk, mapM_eq_ok_iff.1 (mapM_eq_ok_of_errorOf? hresolve), rfl⟩
      · cases h

/-! ### Addresses and bytes -/

theorem Pending.resolve_eq_ok {q : Pending} {t : SymbolTable} {a : Assembled}
    (h : q.resolve t = .ok a) : q.build (some t) = .ok a.instruction ∧ a.address = q.address := by
  unfold Pending.resolve at h
  cases hb : q.build (some t) with
  | error e => rw [hb] at h; cases h
  | ok i => rw [hb] at h; cases h; exact ⟨rfl, rfl⟩

/-- The layout counts with the length that an instruction has in the end. -/
theorem Pending.length_of_resolve {q : Pending} {t : SymbolTable} {a : Assembled}
    (h : q.resolve t = .ok a) : q.length = a.instruction.bytes.length := by
  obtain ⟨hbuild, -⟩ := Pending.resolve_eq_ok h
  obtain ⟨j, hj, -⟩ := q.exists_build_none t hbuild
  rw [Pending.length_eq hj]
  exact (q.length_build t hj hbuild).symm

/-- Resolved instructions stand where the layout has put them. -/
theorem Layout.IsPlaced.consecutive_resolved {base : Nat} {l : Layout} (h : l.IsPlaced base)
    {t : SymbolTable} {as : List Assembled}
    (has : List.Forall₂ (fun q a => q.resolve t = .ok a) l.pending.toList as) :
    Consecutive (fun a : Assembled => a.address.toNat) (fun a => a.instruction.bytes.length) base as
      l.address := by
  refine h.consecutive.congr (has.imp fun q a hqa => ?_)
  rw [(Pending.resolve_eq_ok hqa).2]
  exact ⟨rfl, (Pending.length_of_resolve hqa).symm⟩

namespace Program

/-- The instructions of a program stand one behind the other from its base on, and end inside the
address space. -/
theorem consecutive_of_assemble {source : String} {base : UInt16} {p : Program}
    (h : assemble source base = .ok p) :
    ∃ stop ≤ addressSpace, Consecutive (fun a : Assembled => a.address.toNat)
      (fun a => a.instruction.bytes.length) base.toNat p.instructions stop := by
  obtain ⟨l, hl, hresolve, -⟩ := assemble_eq_ok_iff.1 h
  have hplaced := Layout.isPlaced_keepGoing base (Line.ofSource source)
  rw [hl] at hplaced
  exact ⟨l.address, hplaced.address_le, hplaced.consecutive_resolved hresolve⟩

/-- The bytes of an instruction stand in the image behind those of the instructions before it. -/
theorem bytes_prefix_drop_image (p : Program) {k : Nat} {a : Assembled}
    (h : p.instructions[k]? = some a) :
    a.instruction.bytes <+: p.image.drop
      ((p.instructions.take k).flatMap fun a => a.instruction.bytes).length := by
  obtain ⟨hk, rfl⟩ := List.getElem?_eq_some_iff.1 h
  have hsplit : p.instructions.take k ++ p.instructions[k] :: p.instructions.drop (k + 1)
      = p.instructions := by
    rw [List.getElem_cons_drop, List.take_append_drop]
  have himage := congrArg (List.flatMap fun a : Assembled => a.instruction.bytes) hsplit
  rw [List.flatMap_append, List.flatMap_cons] at himage
  rw [image, ← himage, List.drop_left]
  exact List.prefix_append _ _

/-- **Every address is the offset of its bytes in the image.**  The first instruction is at the
base, each later one right behind the bytes of the one before, all of them inside the address space,
and so the bytes of an instruction are found in the image at its address less the base. -/
theorem addresses_are_offsets {source : String} {base : UInt16} {p : Program}
    (h : assemble source base = .ok p ∨ assembleAll source base = .ok p) :
    (∀ a, p.instructions.head? = some a → a.address = base) ∧
    (∀ k a b, p.instructions[k]? = some a → p.instructions[k + 1]? = some b →
      b.address.toNat = a.address.toNat + a.instruction.bytes.length) ∧
    base.toNat + p.image.length ≤ 0x10000 ∧
    ∀ k a, p.instructions[k]? = some a →
      a.address.toNat = base.toNat
        + ((p.instructions.take k).flatMap fun a => a.instruction.bytes).length ∧
      a.instruction.bytes <+: p.image.drop (a.address.toNat - base.toNat) := by
  have hok : assemble source base = .ok p := h.elim id assemble_of_assembleAll
  obtain ⟨stop, hstop, hcons⟩ := consecutive_of_assemble hok
  have haddress (k : Nat) (a : Assembled) (ha : p.instructions[k]? = some a) :
      a.address.toNat = base.toNat
        + ((p.instructions.take k).flatMap fun a => a.instruction.bytes).length :=
    hcons.start_eq ha
  refine ⟨?_, ?_, ?_, ?_⟩
  · intro a ha
    rw [List.head?_eq_getElem?] at ha
    exact UInt16.toNat_inj.1 (by simpa using haddress 0 a ha)
  · intro k a b ha hb
    exact hcons.start_succ ha hb
  · rw [image, ← hcons.stop_eq]
    exact hstop
  · intro k a ha
    refine ⟨haddress k a ha, ?_⟩
    rw [haddress k a ha, Nat.add_sub_cancel_left]
    exact p.bytes_prefix_drop_image ha

/-- A program that fills the address space to its last byte, with a label behind it. -/
theorem addresses_are_offsets_full :
    ∃ p, assemble "JR NZ, END\nLD A, (PORT)\nEND:\nPORT EQU 0xFF00" 0xFFFB = .ok p ∧
      p.image.length = 5 ∧ (0xFFFB : UInt16).toNat + p.image.length ≤ 0x10000 ∧
      ∀ a b, p.instructions[0]? = some a → p.instructions[1]? = some b →
        b.address.toNat = a.address.toNat + a.instruction.bytes.length := by
  have hlength : (assemble "JR NZ, END\nLD A, (PORT)\nEND:\nPORT EQU 0xFF00" 0xFFFB).toOption.map
      (fun p => p.image.length) = some 5 := by decide +kernel
  cases h : assemble "JR NZ, END\nLD A, (PORT)\nEND:\nPORT EQU 0xFF00" 0xFFFB with
  | error e => rw [h] at hlength; cases hlength
  | ok p =>
      rw [h] at hlength
      obtain ⟨-, hnext, hstop, -⟩ := addresses_are_offsets (Or.inl h)
      exact ⟨p, rfl, Option.some.inj hlength, hstop, hnext 0⟩

end Program

end GameBoyAssembler
