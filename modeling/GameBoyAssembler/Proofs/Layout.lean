import GameBoyAssembler.Proofs.Selection
import Mathlib.Data.List.Forall2

/-!
# What a statement does to a layout

A statement can bind symbols, open a scope and place one instruction.  Placing is the only part that
touches the instructions and the address, and it keeps the instructions one behind the other.

Main definitions:

* `Layout.Move` — how the instructions and the address of a layout change in one statement;
* `Consecutive` — items that stand one behind the other from one address to another;
* `Pending.length` — the number of bytes that the layout counts for an instruction;
* `Layout.IsPlaced` — the instructions of a layout fill the addresses from a base up to the current
  one, inside the address space.

Main results:

* `Layout.move_add` — every statement, right or wrong, makes such a move;
* `Layout.isPlaced_keepGoing` — the instructions of every source are placed;
* `Layout.untilError_eq_ok_iff` — reading up to the first error succeeds exactly where reading all
  lines finds no error, with the same layout.
-/

set_option relaxedAutoImplicit false
set_option autoImplicit false

namespace GameBoyAssembler

namespace Layout

/-! ### The effect of one statement -/

/-- What one statement does to the instructions and the address: nothing, or it places one
instruction that fits in the address space. -/
inductive Move (l l' : Layout) : Prop
  | stay (hpending : l'.pending = l.pending) (haddress : l'.address = l.address)
  | place (p : Pending) (i : Instruction) (hbuild : p.build none = .ok i)
      (hp : p.address = UInt16.ofNat l.address)
      (hfits : l.address + i.bytes.length ≤ addressSpace)
      (hpending : l'.pending = l.pending.push p)
      (haddress : l'.address = l.address + i.bytes.length)

theorem Move.refl (l : Layout) : Move l l := .stay rfl rfl

/-- A move is not changed by what happens to symbols and scope before it. -/
theorem Move.of_stay {l l₁ l' : Layout} (hpending : l₁.pending = l.pending)
    (haddress : l₁.address = l.address) (h : Move l₁ l') : Move l l' := by
  cases h with
  | stay h₁ h₂ => exact .stay (h₁.trans hpending) (h₂.trans haddress)
  | place p i hbuild hp hfits h₁ h₂ =>
      rw [haddress] at hp hfits h₂
      rw [hpending] at h₁
      exact .place p i hbuild hp hfits h₁ h₂

/-- After an error nothing more is done, so that what holds before and behind the last step holds in
the end. -/
theorem Step.andThen_keeps {P : Layout → Prop} {s : Step} (hs : P s.1) {f : Layout → Step}
    (hf : P (f s.1).1) : P (s.andThen f).1 := by
  obtain ⟨l, e⟩ := s
  cases e with
  | none => exact hf
  | some e => exact hs

variable (l : Layout)

theorem bind_frame (key : String) (symbol : Symbol) :
    (l.bind key symbol).1.pending = l.pending ∧ (l.bind key symbol).1.address = l.address := by
  unfold bind
  split <;> exact ⟨rfl, rfl⟩

theorem bindLabel_frame (t : Token) :
    (l.bindLabel t).1.pending = l.pending ∧ (l.bindLabel t).1.address = l.address := by
  unfold bindLabel
  split
  · exact l.bind_frame _ _
  · exact ⟨rfl, rfl⟩

theorem defineLabel_frame (t : Token) :
    (l.defineLabel t).1.pending = l.pending ∧ (l.defineLabel t).1.address = l.address := by
  unfold defineLabel
  split
  · dsimp only
    split
    · exact ⟨rfl, rfl⟩
    · exact bindLabel_frame { l with scope := some (withoutColons t.text) } t
  · exact l.bindLabel_frame t

theorem defineConstant_frame (name : Token) (value : ConstantValue) :
    (l.defineConstant name value).1.pending = l.pending ∧
      (l.defineConstant name value).1.address = l.address := by
  cases value with
  | number v => exact l.bind_frame _ _
  | symbol t =>
      unfold defineConstant
      dsimp only
      split
      · exact l.bind_frame _ _
      · exact ⟨rfl, rfl⟩

theorem move_place (mnemonic : Mnemonic) (name : Token) (operands : List Token) :
    Move l (l.place mnemonic name operands).1 := by
  unfold place
  dsimp only
  split
  · exact .refl l
  · rename_i i hbuild
    split
    · exact .refl l
    · rename_i hfits
      rw [← i.length_bytes] at hfits ⊢
      exact .place _ i hbuild rfl (Nat.le_of_not_lt hfits) rfl rfl

theorem move_addBody (body : Body) : Move l (l.addBody body).1 := by
  cases body with
  | empty => exact .refl l
  | constant name value trailing =>
      obtain ⟨hpending, haddress⟩ := l.defineConstant_frame name value
      exact Step.andThen_keeps (P := Move l) (.stay hpending haddress) (.stay hpending haddress)
  | instruction mnemonic name operands => exact l.move_place mnemonic name operands

/-- A label moves nothing, and an error of the label is the end of the statement. -/
theorem move_defineLabel_andThen (t : Token) {f : Layout → Step} (hf : ∀ l, Move l (f l).1) :
    Move l ((l.defineLabel t).andThen f).1 := by
  obtain ⟨hpending, haddress⟩ := l.defineLabel_frame t
  exact Step.andThen_keeps (P := Move l) (.stay hpending haddress)
    (.of_stay hpending haddress (hf _))

/-- **Every statement, right or wrong, makes one move.** -/
theorem move_add (s : Statement) : Move l (l.add s).1 := by
  obtain ⟨label, body⟩ := s
  cases body with
  | error e =>
      cases label with
      | none => exact .refl l
      | some t => exact l.move_defineLabel_andThen t fun l => .refl l
  | ok body =>
      cases label with
      | none => exact l.move_addBody body
      | some t => exact l.move_defineLabel_andThen t fun l => l.move_addBody body

/-! ### All lines -/

/-- What every statement keeps is kept by all lines of a source, errors or not. -/
theorem keepGoing_induction {P : Layout → Prop} (hadd : ∀ l s, P l → P (l.add s).1)
    {l : Layout} (hl : P l) (lines : List Line) : P (l.keepGoing lines).1 := by
  induction lines generalizing l with
  | nil => exact hl
  | cons line lines ih => exact ih (hadd l line.statement hl)

/-- Reading up to the first error succeeds exactly where reading all lines finds no error. -/
theorem untilError_eq_ok_iff {l l' : Layout} {lines : List Line} :
    l.untilError lines = .ok l' ↔ l.keepGoing lines = (l', []) := by
  induction lines generalizing l with
  | nil => simp [untilError, keepGoing]
  | cons line lines ih =>
      rw [untilError, keepGoing]
      cases h : l.add line.statement with
      | mk l₁ e =>
          cases e with
          | none => simp [ih, Prod.ext_iff]
          | some e => simp

end Layout

/-! ### One behind the other -/

section Consecutive

variable {α β : Type} {start size : α → Nat} {start' size' : β → Nat}

/-- The items fill the addresses from `pos` to `stop`, one behind the other. -/
def Consecutive (start size : α → Nat) : Nat → List α → Nat → Prop
  | pos, [], stop => pos = stop
  | pos, a :: as, stop => start a = pos ∧ Consecutive start size (pos + size a) as stop

namespace Consecutive

theorem append {pos mid stop : Nat} {as bs : List α} (h : Consecutive start size pos as mid)
    (h' : Consecutive start size mid bs stop) : Consecutive start size pos (as ++ bs) stop := by
  induction as generalizing pos with
  | nil =>
      obtain rfl : pos = mid := h
      exact h'
  | cons a as ih => exact ⟨h.1, ih h.2⟩

/-- An item put at the end starts where the others stop. -/
theorem snoc {pos stop : Nat} {as : List α} {a : α} (h : Consecutive start size pos as stop)
    (ha : start a = stop) : Consecutive start size pos (as ++ [a]) (stop + size a) :=
  h.append ⟨ha, rfl⟩

section Code

variable {code : α → List β}

theorem stop_eq {pos stop : Nat} {as : List α}
    (h : Consecutive start (fun a => (code a).length) pos as stop) :
    stop = pos + (as.flatMap code).length := by
  induction as generalizing pos with
  | nil => exact h.symm
  | cons a as ih =>
      rw [ih h.2, List.flatMap_cons, List.length_append]
      exact Nat.add_assoc ..

/-- The address of an item is the length of all the code before it. -/
theorem start_eq {pos stop k : Nat} {as : List α} {a : α}
    (h : Consecutive start (fun a => (code a).length) pos as stop) (ha : as[k]? = some a) :
    start a = pos + ((as.take k).flatMap code).length := by
  induction as generalizing pos k with
  | nil => simp at ha
  | cons b as ih =>
      cases k with
      | zero =>
          obtain rfl : b = a := by simpa using ha
          simpa using h.1
      | succ k =>
          rw [ih h.2 (by simpa using ha), List.take_succ_cons, List.flatMap_cons,
            List.length_append]
          exact Nat.add_assoc ..

end Code

theorem start_succ {pos stop k : Nat} {as : List α} {a b : α}
    (h : Consecutive start size pos as stop) (ha : as[k]? = some a) (hb : as[k + 1]? = some b) :
    start b = start a + size a := by
  induction as generalizing pos k with
  | nil => simp at ha
  | cons c as ih =>
      cases k with
      | zero =>
          obtain rfl : c = a := by simpa using ha
          cases as with
          | nil => simp at hb
          | cons d as =>
              obtain rfl : d = b := by simpa using hb
              rw [h.2.1, h.1]
      | succ k => exact ih h.2 (by simpa using ha) (by simpa using hb)

/-- Items with the same addresses and sizes stand in the same way. -/
theorem congr {pos stop : Nat} {as : List α} {bs : List β}
    (h : Consecutive start size pos as stop)
    (hab : List.Forall₂ (fun a b => start' b = start a ∧ size' b = size a) as bs) :
    Consecutive start' size' pos bs stop := by
  induction hab generalizing pos with
  | nil => exact h
  | cons hab _ ih =>
      refine ⟨hab.1.trans h.1, ?_⟩
      rw [hab.2]
      exact ih h.2

end Consecutive

end Consecutive

/-! ### The instructions of a layout -/

/-- The number of bytes that the layout counts for an instruction. -/
def Pending.length (p : Pending) : Nat :=
  match p.build none with
  | .ok i => i.bytes.length
  | .error _ => 0

theorem Pending.length_eq {p : Pending} {i : Instruction} (h : p.build none = .ok i) :
    p.length = i.bytes.length := by
  rw [Pending.length, h]

namespace Layout

/-- The instructions fill the addresses from `base` to the current one, and none of them lies
outside of the address space. -/
structure IsPlaced (base : Nat) (l : Layout) : Prop where
  consecutive :
    Consecutive (fun p : Pending => p.address.toNat) Pending.length base l.pending.toList l.address
  address_le : l.address ≤ addressSpace

theorem isPlaced_start (base : UInt16) : (start base).IsPlaced base.toNat :=
  ⟨rfl, Nat.le_of_lt base.toNat_lt⟩

/-- An instruction has a byte at least, so that its own address is inside the address space. -/
theorem toNat_address_of_fits {l : Layout} {p : Pending} {i : Instruction}
    (hp : p.address = UInt16.ofNat l.address) (hfits : l.address + i.bytes.length ≤ addressSpace) :
    p.address.toNat = l.address := by
  have hlt : l.address < addressSpace := by
    have := i.length_bytes_pos
    omega
  rw [hp, UInt16.toNat_ofNat_of_lt' hlt]

theorem IsPlaced.of_move {base : Nat} {l l' : Layout} (h : l.IsPlaced base) (hmove : Move l l') :
    l'.IsPlaced base := by
  cases hmove with
  | stay hpending haddress =>
      refine ⟨?_, ?_⟩
      · rw [hpending, haddress]
        exact h.consecutive
      · rw [haddress]
        exact h.address_le
  | place p i hbuild hp hfits hpending haddress =>
      refine ⟨?_, ?_⟩
      · rw [hpending, haddress, Array.toList_push, ← Pending.length_eq hbuild]
        exact h.consecutive.snoc (toNat_address_of_fits hp hfits)
      · rw [haddress]
        exact hfits

/-- **The instructions of every source are placed one behind the other.** -/
theorem isPlaced_keepGoing (base : UInt16) (lines : List Line) :
    ((start base).keepGoing lines).1.IsPlaced base.toNat :=
  keepGoing_induction (fun l s h => h.of_move (l.move_add s)) (isPlaced_start base) lines

end Layout

end GameBoyAssembler
