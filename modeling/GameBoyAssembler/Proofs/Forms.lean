import GameBoyAssembler.Proofs.Branches
import GameBoyAssembler.Proofs.PrintedSelection

/-!
# The forms of operands

An operand in brackets is memory, SP with an offset is an offset from SP, and neither is a plain
number.  Most instructions look at the shape of an operand before they read its number, and accept
these two forms only where they have a place for them.  Six instructions read the number at once:
the addition to SP, the jump, the relative jump, the call, the restart and the bit operations.  There
a literal or a symbol counts in any form.

Main definitions:

* `Token.IsMemory`, `Token.IsPlain` — operands that are memory, and operands that are neither memory
  nor an offset from SP;
* `Instruction.Honours` — the instruction has a place for the form of an operand;
* `Instruction.readsAnyForm` — the six instructions that read a number in any form;
* `Token.StandsFor` — a plain operand in the place of another form.

Main results:

* `Context.honours_load`, `Context.honours_arithSource` and the like — the families that look at the
  shape first;
* `Context.quantity_standsFor` — the number of a plain operand is the number of what it stands for;
* `Pending.forms_honoured_or_plain` — **the forms of all operands are honoured, or the instruction
  would be the same with plain operands**;
* `Pending.forms_not_always_honoured` — an instruction with a form that is not honoured;
* `Pending.arith_with_or_without_A` — **arithmetic is the same with A written out and without it**.
-/

set_option relaxedAutoImplicit false
set_option autoImplicit false

namespace GameBoyAssembler

/-! ### Memory, offsets from SP, and the rest -/

/-- A shape that is neither memory nor an offset from SP. -/
def Shape.isPlain : Shape → Bool
  | memory | spOffset => false
  | _ => true

namespace Token

/-- A memory operand: an address, or a name in brackets that is not reserved. -/
def IsMemory (t : Token) : Prop :=
  t.kind = .address ∨
    t.kind = .identifier ∧ t.isBracketed = true ∧ isRegisterName t.text = false

instance (t : Token) : Decidable t.IsMemory :=
  inferInstanceAs (Decidable (_ ∨ _))

/-- An operand that is neither memory nor an offset from SP. -/
structure IsPlain (t : Token) : Prop where
  not_spShifted : t.kind ≠ .spShifted
  not_memory : ¬ t.IsMemory

theorem shape_of_isMemory {t : Token} (h : t.IsMemory) : t.shape = .ok .memory := by
  rcases h with hkind | ⟨hkind, hbracket, hname⟩
  · rw [shape, hkind]
  · rcases shape_of_isReference (Or.inr ⟨hkind, hname⟩) with hshape | hshape
    · -- in brackets no name has the shape of a number
      exfalso
      simp only [shape, hkind, hbracket, Shape.ofName] at hshape
      repeat' split at hshape
      all_goals cases hshape
      rename_i hfalse
      exact hfalse trivial
    · exact hshape

theorem isPlain_of_shape {t : Token} {shape : Shape} (h : t.shape = .ok shape)
    (hshape : shape.isPlain = true) : t.IsPlain where
  not_spShifted := by
    intro hkind
    rw [Token.shape, hkind] at h
    cases h
    cases hshape
  not_memory := by
    intro hmemory
    rw [shape_of_isMemory hmemory] at h
    cases h
    cases hshape

theorem isPlain_of_isComma {t : Token} (h : t.isComma = true) : t.IsPlain := by
  have hkind : t.kind = .comma := by simpa [isComma] using h
  constructor
  · simp [hkind]
  · simp [IsMemory, hkind]

/-- No name in brackets has the letters of a name without. -/
theorem isBracketed_of_sameLetters {t : Token} {name : String} {c : Char}
    (hname : name.toList.head? = some c) (hc : c.toUpper ≠ '(' ∧ c.toUpper ≠ '[')
    (h : sameLetters name t.text = true) : t.isBracketed = false := by
  have hhead : t.text.toList.head?.map Char.toUpper = some c.toUpper := by
    have hcapitals := congrArg List.head? (sameLetters_iff.1 h)
    simpa [capitals, hname] using hcapitals.symm
  obtain ⟨d, hd, hdc⟩ := Option.map_eq_some_iff.1 hhead
  have hround : d ≠ '(' := by
    rintro rfl
    exact hc.1 hdc.symm
  have hsquare : d ≠ '[' := by
    rintro rfl
    exact hc.2 hdc.symm
  simp [isBracketed, hd, hround, hsquare]

/-! ### What a reading says of its token -/

theorem expectA_eq_ok_iff {t : Token} : t.expectA = .ok () ↔ t.shape = .ok (.reg8 .a) := by
  constructor
  · intro h
    obtain ⟨shape, hshape, h⟩ := bind_eq_ok_iff.1 h
    split at h
    · exact hshape
    · cases h
  · intro h
    rw [expectA, h]
    rfl

theorem reg8_eq_ok_iff {t : Token} {r : Reg8} : t.reg8 = .ok r ↔ t.shape = .ok (.reg8 r) := by
  constructor
  · intro h
    obtain ⟨shape, hshape, h⟩ := bind_eq_ok_iff.1 h
    split at h
    · cases h
      exact hshape
    · cases h
  · intro h
    rw [reg8, h]
    rfl

theorem gives_reg8 (t : Token) : Gives t.reg8 fun _ => t.IsPlain := by
  intro r h
  exact isPlain_of_shape (reg8_eq_ok_iff.1 h) rfl

theorem gives_reg16 (t : Token) : Gives t.reg16 fun _ => t.IsPlain := by
  intro rr h
  obtain ⟨shape, hshape, h⟩ := bind_eq_ok_iff.1 h
  cases shape with
  | reg16 rr' => exact isPlain_of_shape hshape rfl
  | _ => cases h

theorem gives_expectA (t : Token) : Gives t.expectA fun _ => t.IsPlain := by
  intro _ h
  exact isPlain_of_shape (expectA_eq_ok_iff.1 h) rfl

theorem gives_condition (t : Token) : Gives t.condition fun _ => t.IsPlain := by
  intro cc h
  simp only [condition] at h
  split at h
  · rename_i cc' hnamed
    split at hnamed
    · rename_i hkind
      have hletters : sameLetters cc'.text t.text = true := by
        rw [Condition.ofName?] at hnamed
        simpa using List.find?_some hnamed
      have hbracket : t.isBracketed = false := by
        cases cc' <;> exact isBracketed_of_sameLetters rfl (by decide) hletters
      constructor
      · simp [hkind]
      · simp [IsMemory, hkind, hbracket]
    · cases hnamed
  · cases h

theorem gives_stackPair (t : Token) : Gives t.stackPair fun _ => t.IsPlain := by
  intro q h
  simp only [stackPair] at h
  split at h
  · rename_i q' hnamed
    split at hnamed
    · rename_i hkind
      have hname : isRegisterName t.text = true := by simp [isRegisterName, hnamed]
      constructor
      · simp [hkind]
      · simp [IsMemory, hkind, hname]
    · cases hnamed
  · obtain ⟨shape, -, h⟩ := bind_eq_ok_iff.1 h
    cases h

end Token

/-! ### Instructions and the forms they accept -/

namespace Instruction

/-- The instructions with a memory operand that is written out. -/
def hasMemory : Instruction → Bool
  | storeAt _ | loadAt _ | storeSPAt _ | storeHigh _ | loadHigh _ => true
  | _ => false

/-- The instruction with an offset from SP. -/
def hasSpOffset : Instruction → Bool
  | loadHLSP _ => true
  | _ => false

/-- The instructions that read the number of an operand without a look at its shape. -/
def readsAnyForm : Instruction → Bool
  | addSP _ | jump _ _ | jumpRel _ _ | call _ _ | restart _ | bit _ _ _ => true
  | _ => false

/-- The instruction has a place for the form of the operand. -/
structure Honours (i : Instruction) (t : Token) : Prop where
  spOffset : t.kind = .spShifted → i.hasSpOffset = true
  memory : t.IsMemory → i.hasMemory = true

/-- Every instruction has a place for plain operands. -/
theorem honours_of_isPlain (i : Instruction) {t : Token} (h : t.IsPlain) : i.Honours t :=
  ⟨fun hs => absurd hs h.not_spShifted, fun hm => absurd hm h.not_memory⟩

theorem honours_of_shape {i : Instruction} {t : Token} {shape : Shape} (h : t.shape = .ok shape)
    (hshape : shape.isPlain = true) : i.Honours t :=
  honours_of_isPlain i (Token.isPlain_of_shape h hshape)

theorem honours_of_memory {i : Instruction} {t : Token} (h : t.shape = .ok .memory)
    (hi : i.hasMemory = true) : i.Honours t := by
  refine ⟨fun hs => ?_, fun _ => hi⟩
  rw [Token.shape, hs] at h
  cases h

theorem honours_of_spOffset {i : Instruction} {t : Token} (h : t.shape = .ok .spOffset)
    (hi : i.hasSpOffset = true) : i.Honours t := by
  refine ⟨fun _ => hi, fun hm => ?_⟩
  rw [Token.shape_of_isMemory hm] at h
  cases h

end Instruction

/-- What is known of a result that there is. -/
theorem Gives.self {α : Type} (x : Except Error α) : Gives x fun a => x = .ok a :=
  fun _ h => h

namespace Context

open Instruction

variable (c : Context)

theorem honours_arithSource (op : Arith) (src : Token) :
    Gives (c.arithSource op src) fun i => i.Honours src := by
  refine (Gives.self src.shape).bind fun shape hshape => ?_
  cases shape with
  | reg8 r => exact Gives.pure (honours_of_shape hshape rfl)
  | immediate => exact Gives.bind_any fun _ => Gives.pure (honours_of_shape hshape rfl)
  | _ => exact Gives.throw _

/-- A load honours both operands: their shapes select it. -/
theorem honours_load (dst src : Token) :
    Gives (c.load dst src) fun i => i.Honours dst ∧ i.Honours src := by
  refine (Gives.self dst.shape).bind fun shape hdst => ?_
  refine (Gives.self src.shape).bind fun shape' hsrc => ?_
  have hA (t : Token) := t.gives_expectA
  split
  case h_1 | h_14 => exact Gives.throw _
  case h_2 | h_5 => exact Gives.pure ⟨honours_of_shape hdst rfl, honours_of_shape hsrc rfl⟩
  case h_3 | h_4 =>
    exact Gives.bind_any fun _ => Gives.pure ⟨honours_of_shape hdst rfl, honours_of_shape hsrc rfl⟩
  case h_6 =>
    exact Gives.bind_any fun _ => Gives.pure ⟨honours_of_shape hdst rfl, honours_of_spOffset hsrc rfl⟩
  case h_7 =>
    exact Gives.bind_any fun _ => Gives.pure ⟨honours_of_memory hdst rfl, honours_of_shape hsrc rfl⟩
  case h_8 | h_12 =>
    exact (hA src).bind fun _ h => Gives.pure ⟨honours_of_shape hdst rfl, honours_of_isPlain _ h⟩
  case h_9 | h_13 =>
    exact (hA dst).bind fun _ h => Gives.pure ⟨honours_of_isPlain _ h, honours_of_shape hsrc rfl⟩
  case h_10 =>
    exact (hA src).bind fun _ h => Gives.bind_any fun _ =>
      Gives.pure ⟨honours_of_memory hdst rfl, honours_of_isPlain _ h⟩
  case h_11 =>
    exact (hA dst).bind fun _ h => Gives.bind_any fun _ =>
      Gives.pure ⟨honours_of_isPlain _ h, honours_of_memory hsrc rfl⟩

theorem honours_loadHighPage (dst src : Token) :
    Gives (c.loadHighPage dst src) fun i => i.Honours dst ∧ i.Honours src := by
  refine (Gives.self dst.shape).bind fun shape hdst => ?_
  refine (Gives.self src.shape).bind fun shape' hsrc => ?_
  have hA (t : Token) := t.gives_expectA
  split
  · exact (hA src).bind fun _ h =>
      Gives.pure ⟨honours_of_shape hdst rfl, honours_of_isPlain _ h⟩
  · exact (hA dst).bind fun _ h =>
      Gives.pure ⟨honours_of_isPlain _ h, honours_of_shape hsrc rfl⟩
  · exact (hA src).bind fun _ h => Gives.bind_any fun _ =>
      Gives.pure ⟨honours_of_memory hdst rfl, honours_of_isPlain _ h⟩
  · exact (hA dst).bind fun _ h => Gives.bind_any fun _ =>
      Gives.pure ⟨honours_of_isPlain _ h, honours_of_memory hsrc rfl⟩
  · exact Gives.throw _

theorem honours_loadStep (p : Pointer) (dst src : Token) :
    Gives (loadStep p dst src) fun i => i.Honours dst ∧ i.Honours src := by
  refine (Gives.self dst.shape).bind fun shape hdst => ?_
  refine (Gives.self src.shape).bind fun shape' hsrc => ?_
  have hA (t : Token) := t.gives_expectA
  split
  · exact (hA src).bind fun _ h =>
      Gives.pure ⟨honours_of_shape hdst rfl, honours_of_isPlain _ h⟩
  · exact (hA dst).bind fun _ h =>
      Gives.pure ⟨honours_of_isPlain _ h, honours_of_shape hsrc rfl⟩
  · exact Gives.throw _

theorem honours_step (byte : Reg8 → Instruction) (pair : Reg16 → Instruction) (t : Token) :
    Gives (step byte pair t) fun i => i.Honours t := by
  refine (Gives.self t.shape).bind fun shape hshape => ?_
  cases shape with
  | reg8 r => exact Gives.pure (honours_of_shape hshape rfl)
  | reg16 rr => exact Gives.pure (honours_of_shape hshape rfl)
  | _ => exact Gives.throw _

end Context

/-! ### Operand lists -/

theorem eq_of_takeOne {last t : Token} {tokens rest : List Token}
    (h : takeOne last tokens = .ok (t, rest)) : tokens = t :: rest := by
  cases tokens with
  | nil => cases h
  | cons u us => cases h; rfl

theorem eq_of_takeTwo {last first second : Token} {tokens rest : List Token}
    (h : takeTwo last tokens = .ok (first, second, rest)) :
    ∃ comma, comma.isComma = true ∧ tokens = first :: comma :: second :: rest := by
  obtain ⟨⟨a, rest₁⟩, ha, h⟩ := bind_eq_ok_iff.1 h
  obtain ⟨⟨comma, rest₂⟩, hcomma, h⟩ := bind_eq_ok_iff.1 h
  dsimp only at h
  split at h
  · cases h
  · rename_i hc
    obtain ⟨⟨b, rest₃⟩, hb, h⟩ := bind_eq_ok_iff.1 h
    cases h
    refine ⟨comma, by simpa using hc, ?_⟩
    rw [eq_of_takeOne ha, eq_of_takeOne hcomma, eq_of_takeOne hb]

/-- A branch has a target alone, or a condition and a comma before it. -/
theorem eq_of_takeBranch {name target : Token} {tokens rest : List Token} {cc : Option Condition}
    (h : takeBranch name tokens = .ok (cc, target, rest)) :
    (cc = none ∧ tokens = target :: rest) ∨
      ∃ first comma cond, first.condition = .ok cond ∧ comma.isComma = true ∧ cc = some cond ∧
        tokens = first :: comma :: target :: rest := by
  unfold takeBranch at h
  split at h
  · rename_i first comma rest'
    split at h
    · rename_i hcomma
      obtain ⟨cond, hcond, h⟩ := bind_eq_ok_iff.1 h
      obtain ⟨⟨u, us⟩, hu, h⟩ := bind_eq_ok_iff.1 h
      cases h
      exact Or.inr ⟨first, comma, cond, hcond, hcomma, rfl, by rw [eq_of_takeOne hu]⟩
    · cases h
      exact Or.inl ⟨rfl, rfl⟩
  · obtain ⟨⟨u, us⟩, hu, h⟩ := bind_eq_ok_iff.1 h
    cases h
    exact Or.inl ⟨rfl, eq_of_takeOne hu⟩

/-! ### Plain operands in the place of other forms -/

namespace Token

/-- The token `n` is `t` itself, or a plain number or name that stands in the place of memory or of
an offset from SP with the same number or symbol. -/
def StandsFor (n t : Token) : Prop :=
  n = t ∨ ¬ t.IsPlain ∧ n.shape = .ok .immediate ∧ n.value = t.value ∧
    (t.value = none → ∀ scope, symbolKey scope n = symbolKey scope t)

/-- Nothing else stands for a plain operand. -/
theorem StandsFor.eq {n t : Token} (h : n.StandsFor t) (ht : t.IsPlain) : n = t :=
  h.elim id fun h => absurd ht h.1

end Token

/-- What a key resolves to does not depend on the token that refers to it. -/
theorem SymbolTable.resolve_eq_ok {table : SymbolTable} {key : String} {t n : Token}
    {r : Int × Token} (h : table.resolve key t = .ok r) : table.resolve key n = .ok r := by
  unfold resolve at h ⊢
  split at h
  · cases h
  · split at h
    · exact h
    · cases h
    · cases h

namespace Context

variable (c : Context) {n t : Token}

/-- The number of a plain operand is the number of what it stands for. -/
theorem quantity_standsFor (hn : n.StandsFor t) {q : Option Quantity}
    (h : c.quantity t = .ok q) : c.quantity n = .ok q := by
  rcases hn with rfl | ⟨-, hshape, hvalue, hkey⟩
  · exact h
  unfold quantity at h ⊢
  rw [hvalue]
  cases hv : t.value with
  | some v => rwa [hv] at h
  | none =>
      simp only [hv] at h
      simp only [hshape, ok_bind]
      obtain ⟨shape, -, h⟩ := bind_eq_ok_iff.1 h
      cases shape with
      | immediate | memory =>
          obtain ⟨key, hk, h⟩ := bind_eq_ok_iff.1 h
          rw [hkey hv, hk, ok_bind]
          split at h
          · exact h
          · obtain ⟨r, hr, h⟩ := bind_eq_ok_iff.1 h
            exact bind_eq_ok_iff.2 ⟨r, SymbolTable.resolve_eq_ok hr, h⟩
      | _ => cases h

theorem checked_standsFor {α : Type} [OfNat α 0] (hn : n.StandsFor t)
    {rule : Int → Except Cause α} {a : α} (h : c.checked t rule = .ok a) :
    c.checked n rule = .ok a := by
  obtain ⟨q, hq, h⟩ := bind_eq_ok_iff.1 h
  refine bind_eq_ok_iff.2 ⟨q, c.quantity_standsFor hn hq, ?_⟩
  cases q with
  | none => exact h
  | some q =>
      dsimp only at h ⊢
      split at h
      · exact h
      · cases h

/-- A number turned into an operand field. -/
theorem field_standsFor {α : Type} (hn : n.StandsFor t) {w : Width} {field : Int → α} {a : α}
    (h : (do return field (← c.number t w) : Except Error α) = .ok a) :
    (do return field (← c.number n w) : Except Error α) = .ok a := by
  obtain ⟨v, hv, h⟩ := bind_eq_ok_iff.1 h
  exact bind_eq_ok_iff.2 ⟨v, c.checked_standsFor hn hv, h⟩

theorem displacement_standsFor (hn : n.StandsFor t) {d : Int8}
    (h : c.displacement t = .ok d) : c.displacement n = .ok d := by
  have hvalue : n.value = t.value := by
    rcases hn with rfl | ⟨-, -, hvalue, -⟩
    · rfl
    · exact hvalue
  rw [displacement] at h ⊢
  rw [hvalue]
  split at h
  · exact c.field_standsFor hn h
  · exact c.checked_standsFor hn h

/-- A jump to an address goes to the same address in plain. -/
theorem jumpTo_standsFor (hn : n.StandsFor t) {cc : Option Condition} {nn : UInt16}
    (h : c.jumpTo cc t = .ok (.jump cc nn)) : c.jumpTo cc n = .ok (.jump cc nn) := by
  obtain ⟨shape, hshape, hjump⟩ := bind_eq_ok_iff.1 h
  split at hjump
  · cases hjump
  · cases hjump
  · obtain ⟨nn', hnn, hjump⟩ := bind_eq_ok_iff.1 hjump
    cases hjump
    have haddress : c.addressWord n = .ok nn := c.field_standsFor hn hnn
    rcases hn with rfl | ⟨-, hshape, -⟩
    · exact h
    · rw [jumpTo, hshape, ok_bind]
      cases cc with
      | none => exact bind_eq_ok_iff.2 ⟨nn, haddress, rfl⟩
      | some cond => exact bind_eq_ok_iff.2 ⟨nn, haddress, rfl⟩

end Context

/-! ### Selection -/

theorem standsFor_one {ns : List Token} {t : Token} (h : List.Forall₂ Token.StandsFor ns [t]) :
    ∃ n, n.StandsFor t ∧ ns = [n] := by
  obtain ⟨n, ns', hn, hns, rfl⟩ := List.forall₂_cons_right_iff.1 h
  rw [List.forall₂_nil_right_iff] at hns
  exact ⟨n, hn, by rw [hns]⟩

theorem standsFor_three {ns : List Token} {first comma second : Token}
    (hcomma : comma.isComma = true)
    (h : List.Forall₂ Token.StandsFor ns [first, comma, second]) :
    ∃ n m, n.StandsFor first ∧ m.StandsFor second ∧ ns = [n, comma, m] := by
  obtain ⟨n, ns₁, hn, h₁, rfl⟩ := List.forall₂_cons_right_iff.1 h
  obtain ⟨k, ns₂, hk, h₂, rfl⟩ := List.forall₂_cons_right_iff.1 h₁
  obtain ⟨m, hm, rfl⟩ := standsFor_one h₂
  obtain rfl := hk.eq (Token.isPlain_of_isComma hcomma)
  exact ⟨n, m, hn, hm, rfl⟩

/-- With a plain number for its target, a branch has the same condition. -/
theorem takeBranch_standsFor {name target : Token} {tokens ns : List Token}
    {cc : Option Condition} (h : takeBranch name tokens = .ok (cc, target, []))
    (hns : List.Forall₂ Token.StandsFor ns tokens) :
    ∃ n, n.StandsFor target ∧ takeBranch name ns = .ok (cc, n, []) := by
  rcases eq_of_takeBranch h with ⟨rfl, rfl⟩ | ⟨first, comma, cond, hcond, hcomma, rfl, rfl⟩
  · obtain ⟨n, hn, rfl⟩ := standsFor_one hns
    exact ⟨n, hn, rfl⟩
  · obtain ⟨n, m, hn, hm, rfl⟩ := standsFor_three hcomma hns
    obtain rfl := hn.eq (first.gives_condition cond hcond)
    refine ⟨m, hm, ?_⟩
    simp [takeBranch, takeOne, hcomma, hcond]

namespace Context

open Instruction

variable (c : Context) {name : Token} {tokens : List Token} {i : Instruction}

/-- All forms are honoured, or the instruction is one that reads a number in any form and comes out
the same with plain operands. -/
def Fair (c : Context) (m : Mnemonic) (name : Token) (tokens : List Token) (i : Instruction) :
    Prop :=
  (∀ t ∈ tokens, i.Honours t) ∨
    i.readsAnyForm = true ∧
      ∀ ns, List.Forall₂ Token.StandsFor ns tokens → c.select m name ns = .ok i

theorem fair_of_one {m : Mnemonic} {t : Token} (h : takeOne name tokens = .ok (t, []))
    (ht : i.Honours t) : c.Fair m name tokens i := by
  rw [eq_of_takeOne h]
  exact Or.inl (List.forall_mem_singleton.2 ht)

theorem fair_of_two {m : Mnemonic} {dst src : Token}
    (h : takeTwo name tokens = .ok (dst, src, [])) (ht : i.Honours dst ∧ i.Honours src) :
    c.Fair m name tokens i := by
  obtain ⟨comma, hcomma, rfl⟩ := eq_of_takeTwo h
  have hc := honours_of_isPlain i (Token.isPlain_of_isComma hcomma)
  left
  simp [ht, hc]

theorem fair_arith {op : Arith} (h : c.selectFront (.arith op) name tokens = .ok (i, [])) :
    c.Fair (.arith op) name tokens i := by
  simp only [selectFront] at h
  split at h
  · rename_i hlong
    obtain ⟨⟨dst, src, rest⟩, htake, h⟩ := bind_eq_ok_iff.1 h
    obtain ⟨j, hj, h⟩ := bind_eq_ok_iff.1 h
    cases h
    obtain ⟨shape, hshape, hj⟩ := bind_eq_ok_iff.1 hj
    split at hj
    · obtain ⟨rr, hrr, hj⟩ := bind_eq_ok_iff.1 hj
      cases hj
      have hsrc := src.gives_reg16 rr hrr
      exact c.fair_of_two htake ⟨honours_of_shape hshape rfl, honours_of_isPlain _ hsrc⟩
    · -- the addition to SP
      obtain ⟨e, he, hj⟩ := bind_eq_ok_iff.1 hj
      cases hj
      obtain ⟨comma, hcomma, rfl⟩ := eq_of_takeTwo htake
      refine Or.inr ⟨rfl, ?_⟩
      intro ns hns
      obtain ⟨n, m, hn, hm, rfl⟩ := standsFor_three hcomma hns
      obtain rfl := hn.eq (Token.isPlain_of_shape hshape rfl)
      have hm' : c.offset m = .ok e := c.field_standsFor hm he
      refine c.select_of_front name ?_
      simp [selectFront, isLongForm, hcomma, takeTwo_eq hcomma, arithTo, hshape, hm']
    · obtain ⟨_, hA, hj⟩ := bind_eq_ok_iff.1 hj
      have hdst := dst.gives_expectA _ hA
      exact c.fair_of_two htake
        ⟨honours_of_isPlain _ hdst, c.honours_arithSource op src i hj⟩
  · obtain ⟨⟨src, rest⟩, htake, h⟩ := bind_eq_ok_iff.1 h
    obtain ⟨j, hj, h⟩ := bind_eq_ok_iff.1 h
    cases h
    exact c.fair_of_one htake (c.honours_arithSource op src i hj)

theorem fair_bit {op : BitAction} (h : c.selectFront (.bit op) name tokens = .ok (i, [])) :
    c.Fair (.bit op) name tokens i := by
  obtain ⟨⟨index, reg, rest⟩, htake, h⟩ := bind_eq_ok_iff.1 h
  obtain ⟨r, hr, h⟩ := bind_eq_ok_iff.1 h
  obtain ⟨b, hb, h⟩ := bind_eq_ok_iff.1 h
  cases h
  obtain ⟨comma, hcomma, rfl⟩ := eq_of_takeTwo htake
  refine Or.inr ⟨rfl, ?_⟩
  intro ns hns
  obtain ⟨n, m, hn, hm, rfl⟩ := standsFor_three hcomma hns
  obtain rfl := hm.eq (reg.gives_reg8 r hr)
  have hn' : c.bitIndex n = .ok b := c.field_standsFor hn hb
  refine c.select_of_front name ?_
  simp [selectFront, takeTwo_eq hcomma, hr, hn']

theorem fair_rst (h : c.selectFront .rst name tokens = .ok (i, [])) :
    c.Fair .rst name tokens i := by
  obtain ⟨⟨t, rest⟩, htake, h⟩ := bind_eq_ok_iff.1 h
  obtain ⟨v, hv, h⟩ := bind_eq_ok_iff.1 h
  cases h
  rw [eq_of_takeOne htake]
  refine Or.inr ⟨rfl, ?_⟩
  intro ns hns
  obtain ⟨n, hn, rfl⟩ := standsFor_one hns
  have hn' : c.restartVector n = .ok v := c.checked_standsFor hn hv
  refine c.select_of_front name ?_
  simp [selectFront, takeOne, hn']

theorem fair_jp (h : c.selectFront .jp name tokens = .ok (i, [])) :
    c.Fair .jp name tokens i := by
  obtain ⟨⟨cc, target, rest⟩, htake, h⟩ := bind_eq_ok_iff.1 h
  obtain ⟨j, hj, h⟩ := bind_eq_ok_iff.1 h
  cases h
  by_cases hjump : ∃ nn, i = .jump cc nn
  · obtain ⟨nn, rfl⟩ := hjump
    refine Or.inr ⟨rfl, ?_⟩
    intro ns hns
    obtain ⟨n, hn, htake'⟩ := takeBranch_standsFor htake hns
    have hn' := c.jumpTo_standsFor hn hj
    refine c.select_of_front name ?_
    simp [selectFront, htake', hn']
  · -- the jump to HL, which has no condition
    have halone (hcc : cc = none) (ht : i.Honours target) : c.Fair .jp name tokens i := by
      rcases eq_of_takeBranch htake with ⟨-, rfl⟩ | ⟨-, -, cond, -, -, hsome, -⟩
      · exact Or.inl (List.forall_mem_singleton.2 ht)
      · rw [hcc] at hsome
        cases hsome
    obtain ⟨shape, hshape, hj⟩ := bind_eq_ok_iff.1 hj
    split at hj
    · exact halone rfl (honours_of_shape hshape rfl)
    · exact halone rfl (honours_of_shape hshape rfl)
    · obtain ⟨nn, hnn, hj⟩ := bind_eq_ok_iff.1 hj
      cases hj
      exact absurd ⟨nn, rfl⟩ hjump

theorem fair_jr (h : c.selectFront .jr name tokens = .ok (i, [])) :
    c.Fair .jr name tokens i := by
  obtain ⟨⟨cc, target, rest⟩, htake, h⟩ := bind_eq_ok_iff.1 h
  obtain ⟨d, hd, h⟩ := bind_eq_ok_iff.1 h
  cases h
  refine Or.inr ⟨rfl, ?_⟩
  intro ns hns
  obtain ⟨n, hn, htake'⟩ := takeBranch_standsFor htake hns
  have hn' := c.displacement_standsFor hn hd
  refine c.select_of_front name ?_
  simp [selectFront, htake', hn']

theorem fair_call (h : c.selectFront .call name tokens = .ok (i, [])) :
    c.Fair .call name tokens i := by
  obtain ⟨⟨cc, target, rest⟩, htake, h⟩ := bind_eq_ok_iff.1 h
  obtain ⟨nn, hnn, h⟩ := bind_eq_ok_iff.1 h
  cases h
  refine Or.inr ⟨rfl, ?_⟩
  intro ns hns
  obtain ⟨n, hn, htake'⟩ := takeBranch_standsFor htake hns
  have hn' : c.addressWord n = .ok nn := c.field_standsFor hn hnn
  refine c.select_of_front name ?_
  simp [selectFront, htake', hn']

/-- **Every selection is fair to the forms of its operands.** -/
theorem fair_select {m : Mnemonic} (hselect : c.select m name tokens = .ok i) :
    c.Fair m name tokens i := by
  have h := selectFront_of_select hselect
  cases m with
  | arith op => exact c.fair_arith h
  | bit op => exact c.fair_bit h
  | jp => exact c.fair_jp h
  | jr => exact c.fair_jr h
  | call => exact c.fair_call h
  | rst => exact c.fair_rst h
  | implied op =>
      cases h
      exact Or.inl (List.forall_mem_nil _)
  | inc | dec =>
      obtain ⟨⟨t, rest⟩, htake, h⟩ := bind_eq_ok_iff.1 h
      obtain ⟨j, hj, h⟩ := bind_eq_ok_iff.1 h
      cases h
      exact c.fair_of_one htake (honours_step _ _ t i hj)
  | rotate op =>
      obtain ⟨⟨t, rest⟩, htake, h⟩ := bind_eq_ok_iff.1 h
      obtain ⟨r, hr, h⟩ := bind_eq_ok_iff.1 h
      cases h
      exact c.fair_of_one htake (honours_of_isPlain _ (t.gives_reg8 r hr))
  | push | pop =>
      obtain ⟨⟨t, rest⟩, htake, h⟩ := bind_eq_ok_iff.1 h
      obtain ⟨q, hq, h⟩ := bind_eq_ok_iff.1 h
      cases h
      exact c.fair_of_one htake (honours_of_isPlain _ (t.gives_stackPair q hq))
  | ret =>
      cases tokens with
      | nil => exact Or.inl (List.forall_mem_nil _)
      | cons t rest =>
          obtain ⟨cc, hcc, h⟩ := bind_eq_ok_iff.1 h
          cases h
          have ht := honours_of_isPlain (.retIf cc) (t.gives_condition cc hcc)
          exact Or.inl (List.forall_mem_singleton.2 ht)
  | ld =>
      obtain ⟨⟨dst, src, rest⟩, htake, h⟩ := bind_eq_ok_iff.1 h
      obtain ⟨j, hj, h⟩ := bind_eq_ok_iff.1 h
      cases h
      exact c.fair_of_two htake (c.honours_load dst src i hj)
  | ldh =>
      obtain ⟨⟨dst, src, rest⟩, htake, h⟩ := bind_eq_ok_iff.1 h
      obtain ⟨j, hj, h⟩ := bind_eq_ok_iff.1 h
      cases h
      exact c.fair_of_two htake (c.honours_loadHighPage dst src i hj)
  | ldi | ldd =>
      obtain ⟨⟨dst, src, rest⟩, htake, h⟩ := bind_eq_ok_iff.1 h
      obtain ⟨j, hj, h⟩ := bind_eq_ok_iff.1 h
      cases h
      exact c.fair_of_two htake (honours_loadStep _ dst src i hj)

end Context

/-! ### Instructions of a source -/

namespace Pending

/-- **The forms of all operands are honoured, or the instruction would be the same with plain
operands.**  With any symbols, if an instruction is selected then an offset from SP is among its
operands only in the load of HL, and memory only in the loads and stores that name an address, unless
it is one of the six instructions that read a number in any form.  In these every literal and every
symbol counts as if it were written without its brackets or its SP. -/
theorem forms_honoured_or_plain {p : Pending} {table : SymbolTable} {i : Instruction}
    (h : p.build (some table) = .ok i) :
    (∀ t ∈ p.operands, (t.kind = .spShifted → i.hasSpOffset = true) ∧
      (t.IsMemory → i.hasMemory = true)) ∨
    i.readsAnyForm = true ∧ ∀ ns, List.Forall₂ Token.StandsFor ns p.operands →
      { p with operands := ns }.build (some table) = .ok i := by
  rcases Context.fair_select _ h with hall | hany
  · exact Or.inl fun t ht => ⟨(hall t ht).spOffset, (hall t ht).memory⟩
  · exact Or.inr hany

/-- The instruction of the line `ADD SP, SP+4`. -/
def shiftedAddition : Pending :=
  ⟨.arith .add, ⟨.identifier, "ADD", ⟨1, 1⟩, none⟩,
    [⟨.identifier, "SP", ⟨1, 5⟩, none⟩, ⟨.comma, ",", ⟨1, 7⟩, none⟩,
      ⟨.spShifted, "SP+4", ⟨1, 9⟩, some 4⟩], 0, none⟩

/-- The addition of SP+4 to SP is the addition of 4. -/
theorem forms_honoured_or_plain_shifted :
    shiftedAddition.build (some ∅) = .ok (.addSP 4) ∧
    { shiftedAddition with operands := [⟨.identifier, "SP", ⟨1, 5⟩, none⟩,
      ⟨.comma, ",", ⟨1, 7⟩, none⟩, ⟨.number, "4", ⟨1, 9⟩, some 4⟩] }.build (some ∅)
      = .ok (.addSP 4) := by
  have hbuild : shiftedAddition.build (some ∅) = .ok (.addSP 4) := rfl
  refine ⟨hbuild, ?_⟩
  rcases forms_honoured_or_plain hbuild with hall | ⟨-, hplain⟩
  · have hlast := (hall ⟨.spShifted, "SP+4", ⟨1, 9⟩, some 4⟩ (by decide)).1 rfl
    cases hlast
  · refine hplain _ (.cons (Or.inl rfl) (.cons (Or.inl rfl) (.cons (Or.inr ?_) .nil)))
    exact ⟨fun h => h.not_spShifted rfl, rfl, rfl, nofun⟩

/-- **Not every form is honoured**: the source `ADD SP, SP+4` is laid out as an instruction with an
offset from SP among its operands, and is assembled, but not to the load of HL. -/
theorem forms_not_always_honoured :
    ((Layout.start 0).keepGoing (Line.ofSource "ADD SP, SP+4")).1.pending.toList
        = [shiftedAddition] ∧
    ¬ ∀ (p : Pending) (table : SymbolTable) (i : Instruction), p.build (some table) = .ok i →
      ∀ t ∈ p.operands, t.kind = .spShifted → ∃ e, i = .loadHLSP e := by
  refine ⟨by decide +kernel, ?_⟩
  intro hloads
  obtain ⟨e, he⟩ := hloads shiftedAddition ∅ (.addSP 4) rfl ⟨.spShifted, "SP+4", ⟨1, 9⟩, some 4⟩
    (by decide) rfl
  cases he

end Pending

/-! ### Arithmetic with A written out -/

/-- The letter A names the register, and nothing else. -/
theorem Token.shape_of_A {t : Token} (hkind : t.kind = .identifier)
    (hname : sameLetters t.text "A" = true) : t.shape = .ok (.reg8 .a) := by
  have hletters : capitals t.text = ['A'] := sameLetters_iff.1 hname
  have hinside : insideBrackets? t.text = none := by
    obtain ⟨c, hc, -⟩ := List.map_eq_singleton_iff.1 hletters
    unfold insideBrackets?
    rw [hc]
    split
    · rename_i heq
      cases heq
      rfl
    · rename_i heq
      cases heq
      rfl
    · rfl
  have hreg : Reg8.ofName? t.text = some .a := by
    unfold Reg8.ofName?
    simp only [hinside, sameLetters, hletters]
    rfl
  rw [shape, hkind, Shape.ofName, hreg]

namespace Context

variable (c : Context) {op : Arith} {name a comma x : Token} {rest : List Token}

/-- Nothing may stand behind the operands. -/
def atLineEnd (i : Instruction) : Rest → Except Error Instruction
  | [] => .ok i
  | t :: _ => .error (.about t (.expectedLineEnd t))

theorem select_eq_atLineEnd {m : Mnemonic} {tokens : List Token} {r : Except Error Instruction}
    (h : c.selectFront m name tokens = do return (← r, rest)) :
    c.select m name tokens = r >>= fun i => atLineEnd i rest := by
  rw [select, h]
  cases r with
  | error e => rfl
  | ok i => cases rest <;> rfl

theorem select_arith_short (hrest : ∀ t ∈ rest.head?, t.isComma = false) :
    c.select (.arith op) name (x :: rest) = c.arithSource op x >>= fun i => atLineEnd i rest := by
  refine c.select_eq_atLineEnd ?_
  have hshort : isLongForm (x :: rest) = false := by
    cases rest with
    | nil => rfl
    | cons t rest => exact hrest t rfl
  rw [selectFront, if_neg (by rw [hshort]; exact Bool.false_ne_true)]
  rfl

theorem select_arith_long (ha : a.shape = .ok (.reg8 .a)) (hcomma : comma.isComma = true) :
    c.select (.arith op) name (a :: comma :: x :: rest)
      = c.arithSource op x >>= fun i => atLineEnd i rest := by
  refine c.select_eq_atLineEnd ?_
  have hto : c.arithTo op a x = c.arithSource op x := by
    rw [arithTo, ha, ok_bind]
    -- only a pair makes an addition of its own
    cases op <;> rw [Token.expectA_eq_ok_iff.2 ha, ok_bind]
  have htake : takeTwo name (a :: comma :: x :: rest) = .ok (a, x, rest) := by
    simp [takeTwo, takeOne, hcomma]
  rw [selectFront, isLongForm, if_pos hcomma, htake, ok_bind]
  simp only [hto]

end Context

namespace Pending

/-- **Arithmetic is the same with A written out and without it.**  Let any token stand behind one of
the eight mnemonics of arithmetic, and behind it anything that does not start with a comma.  With A and
a comma in front of the token, the same instruction comes out, or the same error at the same place:
while the symbols are not known, and with any symbols. -/
theorem arith_with_or_without_A {op : Arith} {name name' a comma x : Token} {rest : List Token}
    (hkind : a.kind = .identifier) (hname : sameLetters a.text "A" = true)
    (hcomma : comma.kind = .comma) (hrest : ∀ t ∈ rest.head?, t.kind ≠ .comma)
    (address : UInt16) (scope : Option String) (symbols : Option SymbolTable) :
    Pending.build ⟨.arith op, name, x :: rest, address, scope⟩ symbols
      = Pending.build ⟨.arith op, name', a :: comma :: x :: rest, address, scope⟩ symbols := by
  have hcomma : comma.isComma = true := by simp [Token.isComma, hcomma]
  have hrest : ∀ t ∈ rest.head?, t.isComma = false := by
    intro t ht
    simpa [Token.isComma] using hrest t ht
  unfold build
  rw [Context.select_arith_short _ hrest,
    Context.select_arith_long _ (Token.shape_of_A hkind hname) hcomma]

/-- A constant that does not fit, subtracted from A: both forms point at the same operand, and at the
definition of the constant. -/
theorem arith_with_or_without_A_limit :
    let limit : Token := ⟨.identifier, "LIMIT", ⟨2, 8⟩, none⟩
    let table : SymbolTable := (∅ : SymbolTable).insert "LIMIT"
      ⟨.constant, .value 256, ⟨.identifier, "LIMIT", ⟨1, 1⟩, none⟩⟩
    let name : Token := ⟨.identifier, "SUB", ⟨2, 1⟩, none⟩
    Pending.build ⟨.arith .sub, name, [limit], 0, none⟩ (some table)
        = .error ⟨.outOfRange .either8 256, ⟨⟨2, 8⟩, 5⟩, some ⟨⟨1, 1⟩, 5⟩⟩ ∧
      Pending.build ⟨.arith .sub, name, [⟨.identifier, "a", ⟨2, 5⟩, none⟩,
          ⟨.comma, ",", ⟨2, 6⟩, none⟩, limit], 0, none⟩ (some table)
        = .error ⟨.outOfRange .either8 256, ⟨⟨2, 8⟩, 5⟩, some ⟨⟨1, 1⟩, 5⟩⟩ := by
  intro limit table name
  have hshort : Pending.build ⟨.arith .sub, name, [limit], 0, none⟩ (some table)
      = .error ⟨.outOfRange .either8 256, ⟨⟨2, 8⟩, 5⟩, some ⟨⟨1, 1⟩, 5⟩⟩ := by decide +kernel
  refine ⟨hshort, ?_⟩
  rw [← hshort]
  exact (arith_with_or_without_A rfl rfl rfl (by simp) 0 none (some table)).symm

end Pending

end GameBoyAssembler
