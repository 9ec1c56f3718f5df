import GameBoyAssembler.Layout
import GameBoyAssembler.Proofs.MachineCode

/-!
# Selecting an instruction without symbols and with them

An instruction is selected twice: for the layout, when no symbol is known, and again with all
symbols.  The layout counts on both selections having the same length.  This module compares the
two, for every mnemonic and every list of tokens behind it, however wrong.

Where the first selection fails the second one fails; where it succeeds, the second one gives the
same instruction up to the number operand, or it fails because of the value of a symbol.  The
comparison is made step by step: `Foresees` relates the two outcomes of a step, `Foresees.bind` puts
steps together, and every function that reads operands has one lemma.

Main definitions:

* `Error.IsLate` — the errors that only a symbol's value brings about;
* `Foresees` — the outcome without symbols foresees the one with them;
* `Gives` — what holds of the result of a step, if there is one.

Main results:

* `Context.foresees_select` — **the form of an instruction does not depend on symbols**;
* `Context.gives_select_canonical` — what is selected can be read back from its machine code.
-/

set_option relaxedAutoImplicit false
set_option autoImplicit false

namespace GameBoyAssembler

/-! ### Two outcomes of one step -/

/-- The errors that only the value of a symbol can bring about. -/
def Error.IsLate (e : Error) : Prop :=
  e.kind = .range ∨ e.kind = .resolution

variable {α β α' β' : Type}

/-- The outcome `x` of a step without symbols foresees the outcome `y` with them: a failure foresees
a failure, and a success foresees a success with a result related by `R`, or a late error. -/
def Foresees (R : α → β → Prop) : Except Error α → Except Error β → Prop
  | .ok a, .ok b => R a b
  | .ok _, .error e => e.IsLate
  | .error _, .ok _ => False
  | .error _, .error _ => True

namespace Foresees

variable {R : α → β → Prop} {S : α' → β' → Prop}

theorem pure {a : α} {b : β} (h : R a b) :
    Foresees R (Pure.pure a : Except Error α) (Pure.pure b : Except Error β) := h

theorem throw (e f : Error) :
    Foresees R (MonadExcept.throw e : Except Error α) (MonadExcept.throw f : Except Error β) :=
  trivial

theorem late (x : Except Error α) {e : Error} (h : e.IsLate) :
    Foresees R x (.error e : Except Error β) := by
  cases x with
  | error e' => trivial
  | ok a => exact h

/-- Two outcomes that are the same foresee each other, if nothing is asked of the results. -/
theorem rfl_true (x : Except Error α) : Foresees (fun _ _ : α => True) x x := by
  cases x <;> trivial

/-- Steps put together: the rest is compared from related results on. -/
theorem bind {x : Except Error α} {y : Except Error β} {f : α → Except Error α'}
    {g : β → Except Error β'} (h : Foresees R x y) (hf : ∀ a b, R a b → Foresees S (f a) (g b)) :
    Foresees S (x >>= f) (y >>= g) := by
  cases x with
  | error e =>
      cases y with
      | error e' => trivial
      | ok b => exact h.elim
  | ok a =>
      cases y with
      | error e => exact late (f a) h
      | ok b => exact hf a b h

/-- A step that asks for no symbol comes out the same both times. -/
theorem bind_same {x : Except Error α} {f : α → Except Error α'} {g : α → Except Error β'}
    (hf : ∀ a, Foresees S (f a) (g a)) : Foresees S (x >>= f) (x >>= g) := by
  cases x with
  | error e => trivial
  | ok a => exact hf a

end Foresees

/-! ### The number of an operand -/

/-- The errors of a rule about values are range errors. -/
def IsRangeRule {α : Type} (rule : Int → Except Cause α) : Prop :=
  ∀ v cause, rule v = .error cause → cause.kind = .range

theorem isRangeRule_check (w : Width) : IsRangeRule w.check := by
  intro v cause h
  unfold Width.check at h
  split at h
  · cases h
  · cases h; rfl

theorem SymbolTable.resolve_isLate {table : SymbolTable} {key : String} {t : Token} {e : Error}
    (h : table.resolve key t = .error e) : e.IsLate := by
  unfold SymbolTable.resolve at h
  split at h
  · cases h; exact Or.inr rfl
  · split at h
    · cases h
    · cases h; exact Or.inr rfl
    · cases h; exact Or.inr rfl

namespace Context

theorem isRangeRule_displacementTo (address : UInt16) : IsRangeRule (displacementTo address) := by
  intro v cause h
  simp only [displacementTo] at h
  split at h
  · cases h; rfl
  · split at h
    · cases h
    · cases h; rfl

theorem isRangeRule_highPageRule : IsRangeRule highPageRule := by
  intro v cause h
  simp only [highPageRule] at h
  split at h
  · split at h
    · cases h
    · cases h; rfl
  · split at h
    · cases h
    · cases h; rfl

theorem isRangeRule_restartRule : IsRangeRule restartRule := by
  intro v cause h
  unfold restartRule at h
  split at h
  · cases h
  · cases h; rfl

/-- The context of the same place in which symbols are not known. -/
def withoutSymbols (c : Context) : Context :=
  { c with symbols := none }

variable (c : Context)

/-- Without symbols the number of an operand is not known or is the same. -/
theorem foresees_quantity (t : Token) :
    Foresees (fun q r => q = none ∨ q = r) (c.withoutSymbols.quantity t) (c.quantity t) := by
  unfold quantity
  cases t.value with
  | some v => exact Foresees.pure (Or.inr rfl)
  | none =>
      refine Foresees.bind_same fun shape => ?_
      cases shape with
      | immediate | memory =>
          refine Foresees.bind_same fun key => ?_
          change Foresees _ (Pure.pure none) _
          cases c.symbols with
          | none => exact Foresees.pure (Or.inl rfl)
          | some table =>
              dsimp only
              cases hr : table.resolve key t with
              | error e => exact Foresees.late _ (table.resolve_isLate hr)
              | ok v => exact Foresees.pure (Or.inl rfl)
      | _ => exact Foresees.throw _ _

/-- Whether a rule refuses a number can be foreseen, except where a symbol gives the number. -/
theorem foresees_checked [OfNat α 0] {rule : Int → Except Cause α} (hrule : IsRangeRule rule)
    (t : Token) :
    Foresees (fun _ _ => True) (c.withoutSymbols.checked t rule) (c.checked t rule) := by
  unfold checked
  refine Foresees.bind (c.foresees_quantity t) fun q r hqr => ?_
  rcases hqr with rfl | rfl
  · cases r with
    | none => exact Foresees.pure trivial
    | some r =>
        cases hr : rule r.value with
        | ok a => simp only [hr]; exact Foresees.pure trivial
        | error cause => simp only [hr]; exact Foresees.late _ (Or.inl (hrule _ _ hr))
  · exact Foresees.rfl_true _

theorem foresees_number (t : Token) (w : Width) :
    Foresees (fun _ _ => True) (c.withoutSymbols.number t w) (c.number t w) :=
  c.foresees_checked (isRangeRule_check w) t

/-- A number turned into an operand field. -/
theorem foresees_field (t : Token) (w : Width) (field : Int → α) :
    Foresees (fun _ _ => True) (do return field (← c.withoutSymbols.number t w))
      (do return field (← c.number t w)) :=
  (c.foresees_number t w).bind fun _ _ _ => trivial

theorem foresees_byte (t : Token) :
    Foresees (fun _ _ => True) (c.withoutSymbols.byte t) (c.byte t) :=
  c.foresees_field t _ _

theorem foresees_word (t : Token) :
    Foresees (fun _ _ => True) (c.withoutSymbols.word t) (c.word t) :=
  c.foresees_field t _ _

theorem foresees_addressWord (t : Token) :
    Foresees (fun _ _ => True) (c.withoutSymbols.addressWord t) (c.addressWord t) :=
  c.foresees_field t _ _

theorem foresees_offset (t : Token) :
    Foresees (fun _ _ => True) (c.withoutSymbols.offset t) (c.offset t) :=
  c.foresees_field t _ _

theorem foresees_bitIndex (t : Token) :
    Foresees (fun _ _ => True) (c.withoutSymbols.bitIndex t) (c.bitIndex t) :=
  c.foresees_field t _ _

theorem foresees_displacement (t : Token) :
    Foresees (fun _ _ => True) (c.withoutSymbols.displacement t) (c.displacement t) := by
  unfold displacement
  cases t.value with
  | some v => exact c.foresees_offset t
  | none => exact c.foresees_checked (isRangeRule_displacementTo c.address) t

/-! ### The families of mnemonics -/

/-- The same instruction up to its number operand. -/
abbrev SameForm (i j : Instruction) : Prop :=
  i.erase = j.erase

theorem foresees_arithSource (op : Arith) (src : Token) :
    Foresees SameForm (c.withoutSymbols.arithSource op src) (c.arithSource op src) := by
  unfold arithSource
  refine Foresees.bind_same fun shape => ?_
  cases shape with
  | reg8 r => exact Foresees.pure rfl
  | immediate => exact (c.foresees_byte src).bind fun _ _ _ => Foresees.pure rfl
  | _ => exact Foresees.throw _ _

theorem foresees_arithTo (op : Arith) (dst src : Token) :
    Foresees SameForm (c.withoutSymbols.arithTo op dst src) (c.arithTo op dst src) := by
  unfold arithTo
  refine Foresees.bind_same fun shape => ?_
  split
  · exact Foresees.bind_same fun _ => Foresees.pure rfl
  · exact (c.foresees_offset src).bind fun _ _ _ => Foresees.pure rfl
  · exact Foresees.bind_same fun _ => c.foresees_arithSource op src

theorem foresees_load (dst src : Token) :
    Foresees SameForm (c.withoutSymbols.load dst src) (c.load dst src) := by
  unfold load
  refine Foresees.bind_same fun shape => Foresees.bind_same fun shape' => ?_
  split
  · exact Foresees.throw _ _
  · exact Foresees.pure rfl
  · exact (c.foresees_byte src).bind fun _ _ _ => Foresees.pure rfl
  · exact (c.foresees_word src).bind fun _ _ _ => Foresees.pure rfl
  · exact Foresees.pure rfl
  · exact (c.foresees_offset src).bind fun _ _ _ => Foresees.pure rfl
  · exact (c.foresees_addressWord dst).bind fun _ _ _ => Foresees.pure rfl
  · exact Foresees.bind_same fun _ => Foresees.pure rfl
  · exact Foresees.bind_same fun _ => Foresees.pure rfl
  · refine Foresees.bind_same fun _ => ?_
    exact (c.foresees_addressWord dst).bind fun _ _ _ => Foresees.pure rfl
  · refine Foresees.bind_same fun _ => ?_
    exact (c.foresees_addressWord src).bind fun _ _ _ => Foresees.pure rfl
  · exact Foresees.bind_same fun _ => Foresees.pure rfl
  · exact Foresees.bind_same fun _ => Foresees.pure rfl
  · exact Foresees.throw _ _

theorem foresees_loadHighPage (dst src : Token) :
    Foresees SameForm (c.withoutSymbols.loadHighPage dst src) (c.loadHighPage dst src) := by
  unfold loadHighPage
  refine Foresees.bind_same fun shape => Foresees.bind_same fun shape' => ?_
  have hoffset (t : Token) := c.foresees_checked isRangeRule_highPageRule t
  split
  · exact Foresees.bind_same fun _ => Foresees.pure rfl
  · exact Foresees.bind_same fun _ => Foresees.pure rfl
  · exact Foresees.bind_same fun _ => (hoffset dst).bind fun _ _ _ => Foresees.pure rfl
  · exact Foresees.bind_same fun _ => (hoffset src).bind fun _ _ _ => Foresees.pure rfl
  · exact Foresees.throw _ _

theorem foresees_jumpTo (cc : Option Condition) (target : Token) :
    Foresees SameForm (c.withoutSymbols.jumpTo cc target) (c.jumpTo cc target) := by
  unfold jumpTo
  refine Foresees.bind_same fun shape => ?_
  split
  · exact Foresees.pure rfl
  · exact Foresees.pure rfl
  · exact (c.foresees_addressWord target).bind fun _ _ _ => Foresees.pure rfl

/-- The same form and the same tokens behind the operands. -/
abbrev SameFront (x y : Instruction × Rest) : Prop :=
  SameForm x.1 y.1 ∧ x.2 = y.2

theorem foresees_selectFront (mnemonic : Mnemonic) (name : Token) (tokens : List Token) :
    Foresees SameFront (c.withoutSymbols.selectFront mnemonic name tokens)
      (c.selectFront mnemonic name tokens) := by
  cases mnemonic with
  | implied op => exact Foresees.pure ⟨rfl, rfl⟩
  | arith op =>
      unfold selectFront
      dsimp only
      split
      · exact Foresees.bind_same fun ⟨dst, src, rest⟩ =>
          (c.foresees_arithTo op dst src).bind fun _ _ h => Foresees.pure ⟨h, rfl⟩
      · exact Foresees.bind_same fun ⟨src, rest⟩ =>
          (c.foresees_arithSource op src).bind fun _ _ h => Foresees.pure ⟨h, rfl⟩
  | inc | dec | rotate op | push | pop =>
      exact Foresees.bind_same fun ⟨t, rest⟩ =>
        Foresees.bind_same fun _ => Foresees.pure ⟨rfl, rfl⟩
  | bit op =>
      exact Foresees.bind_same fun ⟨index, reg, rest⟩ => Foresees.bind_same fun r =>
        (c.foresees_bitIndex index).bind fun _ _ _ => Foresees.pure ⟨rfl, rfl⟩
  | jp =>
      exact Foresees.bind_same fun ⟨cc, target, rest⟩ =>
        (c.foresees_jumpTo cc target).bind fun _ _ h => Foresees.pure ⟨h, rfl⟩
  | jr =>
      exact Foresees.bind_same fun ⟨cc, target, rest⟩ =>
        (c.foresees_displacement target).bind fun _ _ _ => Foresees.pure ⟨rfl, rfl⟩
  | call =>
      exact Foresees.bind_same fun ⟨cc, target, rest⟩ =>
        (c.foresees_addressWord target).bind fun _ _ _ => Foresees.pure ⟨rfl, rfl⟩
  | ret =>
      cases tokens with
      | nil => exact Foresees.pure ⟨rfl, rfl⟩
      | cons t rest => exact Foresees.bind_same fun cc => Foresees.pure ⟨rfl, rfl⟩
  | rst =>
      exact Foresees.bind_same fun ⟨t, rest⟩ =>
        (c.foresees_checked isRangeRule_restartRule t).bind fun _ _ _ => Foresees.pure ⟨rfl, rfl⟩
  | ld =>
      exact Foresees.bind_same fun ⟨dst, src, rest⟩ =>
        (c.foresees_load dst src).bind fun _ _ h => Foresees.pure ⟨h, rfl⟩
  | ldh =>
      exact Foresees.bind_same fun ⟨dst, src, rest⟩ =>
        (c.foresees_loadHighPage dst src).bind fun _ _ h => Foresees.pure ⟨h, rfl⟩
  | ldi | ldd =>
      exact Foresees.bind_same fun ⟨dst, src, rest⟩ =>
        Foresees.bind_same fun i => Foresees.pure ⟨rfl, rfl⟩

/-- **The form of an instruction does not depend on symbols.** -/
theorem foresees_select (mnemonic : Mnemonic) (name : Token) (tokens : List Token) :
    Foresees SameForm (c.withoutSymbols.select mnemonic name tokens)
      (c.select mnemonic name tokens) := by
  refine (c.foresees_selectFront mnemonic name tokens).bind ?_
  rintro ⟨i, rest⟩ ⟨j, rest'⟩ ⟨hform, hrest⟩
  obtain rfl : rest = rest' := hrest
  cases rest with
  | nil => exact Foresees.pure hform
  | cons t rest => exact Foresees.throw _ _

end Context

/-! ### Selected instructions are canonical -/

/-- The result of a step, if there is one, satisfies `P`. -/
def Gives (x : Except Error α) (P : α → Prop) : Prop :=
  ∀ a, x = .ok a → P a

namespace Gives

variable {P : α → Prop} {Q : β → Prop}

theorem pure {a : α} (h : P a) : Gives (Pure.pure a) P := by
  intro b hb
  cases hb
  exact h

theorem throw (e : Error) : Gives (MonadExcept.throw e) P := by
  intro b hb
  cases hb

theorem bind {x : Except Error α} {f : α → Except Error β} (hx : Gives x P)
    (hf : ∀ a, P a → Gives (f a) Q) : Gives (x >>= f) Q := by
  intro b hb
  cases hxa : x with
  | error e => rw [hxa] at hb; cases hb
  | ok a => rw [hxa] at hb; exact hf a (hx a hxa) b hb

/-- The result of the last step decides. -/
theorem bind_any {x : Except Error α} {f : α → Except Error β} (hf : ∀ a, Gives (f a) Q) :
    Gives (x >>= f) Q :=
  bind (P := fun _ => True) (fun _ _ => trivial) fun a _ => hf a

end Gives

namespace Context

variable (c : Context)

theorem gives_checked [OfNat α 0] {rule : Int → Except Cause α} {P : α → Prop} (t : Token)
    (hzero : P 0) (hrule : ∀ v a, rule v = .ok a → P a) : Gives (c.checked t rule) P := by
  unfold checked
  refine Gives.bind_any fun q => ?_
  cases q with
  | none => exact Gives.pure hzero
  | some q =>
      cases hr : rule q.value with
      | ok a => simp only [hr]; exact Gives.pure (hrule _ _ hr)
      | error cause => simp only [hr]; exact Gives.throw _

/-- A number that is read is one that the width accepts. -/
theorem gives_number (t : Token) (w : Width) : Gives (c.number t w) w.Accepts := by
  refine c.gives_checked t ?_ fun v a h => ?_
  · cases w <;> decide
  · unfold Width.check at h
    split at h
    · rename_i hv
      cases h
      exact hv
    · cases h

/-- A restart vector fits its field. -/
theorem gives_restartVector (t : Token) :
    Gives (c.restartVector t) fun v => v &&& 0x38 = v := by
  refine c.gives_checked t rfl fun v a h => ?_
  unfold restartRule at h
  split at h
  · rename_i hv
    cases h
    have hcases : v = 0 ∨ v = 8 ∨ v = 16 ∨ v = 24 ∨ v = 32 ∨ v = 40 ∨ v = 48 ∨ v = 56 := by omega
    rcases hcases with rfl | rfl | rfl | rfl | rfl | rfl | rfl | rfl <;> rfl
  · cases h

/-- A bit index fits its field. -/
theorem gives_bitIndex (t : Token) : Gives (c.bitIndex t) fun n => n &&& 7 = n := by
  refine (c.gives_number t .bitIndex).bind fun v hv => Gives.pure ?_
  have hlow : 0 ≤ v := hv.1
  have hhigh : v ≤ 7 := hv.2
  have hcases : v = 0 ∨ v = 1 ∨ v = 2 ∨ v = 3 ∨ v = 4 ∨ v = 5 ∨ v = 6 ∨ v = 7 := by omega
  rcases hcases with rfl | rfl | rfl | rfl | rfl | rfl | rfl | rfl <;> rfl

theorem gives_arithSource (op : Arith) (src : Token) :
    Gives (c.arithSource op src) Instruction.IsCanonical := by
  unfold arithSource
  refine Gives.bind_any fun shape => ?_
  cases shape with
  | reg8 r => exact Gives.pure rfl
  | immediate => exact Gives.bind_any fun _ => Gives.pure rfl
  | _ => exact Gives.throw _

theorem gives_arithTo (op : Arith) (dst src : Token) :
    Gives (c.arithTo op dst src) Instruction.IsCanonical := by
  unfold arithTo
  refine Gives.bind_any fun shape => ?_
  split
  · exact Gives.bind_any fun _ => Gives.pure rfl
  · exact Gives.bind_any fun _ => Gives.pure rfl
  · exact Gives.bind_any fun _ => c.gives_arithSource op src

/-- The load of the byte at HL into itself, which would be read back as HALT, is never selected. -/
theorem gives_load (dst src : Token) : Gives (c.load dst src) Instruction.IsCanonical := by
  unfold load
  refine Gives.bind_any fun shape => Gives.bind_any fun shape' => ?_
  split
  case h_2 r r' hne =>
    refine Gives.pure ?_
    cases r with
    | atHL =>
        cases r' with
        | atHL => exact (hne rfl rfl).elim
        | _ => rfl
    | _ => rfl
  case h_1 | h_14 => exact Gives.throw _
  case h_5 => exact Gives.pure rfl
  case h_3 | h_4 | h_6 | h_7 | h_8 | h_9 | h_12 | h_13 =>
    exact Gives.bind_any fun _ => Gives.pure rfl
  case h_10 | h_11 => exact Gives.bind_any fun _ => Gives.bind_any fun _ => Gives.pure rfl

theorem gives_loadHighPage (dst src : Token) :
    Gives (c.loadHighPage dst src) Instruction.IsCanonical := by
  unfold loadHighPage
  refine Gives.bind_any fun shape => Gives.bind_any fun shape' => ?_
  split
  · exact Gives.bind_any fun _ => Gives.pure rfl
  · exact Gives.bind_any fun _ => Gives.pure rfl
  · exact Gives.bind_any fun _ => Gives.bind_any fun _ => Gives.pure rfl
  · exact Gives.bind_any fun _ => Gives.bind_any fun _ => Gives.pure rfl
  · exact Gives.throw _

theorem gives_loadStep (p : Pointer) (dst src : Token) :
    Gives (loadStep p dst src) Instruction.IsCanonical := by
  unfold loadStep
  refine Gives.bind_any fun shape => Gives.bind_any fun shape' => ?_
  split
  · exact Gives.bind_any fun _ => Gives.pure rfl
  · exact Gives.bind_any fun _ => Gives.pure rfl
  · exact Gives.throw _

theorem gives_jumpTo (cc : Option Condition) (target : Token) :
    Gives (c.jumpTo cc target) Instruction.IsCanonical := by
  unfold jumpTo
  refine Gives.bind_any fun shape => ?_
  split
  · exact Gives.pure rfl
  · exact Gives.pure rfl
  · exact Gives.bind_any fun _ => Gives.pure rfl

theorem gives_step (byte : Reg8 → Instruction) (pair : Reg16 → Instruction)
    (hbyte : ∀ r, (byte r).IsCanonical) (hpair : ∀ rr, (pair rr).IsCanonical) (t : Token) :
    Gives (step byte pair t) Instruction.IsCanonical := by
  unfold step
  refine Gives.bind_any fun shape => ?_
  cases shape with
  | reg8 r => exact Gives.pure (hbyte r)
  | reg16 rr => exact Gives.pure (hpair rr)
  | _ => exact Gives.throw _

theorem gives_selectFront (mnemonic : Mnemonic) (name : Token) (tokens : List Token) :
    Gives (c.selectFront mnemonic name tokens) fun x => x.1.IsCanonical := by
  cases mnemonic with
  | implied op => exact Gives.pure rfl
  | arith op =>
      unfold selectFront
      dsimp only
      split
      · exact Gives.bind_any fun ⟨dst, src, rest⟩ =>
          (c.gives_arithTo op dst src).bind fun i hi => Gives.pure hi
      · exact Gives.bind_any fun ⟨src, rest⟩ =>
          (c.gives_arithSource op src).bind fun i hi => Gives.pure hi
  | inc =>
      exact Gives.bind_any fun ⟨t, rest⟩ =>
        (gives_step .inc .incPair (fun _ => rfl) (fun _ => rfl) t).bind fun i hi => Gives.pure hi
  | dec =>
      exact Gives.bind_any fun ⟨t, rest⟩ =>
        (gives_step .dec .decPair (fun _ => rfl) (fun _ => rfl) t).bind fun i hi => Gives.pure hi
  | rotate op | push | pop =>
      exact Gives.bind_any fun ⟨t, rest⟩ => Gives.bind_any fun _ => Gives.pure rfl
  | bit op =>
      exact Gives.bind_any fun ⟨index, reg, rest⟩ => Gives.bind_any fun r =>
        (c.gives_bitIndex index).bind fun n hn => Gives.pure (congrArg (Instruction.bit op · r) hn)
  | jp =>
      exact Gives.bind_any fun ⟨cc, target, rest⟩ =>
        (c.gives_jumpTo cc target).bind fun i hi => Gives.pure hi
  | jr | call =>
      exact Gives.bind_any fun ⟨cc, target, rest⟩ => Gives.bind_any fun _ => Gives.pure rfl
  | ret =>
      cases tokens with
      | nil => exact Gives.pure rfl
      | cons t rest => exact Gives.bind_any fun cc => Gives.pure rfl
  | rst =>
      exact Gives.bind_any fun ⟨t, rest⟩ =>
        (c.gives_restartVector t).bind fun v hv => Gives.pure (congrArg Instruction.restart hv)
  | ld =>
      exact Gives.bind_any fun ⟨dst, src, rest⟩ =>
        (c.gives_load dst src).bind fun i hi => Gives.pure hi
  | ldh =>
      exact Gives.bind_any fun ⟨dst, src, rest⟩ =>
        (c.gives_loadHighPage dst src).bind fun i hi => Gives.pure hi
  | ldi | ldd =>
      exact Gives.bind_any fun ⟨dst, src, rest⟩ =>
        (gives_loadStep _ dst src).bind fun i hi => Gives.pure hi

/-- **What is selected can be read back from its machine code.** -/
theorem gives_select_canonical (mnemonic : Mnemonic) (name : Token) (tokens : List Token) :
    Gives (c.select mnemonic name tokens) Instruction.IsCanonical := by
  refine (c.gives_selectFront mnemonic name tokens).bind ?_
  rintro ⟨i, rest⟩ hi
  cases rest with
  | nil => exact Gives.pure hi
  | cons t rest => exact Gives.throw _

end Context

/-! ### The two selections of an instruction -/

namespace Pending

variable (p : Pending) (t : SymbolTable)

theorem foresees_build : Foresees Context.SameForm (p.build none) (p.build (some t)) :=
  Context.foresees_select ⟨some t, p.scope, p.address⟩ p.mnemonic p.name p.operands

theorem build_canonical {symbols : Option SymbolTable} {i : Instruction}
    (h : p.build symbols = .ok i) : i.IsCanonical :=
  Context.gives_select_canonical _ p.mnemonic p.name p.operands i h

/-- A selection with symbols is foreseen by one without, of the same form. -/
theorem exists_build_none {i : Instruction} (h : p.build (some t) = .ok i) :
    ∃ j, p.build none = .ok j ∧ j.erase = i.erase := by
  have hf := p.foresees_build t
  rw [h] at hf
  cases hn : p.build none with
  | error e => rw [hn] at hf; exact hf.elim
  | ok j => rw [hn] at hf; exact ⟨j, rfl, hf⟩

/-- The length that the layout counts with is the length of the instruction in the end. -/
theorem length_build {i j : Instruction} (hj : p.build none = .ok j)
    (hi : p.build (some t) = .ok i) : i.bytes.length = j.bytes.length := by
  obtain ⟨j', hj', herase⟩ := p.exists_build_none t hi
  obtain rfl : j = j' := Except.ok.inj (hj.symm.trans hj')
  rw [← i.length_bytes_erase, ← j.length_bytes_erase, herase]

/-- **Both selections agree on the form**, for every instruction and every symbol table: a selection
with symbols succeeds only where the one without does; where the one without succeeds, the other
fails with a range or resolution error or gives the same form and length; so the length is the same
with every table. -/
theorem build_agrees (p : Pending) (t : SymbolTable) :
    ((∃ i, p.build (some t) = .ok i) → ∃ i, p.build none = .ok i) ∧
    (∀ i₁, p.build none = .ok i₁ →
      (∃ e, p.build (some t) = .error e ∧ (e.kind = .range ∨ e.kind = .resolution)) ∨
      ∃ i₂, p.build (some t) = .ok i₂ ∧ i₂.erase = i₁.erase ∧
        i₂.bytes.length = i₁.bytes.length) ∧
    ∀ t' i i', p.build (some t) = .ok i → p.build (some t') = .ok i' →
      i.bytes.length = i'.bytes.length := by
  refine ⟨?_, ?_, ?_⟩
  · rintro ⟨i, hi⟩
    obtain ⟨j, hj, -⟩ := p.exists_build_none t hi
    exact ⟨j, hj⟩
  · intro i₁ h₁
    cases h₂ : p.build (some t) with
    | error e =>
        have hf := p.foresees_build t
        rw [h₁, h₂] at hf
        exact Or.inl ⟨e, rfl, hf⟩
    | ok i₂ =>
        have hf := p.foresees_build t
        rw [h₁, h₂] at hf
        exact Or.inr ⟨i₂, rfl, hf.symm, p.length_build t h₁ h₂⟩
  · intro t' i i' hi hi'
    obtain ⟨j, hj, -⟩ := p.exists_build_none t hi
    rw [p.length_build t hj hi, p.length_build t' hj hi']

/-- A relative jump to the symbol END, at address 0x100. -/
def jumpToEnd : Pending :=
  ⟨.jr, ⟨.identifier, "JR", ⟨1, 1⟩, none⟩, [⟨.identifier, "END", ⟨1, 4⟩, none⟩], 0x100, none⟩

/-- The table in which END is the label of address 0x105. -/
def tableOfEnd : SymbolTable :=
  (∅ : SymbolTable).insert "END" ⟨.label, .value 0x105, ⟨.globalLabel, "END:", ⟨3, 1⟩, none⟩⟩

/-- The layout knows the form of the jump, and the table adds the way. -/
theorem build_agrees_jumpToEnd :
    jumpToEnd.build none = .ok (.jumpRel none 0) ∧
    jumpToEnd.build (some tableOfEnd) = .ok (.jumpRel none 3) ∧
    (Instruction.jumpRel none 3).erase = (Instruction.jumpRel none 0).erase ∧
    (Instruction.jumpRel none 3).bytes.length = (Instruction.jumpRel none 0).bytes.length := by
  have hnone : jumpToEnd.build none = .ok (.jumpRel none 0) := by rfl
  have hvalue : (jumpToEnd.build (some tableOfEnd)).toOption = some (.jumpRel none 3) := by
    decide +kernel
  have hsome : jumpToEnd.build (some tableOfEnd) = .ok (.jumpRel none 3) := by
    cases h : jumpToEnd.build (some tableOfEnd) with
    | error e => rw [h] at hvalue; cases hvalue
    | ok i => rw [h] at hvalue; cases hvalue; rfl
  rcases (build_agrees jumpToEnd tableOfEnd).2.1 _ hnone with ⟨e, he, -⟩ | ⟨i, hi, hform⟩
  · rw [hsome] at he
    cases he
  · rw [hsome] at hi
    cases hi
    exact ⟨hnone, hsome, hform⟩

end Pending

end GameBoyAssembler
