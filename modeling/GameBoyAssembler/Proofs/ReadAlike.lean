import GameBoyAssembler.Layout
import Mathlib.Data.List.Forall2

/-!
# Operands that are read alike

Selecting an instruction reads its operands in a few ways only: by their shape, as a pair for the
stack, as a condition, as a comma, and by the number that they stand for.  Where two lists of operands
are read alike in all these ways, the same instruction is selected, or both selections fail with the
same kind of error.  Where the tokens stand in the source has no part in it, and neither does the way
in which a symbol table came to its values.  How closely errors are compared is left open, as long as
the tokens that they are about allow it: by their kind alone, or by their kind and their place.

The relative jump reads its operand in one more way: it tells a number that is written out from a
symbol.  Operands that differ in this alone are taken alike by all other instructions.

Main definitions:

* `AgreesUpTo`, `Agrees` — two outcomes with related results, or with related errors, and the case of
  errors of the same kind;
* `BlamedAlike` — two tokens with related errors about them;
* `TakenAlike`, `ReadAlike` — two operand tokens that are read alike by all instructions but the
  relative jump, and by all instructions.

Main results:

* `Context.agrees_select` — **operands that are read alike select the same instruction**;
* `Context.agrees_select_of_taken` — the same of operands that are taken alike, without the relative
  jump.
-/

set_option relaxedAutoImplicit false
set_option autoImplicit false

namespace GameBoyAssembler

/-! ### Outcomes that agree -/

section Outcomes

variable {α β α' β' : Type}

/-- Both outcomes are results, related by `R`, or errors, related by `E`. -/
def AgreesUpTo (E : Error → Error → Prop) (R : α → β → Prop) :
    Except Error α → Except Error β → Prop
  | .ok a, .ok b => R a b
  | .error e, .error f => E e f
  | _, _ => False

/-- Both outcomes are results, related by `R`, or errors of the same kind. -/
abbrev Agrees (R : α → β → Prop) : Except Error α → Except Error β → Prop :=
  AgreesUpTo (fun e f => e.kind = f.kind) R

namespace AgreesUpTo

variable {E : Error → Error → Prop} {R : α → β → Prop} {S : α' → β' → Prop}

theorem pure {a : α} {b : β} (h : R a b) :
    AgreesUpTo E R (Pure.pure a : Except Error α) (Pure.pure b : Except Error β) := h

theorem throw {e f : Error} (h : E e f) :
    AgreesUpTo E R (MonadExcept.throw e : Except Error α) (MonadExcept.throw f : Except Error β) := h

theorem of_ok {a : α} {y : Except Error β} (h : AgreesUpTo E R (.ok a) y) :
    ∃ b, y = .ok b ∧ R a b := by
  cases y with
  | ok b => exact ⟨b, rfl, h⟩
  | error f => exact h.elim

theorem of_error {e : Error} {y : Except Error β} (h : AgreesUpTo E R (.error e) y) :
    ∃ f, y = .error f ∧ E e f := by
  cases y with
  | ok b => exact h.elim
  | error f => exact ⟨f, rfl, h⟩

theorem cases {x : Except Error α} {y : Except Error β} (h : AgreesUpTo E R x y) :
    (∃ a b, x = .ok a ∧ y = .ok b ∧ R a b) ∨ ∃ e f, x = .error e ∧ y = .error f ∧ E e f := by
  cases x with
  | ok a =>
      obtain ⟨b, hy, hab⟩ := h.of_ok
      exact Or.inl ⟨a, b, rfl, hy, hab⟩
  | error e =>
      obtain ⟨f, hy, hef⟩ := h.of_error
      exact Or.inr ⟨e, f, rfl, hy, hef⟩

/-- Steps put together: the rest is compared from related results on. -/
theorem bind {x : Except Error α} {y : Except Error β} {f : α → Except Error α'}
    {g : β → Except Error β'} (h : AgreesUpTo E R x y)
    (hf : ∀ a b, R a b → AgreesUpTo E S (f a) (g b)) : AgreesUpTo E S (x >>= f) (y >>= g) := by
  rcases h.cases with ⟨a, b, rfl, rfl, hab⟩ | ⟨e, e', rfl, rfl, hee'⟩
  · exact hf a b hab
  · exact hee'

theorem map {x : Except Error α} {y : Except Error β} {f : α → α'} {g : β → β'}
    (h : AgreesUpTo E R x y) (hf : ∀ a b, R a b → S (f a) (g b)) :
    AgreesUpTo E S (x.map f) (y.map g) := by
  rcases h.cases with ⟨a, b, rfl, rfl, hab⟩ | ⟨e, e', rfl, rfl, hee'⟩
  · exact hf a b hab
  · exact hee'

theorem imp {R' : α → β → Prop} {x : Except Error α} {y : Except Error β} (h : AgreesUpTo E R x y)
    (hR : ∀ a b, R a b → R' a b) : AgreesUpTo E R' x y := by
  rcases h.cases with ⟨a, b, rfl, rfl, hab⟩ | ⟨e, f, rfl, rfl, hef⟩
  · exact hR a b hab
  · exact hef

theorem symm {R' : β → α → Prop} {x : Except Error α} {y : Except Error β} (h : AgreesUpTo E R x y)
    (hE : ∀ e f, E e f → E f e) (hR : ∀ a b, R a b → R' b a) : AgreesUpTo E R' y x := by
  rcases h.cases with ⟨a, b, rfl, rfl, hab⟩ | ⟨e, f, rfl, rfl, hef⟩
  · exact hR a b hab
  · exact hE e f hef

theorem trans {R' : β → α' → Prop} {R'' : α → α' → Prop} {x : Except Error α} {y : Except Error β}
    {z : Except Error α'} (h : AgreesUpTo E R x y) (h' : AgreesUpTo E R' y z)
    (hE : ∀ e f g, E e f → E f g → E e g) (hR : ∀ a b c, R a b → R' b c → R'' a c) :
    AgreesUpTo E R'' x z := by
  rcases h.cases with ⟨a, b, rfl, rfl, hab⟩ | ⟨e, f, rfl, rfl, hef⟩
  · obtain ⟨c, rfl, hbc⟩ := h'.of_ok
    exact hR a b c hab hbc
  · obtain ⟨g, rfl, hfg⟩ := h'.of_error
    exact hE e f g hef hfg

/-- Lists of steps agree if the steps do, one by one. -/
theorem mapM {f : α → Except Error α'} {g : β → Except Error β'} {as : List α} {bs : List β}
    (h : List.Forall₂ (fun a b => AgreesUpTo E S (f a) (g b)) as bs) :
    AgreesUpTo E (List.Forall₂ S) (as.mapM f) (bs.mapM g) := by
  induction h with
  | nil => exact .pure .nil
  | cons hab _ ih =>
      rw [List.mapM_cons, List.mapM_cons]
      refine hab.bind fun a b hab => ?_
      exact ih.bind fun as bs hs => .pure (.cons hab hs)

end AgreesUpTo

end Outcomes

/-! ### Operands that are read alike -/

/-- Errors about `t` and about `u` are related by `E` if their causes are of the same kind. -/
def BlamedAlike (E : Error → Error → Prop) (t u : Token) : Prop :=
  ∀ (cause cause' : Cause) (origin origin' : Option Span), cause.kind = cause'.kind →
    E ⟨cause, t.span, origin⟩ ⟨cause', u.span, origin'⟩

/-- The same complaint about both tokens. -/
theorem BlamedAlike.throw {α β : Type} {E : Error → Error → Prop} {R : α → β → Prop} {t u : Token}
    (h : BlamedAlike E t u) {cause cause' : Cause} (hkind : cause.kind = cause'.kind) :
    AgreesUpTo E R (MonadExcept.throw (Error.about t cause))
      (MonadExcept.throw (Error.about u cause')) :=
  h cause cause' none none hkind

/-- The token `t` in the context `c` is taken like the token `u` in the context `d`, with errors
related by `E`. -/
structure TakenAlike (E : Error → Error → Prop) (c d : Context) (t u : Token) : Prop where
  blame : BlamedAlike E t u
  shape : AgreesUpTo E Eq t.shape u.shape
  stackPair : AgreesUpTo E Eq t.stackPair u.stackPair
  condition : AgreesUpTo E Eq t.condition u.condition
  isComma : t.isComma = u.isComma
  quantity : AgreesUpTo E (fun q r => q.map Quantity.value = r.map Quantity.value)
    (c.quantity t) (d.quantity u)

/-- The tokens are taken alike, and in a relative jump too. -/
structure ReadAlike (E : Error → Error → Prop) (c d : Context) (t u : Token) : Prop
    extends TakenAlike E c d t u where
  /-- A relative jump tells numbers that are written out from symbols. -/
  isLiteral : t.value.isSome = u.value.isSome

namespace TakenAlike

variable {E : Error → Error → Prop} {c d : Context} {t u dst dst' src src' : Token} {α : Type}

/-- What is done with a shape is done alike, if it agrees on every shape. -/
theorem bind_shape {β : Type} (h : TakenAlike E c d t u) {S : α → β → Prop}
    {f : Shape → Except Error α} {g : Shape → Except Error β} (hf : ∀ s, AgreesUpTo E S (f s) (g s)) :
    AgreesUpTo E S (t.shape >>= f) (u.shape >>= g) := by
  refine h.shape.bind ?_
  rintro s _ rfl
  exact hf s

theorem reg8 (h : TakenAlike E c d t u) : AgreesUpTo E Eq t.reg8 u.reg8 := by
  refine h.bind_shape fun s => ?_
  cases s with
  | reg8 r => exact .pure rfl
  | _ => exact h.blame.throw rfl

theorem reg16 (h : TakenAlike E c d t u) : AgreesUpTo E Eq t.reg16 u.reg16 := by
  refine h.bind_shape fun s => ?_
  cases s with
  | reg16 rr => exact .pure rfl
  | _ => exact h.blame.throw rfl

theorem expectA (h : TakenAlike E c d t u) : AgreesUpTo E Eq t.expectA u.expectA := by
  refine h.bind_shape fun s => ?_
  split
  · exact .pure rfl
  · exact h.blame.throw rfl

/-- A number passed through a rule. -/
theorem checked [OfNat α 0] (h : TakenAlike E c d t u) (rule : Int → Except Cause α) :
    AgreesUpTo E Eq (c.checked t rule) (d.checked u rule) := by
  refine h.quantity.bind fun q r hqr => ?_
  cases q with
  | none =>
      cases r with
      | none => exact .pure rfl
      | some r => cases hqr
  | some q =>
      cases r with
      | none => cases hqr
      | some r =>
          have hvalue : q.value = r.value := Option.some.inj hqr
          dsimp only
          rw [hvalue]
          cases rule r.value with
          | ok a => exact .pure rfl
          | error cause => exact h.blame _ _ _ _ rfl

/-- A number turned into an operand field. -/
theorem field (h : TakenAlike E c d t u) (w : Width) (field : Int → α) :
    AgreesUpTo E Eq (do return field (← c.number t w)) (do return field (← d.number u w)) := by
  refine (h.checked w.check).bind ?_
  rintro v _ rfl
  exact .pure rfl

/-! ### The families of mnemonics -/

theorem arithSource (h : TakenAlike E c d src src') (op : Arith) :
    AgreesUpTo E Eq (c.arithSource op src) (d.arithSource op src') := by
  refine h.bind_shape fun s => ?_
  cases s with
  | reg8 r => exact .pure rfl
  | immediate =>
      refine (h.field .either8 UInt8.ofInt).bind ?_
      rintro n _ rfl
      exact .pure rfl
  | _ => exact h.blame.throw rfl

theorem arithTo (hdst : TakenAlike E c d dst dst') (hsrc : TakenAlike E c d src src') (op : Arith) :
    AgreesUpTo E Eq (c.arithTo op dst src) (d.arithTo op dst' src') := by
  refine hdst.bind_shape fun s => ?_
  split
  · refine hsrc.reg16.bind ?_
    rintro rr _ rfl
    exact .pure rfl
  · refine (hsrc.field .signed8 Int8.ofInt).bind ?_
    rintro e _ rfl
    exact .pure rfl
  · exact hdst.expectA.bind fun _ _ _ => hsrc.arithSource op

theorem load (hdst : TakenAlike E c d dst dst') (hsrc : TakenAlike E c d src src') :
    AgreesUpTo E Eq (c.load dst src) (d.load dst' src') := by
  -- a load of A needs nothing more than A on the other side
  have haccumulator (i : Instruction) {t u : Token} (h : TakenAlike E c d t u) :
      AgreesUpTo E Eq (do t.expectA; return i) (do u.expectA; return i) :=
    h.expectA.bind fun _ _ _ => .pure rfl
  have hfield {α : Type} (w : Width) (field : Int → α) (i : α → Instruction) {t u : Token}
      (h : TakenAlike E c d t u) :
      AgreesUpTo E Eq (do return i (← (do return field (← c.number t w))))
        (do return i (← (do return field (← d.number u w)))) := by
    refine (h.field w field).bind ?_
    rintro n _ rfl
    exact .pure rfl
  refine hdst.bind_shape fun s => hsrc.bind_shape fun s' => ?_
  split
  · exact hsrc.blame.throw rfl
  · exact .pure rfl
  · exact hfield .either8 UInt8.ofInt _ hsrc
  · exact hfield .either16 UInt16.ofInt _ hsrc
  · exact .pure rfl
  · exact hfield .signed8 Int8.ofInt _ hsrc
  · exact hfield .unsigned16 UInt16.ofInt _ hdst
  · exact haccumulator _ hsrc
  · exact haccumulator _ hdst
  · exact hsrc.expectA.bind fun _ _ _ => hfield .unsigned16 UInt16.ofInt _ hdst
  · exact hdst.expectA.bind fun _ _ _ => hfield .unsigned16 UInt16.ofInt _ hsrc
  · exact haccumulator _ hsrc
  · exact haccumulator _ hdst
  · exact hdst.blame.throw rfl

theorem loadHighPage (hdst : TakenAlike E c d dst dst') (hsrc : TakenAlike E c d src src') :
    AgreesUpTo E Eq (c.loadHighPage dst src) (d.loadHighPage dst' src') := by
  have hoffset (i : UInt8 → Instruction) {t u : Token} (h : TakenAlike E c d t u) :
      AgreesUpTo E Eq (do return i (← c.highPageOffset t)) (do return i (← d.highPageOffset u)) := by
    refine (h.checked Context.highPageRule).bind ?_
    rintro n _ rfl
    exact .pure rfl
  refine hdst.bind_shape fun s => hsrc.bind_shape fun s' => ?_
  split
  · exact hsrc.expectA.bind fun _ _ _ => .pure rfl
  · exact hdst.expectA.bind fun _ _ _ => .pure rfl
  · exact hsrc.expectA.bind fun _ _ _ => hoffset _ hdst
  · exact hdst.expectA.bind fun _ _ _ => hoffset _ hsrc
  · exact hdst.blame.throw rfl

theorem loadStep (hdst : TakenAlike E c d dst dst') (hsrc : TakenAlike E c d src src') (p : Pointer) :
    AgreesUpTo E Eq (Context.loadStep p dst src) (Context.loadStep p dst' src') := by
  refine hdst.bind_shape fun s => hsrc.bind_shape fun s' => ?_
  split
  · exact hsrc.expectA.bind fun _ _ _ => .pure rfl
  · exact hdst.expectA.bind fun _ _ _ => .pure rfl
  · exact hdst.blame.throw rfl

theorem jumpTo (h : TakenAlike E c d t u) (cc : Option Condition) :
    AgreesUpTo E Eq (c.jumpTo cc t) (d.jumpTo cc u) := by
  refine h.bind_shape fun s => ?_
  split
  · exact .pure rfl
  · exact .pure rfl
  · refine (h.field .unsigned16 UInt16.ofInt).bind ?_
    rintro n _ rfl
    exact .pure rfl

theorem step (h : TakenAlike E c d t u) (byte : Reg8 → Instruction) (pair : Reg16 → Instruction) :
    AgreesUpTo E Eq (Context.step byte pair t) (Context.step byte pair u) := by
  refine h.bind_shape fun s => ?_
  cases s with
  | reg8 r => exact .pure rfl
  | reg16 rr => exact .pure rfl
  | _ => exact h.blame.throw rfl

end TakenAlike

/-- A relative jump goes the same way. -/
theorem ReadAlike.displacement {E : Error → Error → Prop} {c d : Context} {t u : Token}
    (h : ReadAlike E c d t u) (haddress : c.address = d.address) :
    AgreesUpTo E Eq (c.displacement t) (d.displacement u) := by
  have hliteral := h.isLiteral
  unfold Context.displacement
  cases ht : t.value with
  | none =>
      rw [ht, Option.isSome_none, eq_comm, Option.isSome_eq_false_iff, Option.isNone_iff_eq_none]
        at hliteral
      rw [hliteral, ← haddress]
      exact h.checked _
  | some v =>
      rw [ht, Option.isSome_some, eq_comm] at hliteral
      obtain ⟨v', hu⟩ := Option.isSome_iff_exists.1 hliteral
      rw [hu]
      exact h.field .signed8 Int8.ofInt

/-! ### Taking operands -/

section Operands

variable {E : Error → Error → Prop} {c d : Context} {R : Token → Token → Prop} {ts us : List Token}

/-- The tokens behind the operands are taken alike. -/
abbrev AlikeBehind (E : Error → Error → Prop) (c d : Context) : Rest → Rest → Prop :=
  List.Forall₂ (TakenAlike E c d)

theorem agrees_takeOne (h : List.Forall₂ R ts us) {last last' : Token}
    (hlast : BlamedAlike E last last') :
    AgreesUpTo E (fun x y => R x.1 y.1 ∧ List.Forall₂ R x.2 y.2) (takeOne last ts)
      (takeOne last' us) := by
  cases h with
  | nil => exact hlast.throw rfl
  | cons ht hts => exact ⟨ht, hts⟩

theorem agrees_takeTwo (h : List.Forall₂ (TakenAlike E c d) ts us) {last last' : Token}
    (hlast : BlamedAlike E last last') :
    AgreesUpTo E (fun x y => TakenAlike E c d x.1 y.1 ∧ TakenAlike E c d x.2.1 y.2.1 ∧
        AlikeBehind E c d x.2.2 y.2.2) (takeTwo last ts) (takeTwo last' us) := by
  refine (agrees_takeOne h hlast).bind ?_
  rintro ⟨first, ts⟩ ⟨first', us⟩ ⟨hfirst, hts⟩
  refine (agrees_takeOne hts hfirst.blame).bind ?_
  rintro ⟨comma, ts⟩ ⟨comma', us⟩ ⟨hcomma, hts⟩
  dsimp only
  rw [hcomma.isComma]
  split
  · exact hcomma.blame.throw rfl
  · refine (agrees_takeOne hts hcomma.blame).bind ?_
    rintro ⟨second, ts⟩ ⟨second', us⟩ ⟨hsecond, hts⟩
    exact .pure ⟨hfirst, hsecond, hts⟩

theorem isLongForm_eq (h : List.Forall₂ (TakenAlike E c d) ts us) : isLongForm ts = isLongForm us := by
  cases h with
  | nil => rfl
  | cons _ hts =>
      cases hts with
      | nil => rfl
      | cons ht _ => exact ht.isComma

/-- What is taken in front of a branch: the same condition, and targets related by `R`. -/
abbrev SameBranch (E : Error → Error → Prop) (c d : Context) (R : Token → Token → Prop)
    (x y : Option Condition × Token × Rest) : Prop :=
  x.1 = y.1 ∧ R x.2.1 y.2.1 ∧ AlikeBehind E c d x.2.2 y.2.2

/-- With a comma behind it, the first operand of a branch is read as a condition only. -/
theorem agrees_takeBranch_condition (hR : ∀ t u, R t u → TakenAlike E c d t u)
    {first first' comma comma' : Token}
    (hfirst : AgreesUpTo E Eq first.condition first'.condition) (hcomma : R comma comma')
    (hisComma : comma.isComma = true) (h : List.Forall₂ R ts us) (name name' : Token) :
    AgreesUpTo E (SameBranch E c d R) (takeBranch name (first :: comma :: ts))
      (takeBranch name' (first' :: comma' :: us)) := by
  have hisComma' : comma'.isComma = true := (hR _ _ hcomma).isComma ▸ hisComma
  unfold takeBranch
  dsimp only
  rw [if_pos hisComma, if_pos hisComma']
  refine hfirst.bind ?_
  rintro cc _ rfl
  refine (agrees_takeOne h (hR _ _ hcomma).blame).bind ?_
  rintro ⟨target, ts⟩ ⟨target', us⟩ ⟨htarget, hts⟩
  exact .pure ⟨rfl, htarget, hts.imp hR⟩

theorem agrees_takeBranch (hR : ∀ t u, R t u → TakenAlike E c d t u) (h : List.Forall₂ R ts us)
    {name name' : Token} (hname : BlamedAlike E name name') :
    AgreesUpTo E (SameBranch E c d R) (takeBranch name ts) (takeBranch name' us) := by
  cases h with
  | nil => exact hname.throw rfl
  | cons hfirst hts =>
      cases hts with
      | nil => exact .pure ⟨rfl, hfirst, .nil⟩
      | @cons comma comma' ts us hcomma hts =>
          cases hisComma : comma.isComma with
          | true =>
              exact agrees_takeBranch_condition hR (hR _ _ hfirst).condition hcomma hisComma hts name
                name'
          | false =>
              have hisComma' : comma'.isComma = false := (hR _ _ hcomma).isComma ▸ hisComma
              unfold takeBranch
              dsimp only
              rw [hisComma, hisComma']
              exact .pure ⟨rfl, hfirst, .cons (hR _ _ hcomma) (hts.imp hR)⟩

end Operands

/-! ### Selection -/

namespace Context

variable {E : Error → Error → Prop} {c d : Context} {R : Token → Token → Prop} {ts us : List Token}

/-- The same instruction, with tokens behind it that are taken alike. -/
abbrev SameChoice (E : Error → Error → Prop) (c d : Context) (x y : Instruction × Rest) : Prop :=
  x.1 = y.1 ∧ AlikeBehind E c d x.2 y.2

/-- An instruction made from something that is read alike. -/
theorem agrees_choice {α : Type} {x y : Except Error α} (h : AgreesUpTo E Eq x y)
    (i : α → Instruction) {rest rest' : Rest} (hrest : AlikeBehind E c d rest rest') :
    AgreesUpTo E (SameChoice E c d) (do return (i (← x), rest)) (do return (i (← y), rest')) := by
  refine h.bind ?_
  rintro a _ rfl
  exact .pure ⟨rfl, hrest⟩

/-- Mnemonics with one operand. -/
theorem agrees_one {α : Type} {f g : Token → Except Error α} (i : α → Instruction)
    (h : List.Forall₂ (TakenAlike E c d) ts us) {name name' : Token}
    (hname : BlamedAlike E name name')
    (hfg : ∀ t u, TakenAlike E c d t u → AgreesUpTo E Eq (f t) (g u)) :
    AgreesUpTo E (SameChoice E c d) (do let (t, rest) ← takeOne name ts; return (i (← f t), rest))
      (do let (t, rest) ← takeOne name' us; return (i (← g t), rest)) := by
  refine (agrees_takeOne h hname).bind ?_
  rintro ⟨t, rest⟩ ⟨u, rest'⟩ ⟨htu, hrest⟩
  exact agrees_choice (hfg t u htu) i hrest

/-- Mnemonics with two operands. -/
theorem agrees_two {f g : Token → Token → Except Error Instruction}
    (h : List.Forall₂ (TakenAlike E c d) ts us) {name name' : Token}
    (hname : BlamedAlike E name name')
    (hfg : ∀ dst dst' src src', TakenAlike E c d dst dst' → TakenAlike E c d src src' →
      AgreesUpTo E Eq (f dst src) (g dst' src')) :
    AgreesUpTo E (SameChoice E c d)
      (do let (dst, src, rest) ← takeTwo name ts; return (← f dst src, rest))
      (do let (dst, src, rest) ← takeTwo name' us; return (← g dst src, rest)) := by
  refine (agrees_takeTwo h hname).bind ?_
  rintro ⟨dst, src, rest⟩ ⟨dst', src', rest'⟩ ⟨hdst, hsrc, hrest⟩
  exact agrees_choice (hfg dst dst' src src' hdst hsrc) id hrest

/-- Branches. -/
theorem agrees_branch {α : Type} {f g : Option Condition → Token → Except Error α}
    (i : Option Condition → α → Instruction) {x y : Except Error (Option Condition × Token × Rest)}
    (h : AgreesUpTo E (SameBranch E c d R) x y)
    (hfg : ∀ cc t u, R t u → AgreesUpTo E Eq (f cc t) (g cc u)) :
    AgreesUpTo E (SameChoice E c d)
      (do let (cc, target, rest) ← x; return (i cc (← f cc target), rest))
      (do let (cc, target, rest) ← y; return (i cc (← g cc target), rest)) := by
  refine h.bind ?_
  rintro ⟨cc, target, rest⟩ ⟨cc', target', rest'⟩ ⟨hcc, htarget, hrest⟩
  obtain rfl : cc = cc' := hcc
  exact agrees_choice (hfg cc target target' htarget) (i cc) hrest

/-- All mnemonics but the relative jump. -/
theorem agrees_selectFront_of_taken (h : List.Forall₂ (TakenAlike E c d) ts us) {mnemonic : Mnemonic}
    (hjr : mnemonic ≠ .jr) {name name' : Token} (hname : BlamedAlike E name name') :
    AgreesUpTo E (SameChoice E c d) (c.selectFront mnemonic name ts)
      (d.selectFront mnemonic name' us) := by
  have htake := agrees_takeBranch (fun _ _ htu => htu) h hname
  cases mnemonic with
  | implied op => exact .pure ⟨rfl, h⟩
  | arith op =>
      unfold selectFront
      dsimp only
      rw [isLongForm_eq h]
      split
      · exact agrees_two h hname fun _ _ _ _ hdst hsrc => hdst.arithTo hsrc op
      · exact agrees_one id h hname fun _ _ ht => ht.arithSource op
  | inc | dec => exact agrees_one id h hname fun _ _ ht => ht.step _ _
  | bit op =>
      refine (agrees_takeTwo h hname).bind ?_
      rintro ⟨index, reg, rest⟩ ⟨index', reg', rest'⟩ ⟨hindex, hreg, hrest⟩
      refine hreg.reg8.bind ?_
      rintro r _ rfl
      exact agrees_choice (hindex.field .bitIndex UInt8.ofInt) (.bit op · r) hrest
  | rotate op => exact agrees_one (.rotate op) h hname fun _ _ ht => ht.reg8
  | jp => exact agrees_branch (fun _ i => i) htake fun cc _ _ ht => ht.jumpTo cc
  | jr => exact absurd rfl hjr
  | call => exact agrees_branch .call htake fun _ _ _ ht => ht.field .unsigned16 UInt16.ofInt
  | ret =>
      cases h with
      | nil => exact .pure ⟨rfl, .nil⟩
      | cons ht hts => exact agrees_choice ht.condition .retIf hts
  | rst => exact agrees_one .restart h hname fun _ _ ht => ht.checked restartRule
  | ld => exact agrees_two h hname fun _ _ _ _ hdst hsrc => hdst.load hsrc
  | ldh => exact agrees_two h hname fun _ _ _ _ hdst hsrc => hdst.loadHighPage hsrc
  | ldi | ldd => exact agrees_two h hname fun _ _ _ _ hdst hsrc => hdst.loadStep hsrc _
  | push => exact agrees_one .push h hname fun _ _ ht => ht.stackPair
  | pop => exact agrees_one .pop h hname fun _ _ ht => ht.stackPair

theorem agrees_selectFront (haddress : c.address = d.address)
    (h : List.Forall₂ (ReadAlike E c d) ts us) (mnemonic : Mnemonic) {name name' : Token}
    (hname : BlamedAlike E name name') :
    AgreesUpTo E (SameChoice E c d) (c.selectFront mnemonic name ts)
      (d.selectFront mnemonic name' us) := by
  by_cases hjr : mnemonic = .jr
  · subst hjr
    have htake := agrees_takeBranch (fun _ _ htu => htu.toTakenAlike) h hname
    exact agrees_branch .jumpRel htake fun _ _ _ ht => ht.displacement haddress
  · exact agrees_selectFront_of_taken (h.imp fun _ _ htu => htu.toTakenAlike) hjr hname

/-- The tokens behind the operands are refused alike. -/
theorem agrees_select_of_front {mnemonic : Mnemonic} {name name' : Token}
    (h : AgreesUpTo E (SameChoice E c d) (c.selectFront mnemonic name ts)
      (d.selectFront mnemonic name' us)) :
    AgreesUpTo E Eq (c.select mnemonic name ts) (d.select mnemonic name' us) := by
  refine h.bind ?_
  rintro ⟨i, rest⟩ ⟨j, rest'⟩ ⟨hij, hrest⟩
  cases hrest with
  | nil => exact .pure hij
  | cons ht _ => exact ht.blame.throw rfl

/-- **Operands that are read alike select the same instruction.** -/
theorem agrees_select (haddress : c.address = d.address) (h : List.Forall₂ (ReadAlike E c d) ts us)
    (mnemonic : Mnemonic) {name name' : Token} (hname : BlamedAlike E name name') :
    AgreesUpTo E Eq (c.select mnemonic name ts) (d.select mnemonic name' us) :=
  agrees_select_of_front (agrees_selectFront haddress h mnemonic hname)

/-- **Operands that are taken alike select the same instruction**, other than a relative jump. -/
theorem agrees_select_of_taken (h : List.Forall₂ (TakenAlike E c d) ts us) {mnemonic : Mnemonic}
    (hjr : mnemonic ≠ .jr) {name name' : Token} (hname : BlamedAlike E name name') :
    AgreesUpTo E Eq (c.select mnemonic name ts) (d.select mnemonic name' us) :=
  agrees_select_of_front (agrees_selectFront_of_taken h hjr hname)

end Context

end GameBoyAssembler
