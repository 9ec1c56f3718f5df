import GameBoyAssembler.Layout

/-!
# What an error is about

An error points at a token, and sometimes also at the definition that a value comes from.  Selecting
an instruction reads the mnemonic, the tokens behind it and, through the symbol table, the tokens that
defined a symbol or named it in an alias.  Whatever goes wrong, the error is about one of these tokens
and never about a place where no token stands.

As every function that reads operands is a chain of steps, this is shown along the chain: `Reads`
says of one step what its error is about and what its result is, and `Reads.bind` puts steps together.

Main definitions:

* `Error.IsAbout` — an error about a token of one class, with a reference to a token of another;
* `Reads` — a step whose error is about such tokens and whose result satisfies a predicate;
* `SymbolTable.TokensIn` — the classes that hold the tokens of a symbol table.

Main results:

* `Context.reads_select` — **an error of a selection is about one of the tokens that were read**;
* `Pending.isAbout_of_build_none` — without symbols, it is about the mnemonic or a token behind it.
-/

set_option relaxedAutoImplicit false
set_option autoImplicit false

namespace GameBoyAssembler

/-- The error is about a token in `P`, and if it refers to a definition, to a token in `Q`. -/
structure Error.IsAbout (P Q : Token → Prop) (e : Error) : Prop where
  span : ∃ t, P t ∧ e.span = t.span
  reference : ∀ s, e.reference = some s → ∃ t, Q t ∧ s = t.span

theorem Error.isAbout_about {P Q : Token → Prop} {t : Token} (h : P t) (cause : Cause) :
    (Error.about t cause).IsAbout P Q :=
  ⟨⟨t, h, rfl⟩, nofun⟩

theorem Error.isAbout_referring {P Q : Token → Prop} {t : Token} (h : P t) (cause : Cause)
    {origin : Option Token} (ho : ∀ o, origin = some o → Q o) :
    (Error.referring t cause origin).IsAbout P Q := by
  refine ⟨⟨t, h, rfl⟩, ?_⟩
  intro s hs
  obtain ⟨o, rfl, rfl⟩ := Option.map_eq_some_iff.1 hs
  exact ⟨o, ho o rfl, rfl⟩

variable {α β : Type}

/-- Nothing is said of the result. -/
abbrev Any : α → Prop := fun _ => True

/-- The error of a step is about tokens in `P` and `Q`, and its result satisfies `R`. -/
def Reads (P Q : Token → Prop) (R : α → Prop) : Except Error α → Prop
  | .ok a => R a
  | .error e => e.IsAbout P Q

namespace Reads

variable {P Q : Token → Prop} {R : α → Prop} {S : β → Prop}

theorem pure {a : α} (h : R a) : Reads P Q R (Pure.pure a) := h

theorem throw {e : Error} (h : e.IsAbout P Q) : Reads P Q R (MonadExcept.throw e) := h

/-- Steps put together: what is known of the result is used in the rest. -/
theorem bind {x : Except Error α} {f : α → Except Error β} (hx : Reads P Q R x)
    (hf : ∀ a, R a → Reads P Q S (f a)) : Reads P Q S (x >>= f) := by
  cases x with
  | error e => exact hx
  | ok a => exact hf a hx

/-- A last step that only uses the result. -/
theorem map {x : Except Error α} (hx : Reads P Q R x) (f : α → β) :
    Reads P Q Any (do return f (← x)) :=
  hx.bind fun _ _ => trivial

theorem isAbout {x : Except Error α} (hx : Reads P Q R x) {e : Error} (h : x = .error e) :
    e.IsAbout P Q := by
  subst h
  exact hx

end Reads

variable {P Q : Token → Prop}

/-! ### Operands -/

namespace Token

variable {t : Token}

theorem reads_shape (ht : P t) : Reads P Q Any t.shape := by
  unfold shape
  split
  case h_6 => exact Error.isAbout_about ht _
  all_goals exact trivial

theorem reads_reg8 (ht : P t) : Reads P Q Any t.reg8 := by
  refine (reads_shape ht).bind fun shape _ => ?_
  cases shape with
  | reg8 r => exact trivial
  | _ => exact Error.isAbout_about ht _

theorem reads_reg16 (ht : P t) : Reads P Q Any t.reg16 := by
  refine (reads_shape ht).bind fun shape _ => ?_
  cases shape with
  | reg16 rr => exact trivial
  | _ => exact Error.isAbout_about ht _

theorem reads_expectA (ht : P t) : Reads P Q Any t.expectA := by
  refine (reads_shape ht).bind fun shape _ => ?_
  split
  · exact trivial
  · exact Error.isAbout_about ht _

theorem reads_stackPair (ht : P t) : Reads P Q Any t.stackPair := by
  simp only [stackPair]
  split
  · exact trivial
  · exact (reads_shape ht).bind fun shape _ => Reads.throw (Error.isAbout_about ht _)

theorem reads_condition (ht : P t) : Reads P Q Any t.condition := by
  simp only [condition]
  split
  · exact trivial
  · exact Error.isAbout_about ht _

end Token

theorem reads_symbolKey {t : Token} (ht : P t) (scope : Option String) :
    Reads P Q Any (symbolKey scope t) := by
  unfold symbolKey
  split
  · split
    · exact trivial
    · exact Error.isAbout_about ht _
  · exact trivial

namespace SymbolTable

/-- The tokens that defined a symbol are in `Q`, and those that name the target of an alias in
`P`. -/
def TokensIn (P Q : Token → Prop) (table : SymbolTable) : Prop :=
  ∀ (key : String) (symbol : Symbol), table[key]? = some symbol →
    Q symbol.token ∧ ∀ k t, symbol.meaning = .sameAs k t → P t

variable {table : SymbolTable}

theorem TokensIn.chaseSteps (h : table.TokensIn P Q) {steps : Nat} {symbol : Symbol}
    (hsymbol : ∀ k t, symbol.meaning = .sameAs k t → P t) {missing : String} {token : Token}
    (hchase : table.chaseSteps steps symbol = .error (.unbound missing token)) : P token := by
  -- along the chain: every symbol behind the first is one of the table
  induction steps generalizing symbol with
  | zero => cases hchase
  | succ steps ih =>
      rw [SymbolTable.chaseSteps] at hchase
      split at hchase
      · cases hchase
      · rename_i key t hmeaning
        split at hchase
        · rename_i target htarget
          exact ih (h key target htarget).2 hchase
        · cases hchase
          exact hsymbol _ _ hmeaning

theorem TokensIn.reads_resolve (h : table.TokensIn P Q) (key : String) {t : Token} (ht : P t) :
    Reads P Q (fun r => Q r.2) (table.resolve key t) := by
  unfold resolve
  split
  · exact Error.isAbout_about ht _
  · rename_i symbol hsymbol
    obtain ⟨htoken, halias⟩ := h key symbol hsymbol
    split
    · exact htoken
    · rename_i hchase
      exact Error.isAbout_about (h.chaseSteps halias hchase) _
    · refine Error.isAbout_referring ht _ ?_
      rintro _ ⟨⟩
      exact htoken

end SymbolTable

namespace Context

variable {c : Context} (hc : ∀ table, c.symbols = some table → table.TokensIn P Q) {t : Token}

include hc

theorem reads_quantity (ht : P t) :
    Reads P Q (fun q => ∀ r, q = some r → ∀ o, r.origin = some o → Q o) (c.quantity t) := by
  unfold quantity
  split
  · refine Reads.pure ?_
    rintro _ ⟨⟩ _ ⟨⟩
  · refine (Token.reads_shape ht).bind fun shape _ => ?_
    cases shape with
    | immediate | memory =>
        refine (reads_symbolKey ht c.scope).bind fun key _ => ?_
        split
        · exact Reads.pure nofun
        · rename_i table htable
          refine ((hc table htable).reads_resolve key ht).bind fun r hr => ?_
          refine Reads.pure ?_
          rintro _ ⟨⟩ _ ⟨⟩
          exact hr
    | _ => exact Error.isAbout_about ht _

theorem reads_checked [OfNat α 0] (ht : P t) (rule : Int → Except Cause α) :
    Reads P Q Any (c.checked t rule) := by
  refine (reads_quantity hc ht).bind fun q hq => ?_
  cases q with
  | none => exact trivial
  | some q =>
      dsimp only
      split
      · exact trivial
      · exact Error.isAbout_referring ht _ (hq q rfl)

/-- A number turned into an operand field. -/
theorem reads_field (ht : P t) (w : Width) (field : Int → α) :
    Reads P Q Any (do return field (← c.number t w)) :=
  (reads_checked hc ht w.check).map _

theorem reads_displacement (ht : P t) : Reads P Q Any (c.displacement t) := by
  unfold displacement
  split
  · exact reads_field hc ht _ _
  · exact reads_checked hc ht _

/-! ### The families of mnemonics -/

theorem reads_arithSource (op : Arith) (ht : P t) : Reads P Q Any (c.arithSource op t) := by
  refine (Token.reads_shape ht).bind fun shape _ => ?_
  cases shape with
  | reg8 r => exact trivial
  | immediate => exact (reads_field hc ht _ _).map _
  | _ => exact Error.isAbout_about ht _

variable {dst src : Token}

theorem reads_arithTo (op : Arith) (hdst : P dst) (hsrc : P src) :
    Reads P Q Any (c.arithTo op dst src) := by
  refine (Token.reads_shape hdst).bind fun shape _ => ?_
  split
  · exact (Token.reads_reg16 hsrc).map _
  · exact (reads_field hc hsrc _ _).map _
  · exact (Token.reads_expectA hdst).bind fun _ _ => reads_arithSource hc op hsrc

theorem reads_load (hdst : P dst) (hsrc : P src) : Reads P Q Any (c.load dst src) := by
  refine (Token.reads_shape hdst).bind fun shape _ => ?_
  refine (Token.reads_shape hsrc).bind fun shape' _ => ?_
  split
  · exact Error.isAbout_about hsrc _
  · exact trivial
  · exact (reads_field hc hsrc _ _).map _
  · exact (reads_field hc hsrc _ _).map _
  · exact trivial
  · exact (reads_field hc hsrc _ _).map _
  · exact (reads_field hc hdst _ _).map _
  · exact (Token.reads_expectA hsrc).map _
  · exact (Token.reads_expectA hdst).map _
  · exact (Token.reads_expectA hsrc).bind fun _ _ => (reads_field hc hdst _ _).map _
  · exact (Token.reads_expectA hdst).bind fun _ _ => (reads_field hc hsrc _ _).map _
  · exact (Token.reads_expectA hsrc).map _
  · exact (Token.reads_expectA hdst).map _
  · exact Error.isAbout_about hdst _

theorem reads_loadHighPage (hdst : P dst) (hsrc : P src) :
    Reads P Q Any (c.loadHighPage dst src) := by
  refine (Token.reads_shape hdst).bind fun shape _ => ?_
  refine (Token.reads_shape hsrc).bind fun shape' _ => ?_
  split
  · exact (Token.reads_expectA hsrc).map _
  · exact (Token.reads_expectA hdst).map _
  · exact (Token.reads_expectA hsrc).bind fun _ _ => (reads_checked hc hdst _).map _
  · exact (Token.reads_expectA hdst).bind fun _ _ => (reads_checked hc hsrc _).map _
  · exact Error.isAbout_about hdst _

omit hc in
theorem reads_loadStep (p : Pointer) (hdst : P dst) (hsrc : P src) :
    Reads P Q Any (loadStep p dst src) := by
  refine (Token.reads_shape hdst).bind fun shape _ => ?_
  refine (Token.reads_shape hsrc).bind fun shape' _ => ?_
  split
  · exact (Token.reads_expectA hsrc).map _
  · exact (Token.reads_expectA hdst).map _
  · exact Error.isAbout_about hdst _

theorem reads_jumpTo (cc : Option Condition) (ht : P t) : Reads P Q Any (c.jumpTo cc t) := by
  refine (Token.reads_shape ht).bind fun shape _ => ?_
  split
  · exact trivial
  · exact trivial
  · exact (reads_field hc ht _ _).map _

omit hc in
theorem reads_step (byte : Reg8 → Instruction) (pair : Reg16 → Instruction) (ht : P t) :
    Reads P Q Any (step byte pair t) := by
  refine (Token.reads_shape ht).bind fun shape _ => ?_
  cases shape with
  | reg8 r => exact trivial
  | reg16 rr => exact trivial
  | _ => exact Error.isAbout_about ht _

end Context

/-! ### Taking operands -/

section Taking

variable {last : Token} {tokens : List Token} (hlast : P last) (htokens : ∀ t ∈ tokens, P t)

include hlast htokens

theorem reads_takeOne :
    Reads P Q (fun r => P r.1 ∧ ∀ t ∈ r.2, P t) (takeOne last tokens) := by
  cases tokens with
  | nil => exact Error.isAbout_about hlast _
  | cons t rest => exact List.forall_mem_cons.1 htokens

theorem reads_takeTwo :
    Reads P Q (fun r => P r.1 ∧ P r.2.1 ∧ ∀ t ∈ r.2.2, P t) (takeTwo last tokens) := by
  refine (reads_takeOne hlast htokens).bind fun ⟨first, rest⟩ ⟨hfirst, hrest⟩ => ?_
  refine (reads_takeOne hfirst hrest).bind fun ⟨comma, rest⟩ ⟨hcomma, hrest⟩ => ?_
  dsimp only
  split
  · exact Error.isAbout_about hcomma _
  · refine (reads_takeOne hcomma hrest).bind fun ⟨second, rest⟩ ⟨hsecond, hrest⟩ => ?_
    exact Reads.pure ⟨hfirst, hsecond, hrest⟩

theorem reads_takeBranch :
    Reads P Q (fun r => P r.2.1 ∧ ∀ t ∈ r.2.2, P t) (takeBranch last tokens) := by
  unfold takeBranch
  split
  · rename_i first comma rest
    obtain ⟨hfirst, hrest⟩ := List.forall_mem_cons.1 htokens
    obtain ⟨hcomma, hrest'⟩ := List.forall_mem_cons.1 hrest
    split
    · refine (Token.reads_condition hfirst).bind fun cc _ => ?_
      exact (reads_takeOne hcomma hrest').bind fun r hr => Reads.pure hr
    · exact Reads.pure ⟨hfirst, hrest⟩
  · exact (reads_takeOne hlast htokens).bind fun r hr => Reads.pure hr

end Taking

/-! ### Selection -/

namespace Context

variable {c : Context} (hc : ∀ table, c.symbols = some table → table.TokensIn P Q)
  {name : Token} {tokens : List Token} (hname : P name) (htokens : ∀ t ∈ tokens, P t)

include hc hname htokens

theorem reads_selectFront (mnemonic : Mnemonic) :
    Reads P Q (fun r => ∀ t ∈ r.2, P t) (c.selectFront mnemonic name tokens) := by
  have hone := reads_takeOne (Q := Q) hname htokens
  have htwo := reads_takeTwo (Q := Q) hname htokens
  have hbranch := reads_takeBranch (Q := Q) hname htokens
  cases mnemonic with
  | implied op => exact htokens
  | arith op =>
      unfold selectFront
      dsimp only
      split
      · exact htwo.bind fun ⟨dst, src, rest⟩ ⟨hdst, hsrc, hrest⟩ =>
          (reads_arithTo hc op hdst hsrc).bind fun _ _ => Reads.pure hrest
      · exact hone.bind fun ⟨src, rest⟩ ⟨hsrc, hrest⟩ =>
          (reads_arithSource hc op hsrc).bind fun _ _ => Reads.pure hrest
  | inc | dec =>
      exact hone.bind fun ⟨t, rest⟩ ⟨ht, hrest⟩ =>
        (reads_step _ _ ht).bind fun _ _ => Reads.pure hrest
  | bit op =>
      exact htwo.bind fun ⟨index, reg, rest⟩ ⟨hindex, hreg, hrest⟩ =>
        (Token.reads_reg8 hreg).bind fun _ _ =>
          (reads_field hc hindex _ _).bind fun _ _ => Reads.pure hrest
  | rotate op =>
      exact hone.bind fun ⟨t, rest⟩ ⟨ht, hrest⟩ =>
        (Token.reads_reg8 ht).bind fun _ _ => Reads.pure hrest
  | jp =>
      exact hbranch.bind fun ⟨cc, target, rest⟩ ⟨htarget, hrest⟩ =>
        (reads_jumpTo hc cc htarget).bind fun _ _ => Reads.pure hrest
  | jr =>
      exact hbranch.bind fun ⟨cc, target, rest⟩ ⟨htarget, hrest⟩ =>
        (reads_displacement hc htarget).bind fun _ _ => Reads.pure hrest
  | call =>
      exact hbranch.bind fun ⟨cc, target, rest⟩ ⟨htarget, hrest⟩ =>
        (reads_field hc htarget _ _).bind fun _ _ => Reads.pure hrest
  | ret =>
      cases tokens with
      | nil => exact Reads.pure (List.forall_mem_nil _)
      | cons t rest =>
          obtain ⟨ht, hrest⟩ := List.forall_mem_cons.1 htokens
          exact (Token.reads_condition ht).bind fun _ _ => Reads.pure hrest
  | rst =>
      exact hone.bind fun ⟨t, rest⟩ ⟨ht, hrest⟩ =>
        (reads_checked hc ht restartRule).bind fun _ _ => Reads.pure hrest
  | ld =>
      exact htwo.bind fun ⟨dst, src, rest⟩ ⟨hdst, hsrc, hrest⟩ =>
        (reads_load hc hdst hsrc).bind fun _ _ => Reads.pure hrest
  | ldh =>
      exact htwo.bind fun ⟨dst, src, rest⟩ ⟨hdst, hsrc, hrest⟩ =>
        (reads_loadHighPage hc hdst hsrc).bind fun _ _ => Reads.pure hrest
  | ldi | ldd =>
      exact htwo.bind fun ⟨dst, src, rest⟩ ⟨hdst, hsrc, hrest⟩ =>
        (reads_loadStep _ hdst hsrc).bind fun _ _ => Reads.pure hrest
  | push | pop =>
      exact hone.bind fun ⟨t, rest⟩ ⟨ht, hrest⟩ =>
        (Token.reads_stackPair ht).bind fun _ _ => Reads.pure hrest

/-- **An error of a selection is about one of the tokens that were read.** -/
theorem reads_select (mnemonic : Mnemonic) :
    Reads P Q Any (c.select mnemonic name tokens) := by
  refine (reads_selectFront hc hname htokens mnemonic).bind ?_
  rintro ⟨i, rest⟩ hrest
  cases rest with
  | nil => exact trivial
  | cons t rest => exact Error.isAbout_about (hrest t List.mem_cons_self) _

end Context

/-- An error that comes up before symbols are known is about the mnemonic or a token behind it. -/
theorem Pending.isAbout_of_build_none {q : Pending} {e : Error} (h : q.build none = .error e) :
    e.IsAbout (· ∈ q.name :: q.operands) Q := by
  refine (Context.reads_select ?_ List.mem_cons_self ?_ q.mnemonic).isAbout h
  · rintro _ ⟨⟩
  · intro t ht
    exact List.mem_cons_of_mem _ ht

end GameBoyAssembler
