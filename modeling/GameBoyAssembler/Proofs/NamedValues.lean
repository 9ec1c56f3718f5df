import GameBoyAssembler.Proofs.Aliases
import GameBoyAssembler.Proofs.Branches
import GameBoyAssembler.Proofs.SameWords

/-!
# A constant stands for its value

A number that is written out in an operand can be given a name instead, and an address in brackets a
name in brackets.  The two go different ways through the assembler: the value of the literal is at
hand, while the name has a shape that must be found out first, and a key that is looked up in the
table.  What comes out is the same, in every operand of every instruction, also where neither a number
nor a symbol has a place.  The relative jump is left out, as it takes a literal for the way and a
symbol for the target.

Main definitions:

* `Token.Names` — a token that names a symbol with a given value;
* `Token.GivenName` — a literal and a name that can stand in its place.

Main results:

* `Token.GivenName.takenAlike` — the two are taken alike;
* `Pending.build_with_names` — **an instruction is the same with names in place of its literals**.
-/

set_option relaxedAutoImplicit false
set_option autoImplicit false

namespace GameBoyAssembler

namespace Token

/-- The token is the name of a symbol that has the value `n`, alone or in brackets. -/
structure Names (u : Token) (table : SymbolTable) (scope : Option String) (n : Int) : Prop where
  kind : u.kind = .identifier
  not_literal : u.value = none
  not_register : isRegisterName u.text = false
  not_condition : Condition.ofName? u.text = none
  value : ∃ key, symbolKey scope u = .ok key ∧ table.value? key = some n

/-- The literal `t` can be given the name `u`, which has its value: a number a plain name, and an
address a name in brackets. -/
def GivenName (table : SymbolTable) (scope : Option String) (t u : Token) : Prop :=
  ∃ n, t.value = some n ∧ u.Names table scope n ∧
    (t.kind = .number ∧ u.isBracketed = false ∨ t.kind = .address ∧ u.isBracketed = true)

namespace GivenName

variable {table : SymbolTable} {scope : Option String} {t u : Token}

theorem shape (h : GivenName table scope t u) : Agrees Eq t.shape u.shape := by
  obtain ⟨n, -, hu, ⟨hkind, hbracketed⟩ | ⟨hkind, hbracketed⟩⟩ := h
  all_goals
    rw [shape_of_name hu.kind hu.not_register, hbracketed, Token.shape, hkind]
    exact rfl

theorem kind_ne_identifier (h : GivenName table scope t u) : t.kind ≠ .identifier := by
  obtain ⟨n, -, -, ⟨hkind, -⟩ | ⟨hkind, -⟩⟩ := h <;> simp [hkind]

/-- Neither is a pair for the stack. -/
theorem stackPair (h : GivenName table scope t u) : Agrees Eq t.stackPair u.stackPair := by
  have hpair : StackPair.ofName? u.text = none := by
    obtain ⟨n, -, hu, -⟩ := h
    have hregister := hu.not_register
    simp only [isRegisterName, Bool.or_eq_false_iff, Option.isSome_eq_false_iff,
      Option.isNone_iff_eq_none] at hregister
    exact hregister.1.1.1.2
  simp only [Token.stackPair, if_neg h.kind_ne_identifier, hpair, ite_self]
  refine h.shape.bind ?_
  rintro s _ rfl
  exact .throw rfl

/-- Neither is a condition. -/
theorem condition (h : GivenName table scope t u) : Agrees Eq t.condition u.condition := by
  have hnone : Condition.ofName? u.text = none := by
    obtain ⟨n, -, hu, -⟩ := h
    exact hu.not_condition
  simp only [Token.condition, if_neg h.kind_ne_identifier, hnone, ite_self]
  exact rfl

/-- Both have the same value. -/
theorem quantity (h : GivenName table scope t u) {c : Context} (hsymbols : c.symbols = some table)
    (hscope : c.scope = scope) :
    Agrees (fun q r => q.map Quantity.value = r.map Quantity.value) (c.quantity t)
      (c.quantity u) := by
  obtain ⟨n, hn, hu, -⟩ := h
  obtain ⟨key, hkey, hvalue⟩ := hu.value
  obtain ⟨x, hx, -⟩ := Option.bind_eq_some_iff.1 hvalue
  have hresolve : table.resolve key u = .ok (n, x.token) :=
    SymbolTable.resolve_eq_ok_iff.2 ⟨⟨x, hx, rfl⟩, hvalue⟩
  have ht : c.quantity t = .ok (some ⟨n, none⟩) := by rw [Context.quantity, hn]; rfl
  have hu' : c.quantity u = .ok (some ⟨n, some x.token⟩) := by
    rw [Context.quantity, hu.not_literal, shape_of_name hu.kind hu.not_register, hsymbols, hscope]
    cases u.isBracketed <;> simp [hkey, hresolve, bind, Except.bind, pure, Except.pure]
  rw [ht, hu']
  exact rfl

/-- **A literal and its name are taken alike.** -/
theorem takenAlike (h : GivenName table scope t u) {c : Context} (hsymbols : c.symbols = some table)
    (hscope : c.scope = scope) : TakenAlike (fun e f => e.kind = f.kind) c c t u where
  blame := fun _ _ _ _ hkind => hkind
  shape := h.shape
  stackPair := h.stackPair
  condition := h.condition
  isComma := by
    obtain ⟨n, -, hu, ⟨hkind, -⟩ | ⟨hkind, -⟩⟩ := h <;> simp [isComma, hkind, hu.kind]
  quantity := h.quantity hsymbols hscope

end GivenName

end Token

namespace Pending

/-- **An instruction is the same with names in place of its literals.**  If any of the numbers and
addresses among the operands are given names that have their values, the instruction is selected as
before, or it is refused with the same kind of error; a relative jump is excepted. -/
theorem build_with_names {p : Pending} (hjr : p.mnemonic ≠ .jr) {table : SymbolTable}
    {operands : List Token}
    (h : List.Forall₂ (fun t u => t = u ∨ t.GivenName table p.scope u) p.operands operands) :
    Agrees Eq (p.build (some table)) ({ p with operands }.build (some table)) := by
  refine Context.agrees_select_of_taken (h.imp ?_) hjr fun _ _ _ _ hkind => hkind
  rintro t u (rfl | htu)
  · have hsame : t.SameWord t := rfl
    exact (hsame.readAlike (.some (.refl table)) rfl).toTakenAlike
  · exact htu.takenAlike rfl rfl

/-- The instruction of the line `LDH (0xFF40), A`. -/
def storeToPort : Pending :=
  ⟨.ldh, ⟨.identifier, "LDH", ⟨2, 1⟩, none⟩,
    [⟨.address, "(0xFF40)", ⟨2, 5⟩, some 0xFF40⟩, ⟨.comma, ",", ⟨2, 13⟩, none⟩,
      ⟨.identifier, "A", ⟨2, 15⟩, none⟩], 0, none⟩

/-- The table in which PORT is the constant 0xFF40. -/
def tableOfPort : SymbolTable :=
  (∅ : SymbolTable).insert "PORT" ⟨.constant, .value 0xFF40, ⟨.identifier, "PORT", ⟨1, 1⟩, none⟩⟩

/-- The store to a port by its address is the store to an offset in the high page, and so is the store by
the name of the port. -/
theorem build_with_names_port :
    storeToPort.build (some tableOfPort) = .ok (.storeHigh 0x40) ∧
    { storeToPort with operands := ⟨.identifier, "(PORT)", ⟨2, 5⟩, none⟩
        :: storeToPort.operands.tail }.build (some tableOfPort) = .ok (.storeHigh 0x40) := by
  have hbuild : storeToPort.build (some tableOfPort) = .ok (.storeHigh 0x40) := rfl
  have hvalue : tableOfPort.value? "PORT" = some 0xFF40 := by decide +kernel
  have hnames : Token.Names ⟨.identifier, "(PORT)", ⟨2, 5⟩, none⟩ tableOfPort none 0xFF40 :=
    ⟨rfl, rfl, rfl, rfl, "PORT", rfl, hvalue⟩
  have hagrees := build_with_names (p := storeToPort) (by decide)
    (.cons (.inr ⟨0xFF40, rfl, hnames, .inr ⟨rfl, rfl⟩⟩) (.cons (.inl rfl) (.cons (.inl rfl) .nil)))
  rw [hbuild] at hagrees
  obtain ⟨i, hi, rfl⟩ := hagrees.of_ok
  exact ⟨hbuild, hi⟩

end Pending

end GameBoyAssembler
