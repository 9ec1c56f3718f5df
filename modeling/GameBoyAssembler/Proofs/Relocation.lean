import GameBoyAssembler.Proofs.Branches
import GameBoyAssembler.Proofs.ConstantOrder
import GameBoyAssembler.Proofs.OneNumber

/-!
# Relocation

The base comes into a layout only by the addresses of instructions and the values of labels.  Two
layouts of the same lines keep the distance of their bases there, statement by statement, and are alike
in all else; a statement that has room in one of them may find none in the other.  In the end a chain of
aliases leads to the same symbol in both tables, so that every value is moved or stays.  A relative
jump to a label is moved together with its target, and the way between them is the same.

Main definitions:

* `Follows` — an outcome that succeeds where another one does, unless it has an excuse;
* `Symbol.shift`, `SymbolTable.Shifted` — labels moved by a distance;
* `Layout.Shifted` — a layout whose last instructions are those of another one, moved.

Main results:

* `Layout.Shifted.add`, `Layout.Shifted.untilError` — what a statement and what lines do to a layout
  that is moved;
* `SymbolTable.Shifted.value?` — the value of a key in a table with moved labels;
* `Program.relocation` — **a program at another base**.
-/

set_option relaxedAutoImplicit false
set_option autoImplicit false

namespace GameBoyAssembler

/-! ### Outcomes that follow others -/

section Outcomes

variable {α β α' β' : Type} {excuse : Prop} {R : α → β → Prop} {S : α' → β' → Prop}

/-- If `x` is a result then `y` is one that is related to it, or `y` is an error with an excuse. -/
def Follows (excuse : Prop) (R : α → β → Prop) (x : Except Error α) (y : Except Error β) : Prop :=
  ∀ a, x = .ok a → (∃ b, y = .ok b ∧ R a b) ∨ excuse ∧ ∃ e, y = .error e

namespace Follows

theorem ok {a : α} {b : β} (h : R a b) : Follows excuse R (.ok a) (.ok b) := by
  rintro _ ⟨⟩
  exact Or.inl ⟨b, rfl, h⟩

theorem error (e : Error) (y : Except Error β) : Follows excuse R (.error e) y := by
  rintro _ ⟨⟩

/-- Steps put together: the rest is compared from related results on. -/
theorem bind {x : Except Error α} {y : Except Error β} {f : α → Except Error α'}
    {g : β → Except Error β'} (h : Follows excuse R x y)
    (hf : ∀ a b, R a b → Follows excuse S (f a) (g b)) :
    Follows excuse S (x >>= f) (y >>= g) := by
  intro a' ha'
  obtain ⟨a, ha, hfa⟩ := bind_eq_ok_iff.1 ha'
  rcases h a ha with ⟨b, hb, hab⟩ | ⟨hexcuse, e, he⟩
  · rw [hb]
    exact hf a b hab a' hfa
  · rw [he]
    exact Or.inr ⟨hexcuse, e, rfl⟩

theorem map {x : Except Error α} {y : Except Error β} {f : α → α'} {g : β → β'}
    (h : Follows excuse R x y) (hf : ∀ a b, R a b → S (f a) (g b)) :
    Follows excuse S (f <$> x) (g <$> y) := by
  rw [map_eq_pure_bind, map_eq_pure_bind]
  exact h.bind fun a b hab => ok (hf a b hab)

end Follows

end Outcomes

/-! ### Symbols that are moved -/

/-- The symbol with its value moved by `δ`, if it is a label. -/
def Symbol.shift (δ : Int) (x : Symbol) : Symbol :=
  match x.kind, x.meaning with
  | .label, .value v => { x with meaning := .value (v + δ) }
  | _, _ => x

theorem Symbol.shift_alias (δ : Int) {x : Symbol} {key : String} {t : Token}
    (h : x.meaning = .sameAs key t) : x.shift δ = x := by
  rw [shift, h]
  cases x.kind <;> rfl

theorem Symbol.meaning_shift (δ : Int) {x : Symbol} {v : Int} (h : x.meaning = .value v) :
    (x.shift δ).meaning = .value (if x.kind = .label then v + δ else v) := by
  obtain ⟨kind, meaning, token⟩ := x
  cases h
  cases kind <;> rfl

theorem Symbol.shift_zero (x : Symbol) : x.shift 0 = x := by
  obtain ⟨kind, meaning, token⟩ := x
  cases kind <;> cases meaning <;> simp [shift]

namespace SymbolTable

/-- The second table is the first one with its labels moved by `δ`. -/
def Shifted (δ : Int) (a b : SymbolTable) : Prop :=
  ∀ key : String, b[key]? = a[key]?.map (Symbol.shift δ)

namespace Shifted

variable {δ : Int} {a b : SymbolTable} (h : a.Shifted δ b)

include h

theorem insert (key : String) (x : Symbol) :
    Shifted δ (a.insert key x) (b.insert key (x.shift δ)) := by
  intro k
  rw [Std.TreeMap.getElem?_insert, Std.TreeMap.getElem?_insert]
  split
  · rfl
  · exact h k

theorem bind {excuse : Prop} (key : String) (x : Symbol) :
    Follows excuse (Shifted δ) (a.bind key x) (b.bind key (x.shift δ)) := by
  intro a' ha'
  obtain ⟨hkey, rfl⟩ := bind_ok_iff.1 ha'
  exact Or.inl ⟨_, bind_ok_iff.2 ⟨by rw [h key, hkey]; rfl, rfl⟩, h.insert key x⟩

theorem mem_iff (key : String) : key ∈ a ↔ key ∈ b := by
  rw [Std.TreeMap.mem_iff_isSome_getElem?, Std.TreeMap.mem_iff_isSome_getElem?, h key,
    Option.isSome_map]

/-- A chain leads to the same symbol, moved if it is a label. -/
theorem leads {n : Nat} {key : String} {x : Symbol} (hkey : a.Leads n key x) :
    b.Leads n key (x.shift δ) := by
  induction hkey with
  | value hx hmeaning =>
      exact .value (by rw [h, hx]; rfl) (Symbol.meaning_shift δ hmeaning)
  | via hx hmeaning _ ih =>
      refine .via ?_ hmeaning ih
      rw [h, hx, Option.map_some, Symbol.shift_alias δ hmeaning]

/-- **A value is moved if its chain ends at a label**, and else it stays. -/
theorem value? {key : String} {x : Symbol} (hkey : a.EndsAt key x) :
    ∃ v, a.value? key = some v ∧
      b.value? key = some (if x.kind = .label then v + δ else v) := by
  obtain ⟨n, hn⟩ := hkey
  obtain ⟨v, hv⟩ := hn.exists_value
  exact ⟨v, value?_eq_some_iff.2 ⟨x, ⟨n, hn⟩, hv⟩,
    value?_eq_some_iff.2 ⟨x.shift δ, ⟨n, h.leads hn⟩, Symbol.meaning_shift δ hv⟩⟩

end Shifted

end SymbolTable

/-! ### Layouts that are moved -/

/-- The second instruction is the first one moved by `δ`, in a scope with the same local labels. -/
structure Pending.Shifted (δ : Int) (p q : Pending) : Prop where
  mnemonic : q.mnemonic = p.mnemonic
  name : q.name = p.name
  operands : q.operands = p.operands
  address : (q.address.toNat : Int) = p.address.toNat + δ
  scope : ScopeWithin p.scope q.scope

namespace Layout

/-- The second layout has the instructions of the first one behind those of `front`, moved by `δ`, and
its labels moved as well. -/
structure Shifted (δ : Int) (front : List Pending) (l m : Layout) : Prop where
  address : (m.address : Int) = l.address + δ
  scope : ScopeWithin l.scope m.scope
  symbols : l.symbols.Shifted δ m.symbols
  pending : ∃ qs, m.pending.toList = front ++ qs ∧
    List.Forall₂ (Pending.Shifted δ) l.pending.toList qs

namespace Shifted

variable {δ : Int} {front : List Pending} {l m : Layout} (h : Shifted δ front l m)

include h

theorem bind (key : String) (x : Symbol) :
    Follows (δ ≠ 0) (Shifted δ front) (l.bind key x).result (m.bind key (x.shift δ)).result := by
  rw [result_bind, result_bind]
  exact (h.symbols.bind key x).map fun a b hab => ⟨h.address, h.scope, hab, h.pending⟩

theorem bindLabel (t : Token) :
    Follows (δ ≠ 0) (Shifted δ front) (l.bindLabel t).result (m.bindLabel t).result := by
  have hlabel : (⟨.label, .value m.address, t⟩ : Symbol)
      = Symbol.shift δ ⟨.label, .value l.address, t⟩ := by
    rw [h.address]
    rfl
  unfold Layout.bindLabel
  cases hkey : symbolKey l.scope t with
  | error e => exact .error e _
  | ok key =>
      simp only [h.scope.symbolKey hkey, hlabel]
      exact h.bind key _

theorem defineLabel (t : Token) :
    Follows (δ ≠ 0) (Shifted δ front) (l.defineLabel t).result (m.defineLabel t).result := by
  unfold Layout.defineLabel
  split
  · dsimp only
    split
    · exact .error _ _
    · have hscope : Shifted δ front { l with scope := some (withoutColons t.text) }
          { m with scope := some (withoutColons t.text) } :=
        ⟨h.address, Or.inr rfl, h.symbols, h.pending⟩
      exact hscope.bindLabel t
  · exact h.bindLabel t

theorem defineConstant (name : Token) (value : ConstantValue) :
    Follows (δ ≠ 0) (Shifted δ front) (l.defineConstant name value).result
      (m.defineConstant name value).result := by
  cases value with
  | number v => exact h.bind name.text ⟨.constant, .value v, name⟩
  | symbol t =>
      simp only [Layout.defineConstant]
      cases hkey : symbolKey l.scope t with
      | error e => exact .error e _
      | ok key =>
          simp only [h.scope.symbolKey hkey]
          exact h.bind name.text ⟨.constant, .sameAs key t, name⟩

theorem push {p q : Pending} (hpq : p.Shifted δ q) (length : Nat) :
    Shifted δ front { l with pending := l.pending.push p, address := l.address + length }
      { m with pending := m.pending.push q, address := m.address + length } := by
  have haddress := h.address
  obtain ⟨qs, hfront, hqs⟩ := h.pending
  refine ⟨?_, h.scope, h.symbols, qs ++ [q], ?_, ?_⟩
  · dsimp only
    omega
  · rw [Array.toList_push, hfront, List.append_assoc]
  · rw [Array.toList_push]
    exact List.rel_append hqs (.cons hpq .nil)

/-- An instruction that has room in both layouts is put behind the others in both. -/
theorem place (mnemonic : Mnemonic) (name : Token) (operands : List Token) :
    Follows (δ ≠ 0) (Shifted δ front) (l.place mnemonic name operands).result
      (m.place mnemonic name operands).result := by
  simp only [Layout.place]
  cases hi : Pending.build ⟨mnemonic, name, operands, UInt16.ofNat l.address, l.scope⟩ none with
  | error e => exact .error e _
  | ok i =>
      -- the length is found without symbols, so neither the scope nor the address has a part in it
      have hwithin : Context.Within ⟨none, l.scope, UInt16.ofNat l.address⟩
          ⟨none, m.scope, UInt16.ofNat m.address⟩ := ⟨h.scope, Or.inl ⟨rfl, rfl⟩⟩
      have hi' : Pending.build ⟨mnemonic, name, operands, UInt16.ofNat m.address, m.scope⟩ none
          = .ok i := hwithin.select hi
      have haddress := h.address
      have hpos := i.length_bytes_pos
      rw [i.length_bytes] at hpos
      simp only [hi']
      generalize instructionLength i.opcode.firstByte = length at hpos ⊢
      by_cases hl : addressSpace < l.address + length
      · simp only [if_pos hl]
        exact .error _ _
      · by_cases hm : addressSpace < m.address + length
        · simp only [if_neg hl, if_pos hm]
          intro _ _
          exact Or.inr ⟨by omega, _, rfl⟩
        · simp only [if_neg hl, if_neg hm]
          refine .ok (h.push ?_ length)
          refine ⟨rfl, rfl, rfl, ?_, h.scope⟩
          simp only [UInt16.toNat_ofNat', addressSpace] at *
          omega

theorem addBody (body : Body) :
    Follows (δ ≠ 0) (Shifted δ front) (l.addBody body).result (m.addBody body).result := by
  cases body with
  | empty => exact .ok h
  | constant name value trailing =>
      simp only [Layout.addBody, Step.result_andThen]
      refine (h.defineConstant name value).bind fun l m h => ?_
      cases trailing with
      | none => exact .ok h
      | some e => exact .error e _
  | instruction mnemonic name operands => exact h.place mnemonic name operands

/-- **What a statement does to a layout that is moved.** -/
theorem add (s : Statement) :
    Follows (δ ≠ 0) (Shifted δ front) (l.add s).result (m.add s).result := by
  obtain ⟨label, body⟩ := s
  simp only [Layout.add, Step.result_andThen]
  refine Follows.bind (R := Shifted δ front) ?_ fun l m h => ?_
  · cases label with
    | none => exact .ok h
    | some t => exact h.defineLabel t
  · cases body with
    | error e => exact .error e _
    | ok body => exact h.addBody body

/-- **What lines do to a layout that is moved.** -/
theorem untilError (lines : List Line) :
    Follows (δ ≠ 0) (Shifted δ front) (l.untilError lines) (m.untilError lines) := by
  induction lines generalizing l m with
  | nil => exact .ok h
  | cons line lines ih =>
      rw [untilError_cons, untilError_cons]
      exact (h.add line.statement).bind fun _ _ h => ih h

end Shifted

theorem shifted_start (base base' : UInt16) :
    Shifted ((base'.toNat : Int) - base.toNat) [] (start base) (start base') := by
  refine ⟨?_, Or.inr rfl, fun key => ?_, [], rfl, .nil⟩
  · simp only [start]
    omega
  · simp only [start, Std.TreeMap.getElem?_emptyc, Option.map_none]

end Layout

/-! ### Instructions that are moved -/

namespace Pending.Shifted

variable {δ : Int} {p q : Pending} (h : p.Shifted δ q) {a b : Assembled} {s s' : SymbolTable}

include h

theorem build_none {i : Instruction} (hi : p.build none = .ok i) : q.build none = .ok i := by
  have hwithin : Context.Within ⟨none, p.scope, p.address⟩ ⟨none, q.scope, q.address⟩ :=
    ⟨h.scope, Or.inl ⟨rfl, rfl⟩⟩
  rw [build, h.mnemonic, h.name, h.operands]
  exact hwithin.select hi

theorem erase_eq (ha : p.resolve s = .ok a) (hb : q.resolve s' = .ok b) :
    a.instruction.erase = b.instruction.erase := by
  obtain ⟨i, hi, hia⟩ := p.exists_build_none s (resolve_eq_ok ha).1
  obtain ⟨j, hj, hjb⟩ := q.exists_build_none s' (resolve_eq_ok hb).1
  obtain rfl := Except.ok.inj (hj.symm.trans (h.build_none hi))
  exact hia.symm.trans hjb

theorem length_eq (ha : p.resolve s = .ok a) (hb : q.resolve s' = .ok b) :
    a.instruction.bytes.length = b.instruction.bytes.length := by
  rw [← a.instruction.length_bytes_erase, h.erase_eq ha hb, b.instruction.length_bytes_erase]

theorem address_eq (ha : p.resolve s = .ok a) (hb : q.resolve s' = .ok b) :
    (b.address.toNat : Int) = a.address.toNat + δ := by
  rw [(resolve_eq_ok ha).2, (resolve_eq_ok hb).2]
  exact h.address

/-- A relative jump to a label is moved together with the label. -/
theorem jump_eq (hs : s.Shifted δ s') (ha : p.resolve s = .ok a) (hb : q.resolve s' = .ok b)
    (hjr : p.mnemonic = .jr) {t : Token} (hlast : p.operands.getLast? = some t)
    (ht : t.IsReference) (hvalue : t.value = none) {key : String}
    (hkey : symbolKey p.scope t = .ok key) {x : Symbol} (hx : s.EndsAt key x)
    (hlabel : x.kind = .label) : a.instruction = b.instruction := by
  have hform := h.erase_eq ha hb
  obtain ⟨cc, d, hi, k, hk, hv, -⟩ :=
    (target_of_build (resolve_eq_ok ha).1 hlast ht hvalue).2.2 hjr
  obtain ⟨cc', d', hi', k', hk', hv', -⟩ :=
    (target_of_build (resolve_eq_ok hb).1 (h.operands ▸ hlast) ht hvalue).2.2 (h.mnemonic ▸ hjr)
  -- both targets are the value of the key, in the one table and in the other
  obtain rfl : key = k := Except.ok.inj (hkey.symm.trans hk)
  obtain rfl : key = k' := Except.ok.inj ((h.scope.symbolKey hkey).symm.trans hk')
  obtain ⟨v, hvalue, hvalue'⟩ := hs.value? hx
  rw [if_pos hlabel] at hvalue'
  have htarget := Option.some.inj (hv.symm.trans hvalue)
  have htarget' := Option.some.inj (hv'.symm.trans hvalue')
  have haddress := h.address
  have hway : d = d' := Int8.toInt_inj.1 (by omega)
  rw [hi, hi'] at hform
  obtain ⟨rfl, -⟩ := Instruction.jumpRel.inj hform
  rw [hi, hi', hway]

end Pending.Shifted

/-! ### Programs -/

theorem exists_getElem?_of_forall₂ {α β : Type} {R : α → β → Prop} {as : List α} {bs : List β}
    (h : List.Forall₂ R as bs) {k : Nat} {b : β} (hb : bs[k]? = some b) :
    ∃ a, as[k]? = some a ∧ R a b := by
  induction h generalizing k with
  | nil => cases hb
  | cons hab _ ih =>
      cases k with
      | zero =>
          cases hb
          exact ⟨_, rfl, hab⟩
      | succ k => exact ih hb

namespace Program

/-- The two programs of a source have moved labels, and their instructions come from the same ones of
the source. -/
theorem exists_shifted {source : String} {base base' : UInt16} {p p' : Program}
    (h : assemble source base = .ok p) (h' : assemble source base' = .ok p') :
    p.symbols.Shifted ((base'.toNat : Int) - base.toNat) p'.symbols ∧
    p.instructions.length = p'.instructions.length ∧
    ∀ (k : Nat) (a b : Assembled), p.instructions[k]? = some a → p'.instructions[k]? = some b →
      ∃ q q' : Pending, (Written.ofSource source)[k]? = some q.written ∧
        q.Shifted ((base'.toNat : Int) - base.toNat) q' ∧
        q.resolve p.symbols = .ok a ∧ q'.resolve p'.symbols = .ok b := by
  obtain ⟨l, hl, has, hsymbols⟩ := assemble_eq_ok_iff.1 h
  obtain ⟨l', hl', hbs, hsymbols'⟩ := assemble_eq_ok_iff.1 h'
  have hwritten : Written.ofSource source = l.pending.toList.map Pending.written :=
    (Layout.written_keepGoing hl).symm
  rcases (Layout.shifted_start base base').untilError _ l (Layout.untilError_eq_ok_iff.2 hl) with
    ⟨m, hm, hshifted⟩ | ⟨-, e, he⟩
  · rw [Layout.untilError_eq_ok_iff.2 hl'] at hm
    obtain rfl := Except.ok.inj hm
    obtain ⟨qs, hqs, hpending⟩ := hshifted.pending
    rw [List.nil_append] at hqs
    rw [← hqs] at hpending
    refine ⟨by rw [hsymbols, hsymbols']; exact hshifted.symbols, ?_, ?_⟩
    · rw [← has.length_eq, hpending.length_eq, hbs.length_eq]
    · intro k a b ha hb
      obtain ⟨q', hq', hqb⟩ := exists_getElem?_of_forall₂ hbs hb
      obtain ⟨q, hq, hqq⟩ := exists_getElem?_of_forall₂ hpending hq'
      have hqa := List.forall₂_zip has (List.mem_iff_getElem?.2 ⟨k, by
        rw [List.getElem?_zip_eq_some]
        exact ⟨hq, ha⟩⟩)
      refine ⟨q, q', ?_, hqq, by rw [hsymbols]; exact hqa, by rw [hsymbols']; exact hqb⟩
      rw [hwritten, List.getElem?_map, hq]
      rfl
  · rw [Layout.untilError_eq_ok_iff.2 hl'] at he
    cases he

/-- **A program at another base.**  Two programs of one source have the same number of instructions,
of the same lengths, and their addresses are the distance of the bases apart.  They bind the same keys.
A value whose chain of aliases ends at a label is moved by the distance, and one whose chain ends at a
constant stays.  A relative jump whose target is such a label is the same instruction in both. -/
theorem relocation {source : String} {base base' : UInt16} {p p' : Program}
    (h : assemble source base = .ok p) (h' : assemble source base' = .ok p') :
    p.instructions.length = p'.instructions.length ∧
    (∀ (k : Nat) (a b : Assembled), p.instructions[k]? = some a → p'.instructions[k]? = some b →
      a.instruction.bytes.length = b.instruction.bytes.length ∧
      (b.address.toNat : Int) = a.address.toNat + (base'.toNat - base.toNat)) ∧
    (∀ key : String, key ∈ p.symbols ↔ key ∈ p'.symbols) ∧
    (∀ (key : String) (x : Symbol), p.symbols.EndsAt key x →
      (x.kind = .label → ∃ v, p.symbols.value? key = some v ∧
        p'.symbols.value? key = some (v + (base'.toNat - base.toNat))) ∧
      (x.kind = .constant → ∃ v, p.symbols.value? key = some v ∧
        p'.symbols.value? key = some v)) ∧
    ∀ (k : Nat) (w : Written) (t : Token) (key : String) (x : Symbol) (a b : Assembled),
      (Written.ofSource source)[k]? = some w → w.mnemonic = .jr →
      w.operands.getLast? = some t → t.IsReference → symbolKey w.scope t = .ok key →
      p.symbols.EndsAt key x → x.kind = .label →
      p.instructions[k]? = some a → p'.instructions[k]? = some b →
      a.instruction = b.instruction := by
  obtain ⟨hsymbols, hlength, hinstructions⟩ := exists_shifted h h'
  refine ⟨hlength, ?_, hsymbols.mem_iff, ?_, ?_⟩
  · intro k a b ha hb
    obtain ⟨q, q', -, hq, hqa, hqb⟩ := hinstructions k a b ha hb
    exact ⟨hq.length_eq hqa hqb, hq.address_eq hqa hqb⟩
  · intro key x hx
    obtain ⟨v, hv, hv'⟩ := hsymbols.value? hx
    constructor
    · intro hkind
      rw [if_pos hkind] at hv'
      exact ⟨v, hv, hv'⟩
    · intro hkind
      rw [if_neg (by rw [hkind]; decide)] at hv'
      exact ⟨v, hv, hv'⟩
  · intro k w t key x a b hw hjr hlast ht hkey hx hlabel ha hb
    obtain ⟨q, q', hwritten, hq, hqa, hqb⟩ := hinstructions k a b ha hb
    obtain rfl : q.written = w := Option.some.inj (hwritten.symm.trans hw)
    -- the operand stands on a line of the source, so that it has no value of its own
    have hvalue : t.value = none := by
      obtain ⟨line, hline, hitems⟩ := Written.exists_line (List.mem_of_getElem? hw)
      exact Line.value_of_mem hline (hitems t (List.mem_of_getLast? hlast)) ht
    exact hq.jump_eq hsymbols hqa hqb hjr hlast ht hvalue hkey hx hlabel

/-- A program that goes home through an alias of its first label, and loads a constant. -/
def homeward : String :=
  "SIZE EQU 3\nHOME EQU MAIN\nMAIN: LD A, SIZE\n.wait: JR NZ, .wait\nJR HOME\nJP HOME"

/-- Moved up by 0xBEB0 bytes, it jumps to another address, and by the same way. -/
theorem relocation_homeward :
    ∃ p p', assemble homeward 0x0150 = .ok p ∧ assemble homeward 0xC000 = .ok p' ∧
      p.instructions = [⟨0x0150, .loadImm .a 3⟩, ⟨0x0152, .jumpRel (some .nz) (-2)⟩,
        ⟨0x0154, .jumpRel none (-6)⟩, ⟨0x0156, .jump none 0x0150⟩] ∧
      p'.instructions[2]? = some ⟨0xC004, .jumpRel none (-6)⟩ ∧
      p.symbols.value? "HOME" = some 0x0150 ∧ p'.symbols.value? "HOME" = some 0xC000 := by
  have hrun : (assemble homeward 0x0150).toOption.map
      (fun p => (p.instructions, p.symbols["HOME"]?, p.symbols["MAIN"]?))
      = some ([⟨0x0150, .loadImm .a 3⟩, ⟨0x0152, .jumpRel (some .nz) (-2)⟩,
          ⟨0x0154, .jumpRel none (-6)⟩, ⟨0x0156, .jump none 0x0150⟩],
        some ⟨.constant, .sameAs "MAIN" ⟨.identifier, "MAIN", ⟨2, 10⟩, none⟩,
          ⟨.identifier, "HOME", ⟨2, 1⟩, none⟩⟩,
        some ⟨.label, .value 0x0150, ⟨.globalLabel, "MAIN:", ⟨3, 1⟩, none⟩⟩) := by decide +kernel
  have hrun' : (assemble homeward 0xC000).toOption.isSome = true := by decide +kernel
  have hwritten : (Written.ofSource homeward)[2]?
      = some ⟨.jr, ⟨.identifier, "JR", ⟨5, 1⟩, none⟩, [⟨.identifier, "HOME", ⟨5, 4⟩, none⟩],
        some "MAIN"⟩ := by decide +kernel
  cases h : assemble homeward 0x0150 with
  | error e => rw [h] at hrun; cases hrun
  | ok p =>
      cases h' : assemble homeward 0xC000 with
      | error e => rw [h'] at hrun'; cases hrun'
      | ok p' =>
          rw [h] at hrun
          simp only [Except.toOption, Option.map_some, Option.some.injEq, Prod.mk.injEq] at hrun
          obtain ⟨hinstructions, hhome, hmain⟩ := hrun
          obtain ⟨hlength, hmoved, -, hvalues, hjumps⟩ := relocation h h'
          have hends : p.symbols.EndsAt "HOME" _ := ⟨1, .via hhome rfl (.value hmain rfl)⟩
          have hvalue : p.symbols.value? "HOME" = some 0x0150 :=
            SymbolTable.value?_eq_some_iff.2 ⟨_, hends, rfl⟩
          obtain ⟨v, hv, hv'⟩ := (hvalues "HOME" _ hends).1 rfl
          obtain rfl := Option.some.inj (hvalue.symm.trans hv)
          have hjump : p.instructions[2]? = some ⟨0x0154, .jumpRel none (-6)⟩ := by
            rw [hinstructions]
            rfl
          have hlt : 2 < p'.instructions.length := by
            rw [← hlength, hinstructions]
            decide
          obtain ⟨⟨address, i⟩, hjump'⟩ : ∃ b, p'.instructions[2]? = some b :=
            ⟨_, List.getElem?_eq_getElem hlt⟩
          have hsame : .jumpRel none (-6) = i :=
            hjumps 2 _ _ "HOME" _ _ _ hwritten rfl rfl (by decide) rfl hends rfl hjump hjump'
          have haddress : address = 0xC004 :=
            UInt16.toNat_inj.1 (Int.ofNat.inj (hmoved 2 _ _ hjump hjump').2)
          rw [← hsame, haddress] at hjump'
          exact ⟨p, p', rfl, rfl, hinstructions, hjump', hvalue, hv'⟩

end Program

end GameBoyAssembler
