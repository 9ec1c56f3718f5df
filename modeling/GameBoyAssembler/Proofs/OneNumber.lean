import GameBoyAssembler.Proofs.Addresses
import GameBoyAssembler.Proofs.Aliases

/-!
# One number for an instruction

Selection looks at the symbols, the scope and the address of an instruction in one place only: where an
operand stands for a number.  No instruction has two such operands.  So a selection is the same
in every context, or it is the number of one operand and something done with it; and the address has a
part in this only for the way to a symbol.  Two contexts that give the same numbers select the same
instruction, and while symbols are not known the address does not matter at all.

Main definitions:

* `ReadsOne` — a computation that depends on its context by at most one number;
* `Context.Within` — a context in which every number is found that another one finds.

Main results:

* `readsOne_select` — **the selection of an instruction reads at most one number**;
* `Context.Within.select` — what one context selects, a context with more in it selects as well.
-/

set_option relaxedAutoImplicit false
set_option autoImplicit false

namespace GameBoyAssembler

variable {α β : Type}

/-- The context has a part in `f` by the number of one token at most. -/
inductive ReadsOne (f : Context → Except Error α) : Prop
  | nothing (r : Except Error α) (h : ∀ c, f c = r)
  /-- The number of `t` and what is done with it.  The address tells only how far away a symbol is. -/
  | number (t : Token) (use : UInt16 → Option Quantity → Except Error α)
      (huse : ∀ a a' q, t.value.isSome ∨ q = none → use a q = use a' q)
      (h : ∀ c, f c = c.quantity t >>= use c.address)

namespace ReadsOne

theorem const (r : Except Error α) : ReadsOne fun _ => r :=
  .nothing r fun _ => rfl

/-- Something is done with the result. -/
theorem andThen {f : Context → Except Error α} (hf : ReadsOne f) (g : α → Except Error β) :
    ReadsOne fun c => f c >>= g := by
  cases hf with
  | nothing r h => exact .nothing (r >>= g) fun c => by rw [h]
  | number t use huse h =>
      refine .number t (fun a q => use a q >>= g) (fun a a' q hq => ?_) fun c => ?_
      · rw [huse a a' q hq]
      · rw [h, bind_assoc]

/-- Something is done before that does not look at the context. -/
theorem after (x : Except Error α) {f : α → Context → Except Error β} (hf : ∀ a, ReadsOne (f a)) :
    ReadsOne fun c => x >>= fun a => f a c := by
  cases x with
  | error e => exact const (.error e)
  | ok a => exact hf a

end ReadsOne

/-! ### Numbers -/

/-- What is done with a number that a rule has to accept. -/
def ruled [OfNat α 0] (t : Token) (rule : Int → Except Cause α) :
    Option Quantity → Except Error α
  | none => .ok 0
  | some q =>
      match rule q.value with
      | .ok a => .ok a
      | .error cause => .error (.referring t cause q.origin)

theorem checked_eq [OfNat α 0] (c : Context) (t : Token) (rule : Int → Except Cause α) :
    c.checked t rule = c.quantity t >>= ruled t rule := by
  refine bind_congr fun q => ?_
  cases q with
  | none => rfl
  | some q => unfold ruled; cases rule q.value <;> rfl

theorem readsOne_checked [OfNat α 0] (t : Token) (rule : Int → Except Cause α) :
    ReadsOne fun c => c.checked t rule :=
  .number t (fun _ => ruled t rule) (fun _ _ _ _ => rfl) fun c => checked_eq c t rule

/-- A number turned into an operand field. -/
theorem readsOne_field (t : Token) (w : Width) (field : Int → α) :
    ReadsOne fun c => do return field (← c.number t w) :=
  (readsOne_checked t w.check).andThen fun v => pure (field v)

theorem readsOne_displacement (t : Token) : ReadsOne fun c => c.displacement t := by
  cases ht : t.value with
  | some v =>
      have hoffset (c : Context) : c.displacement t = c.offset t := by
        rw [Context.displacement, ht]
      simp only [hoffset]
      exact readsOne_field t .signed8 Int8.ofInt
  | none =>
      refine .number t (fun a => ruled t (Context.displacementTo a)) ?_ fun c => ?_
      · rintro a a' q (hq | rfl)
        · rw [ht] at hq
          cases hq
        · rfl
      · rw [Context.displacement, ht]
        exact checked_eq c t _

/-! ### The families of mnemonics -/

theorem readsOne_arithSource (op : Arith) (src : Token) :
    ReadsOne fun c => c.arithSource op src := by
  refine .after src.shape fun shape => ?_
  cases shape with
  | immediate => exact (readsOne_field src .either8 UInt8.ofInt).andThen _
  | _ => exact .const _

theorem readsOne_arithTo (op : Arith) (dst src : Token) :
    ReadsOne fun c => c.arithTo op dst src := by
  refine .after dst.shape fun shape => ?_
  split
  · exact .const _
  · exact (readsOne_field src .signed8 Int8.ofInt).andThen _
  · exact .after dst.expectA fun _ => readsOne_arithSource op src

theorem readsOne_load (dst src : Token) : ReadsOne fun c => c.load dst src := by
  refine .after dst.shape fun shape => .after src.shape fun shape' => ?_
  split
  · exact .const _
  · exact .const _
  · exact (readsOne_field src .either8 UInt8.ofInt).andThen _
  · exact (readsOne_field src .either16 UInt16.ofInt).andThen _
  · exact .const _
  · exact (readsOne_field src .signed8 Int8.ofInt).andThen _
  · exact (readsOne_field dst .unsigned16 UInt16.ofInt).andThen _
  · exact .const _
  · exact .const _
  · exact .after src.expectA fun _ => (readsOne_field dst .unsigned16 UInt16.ofInt).andThen _
  · exact .after dst.expectA fun _ => (readsOne_field src .unsigned16 UInt16.ofInt).andThen _
  · exact .const _
  · exact .const _
  · exact .const _

theorem readsOne_loadHighPage (dst src : Token) : ReadsOne fun c => c.loadHighPage dst src := by
  refine .after dst.shape fun shape => .after src.shape fun shape' => ?_
  split
  · exact .const _
  · exact .const _
  · exact .after src.expectA fun _ => (readsOne_checked dst Context.highPageRule).andThen _
  · exact .after dst.expectA fun _ => (readsOne_checked src Context.highPageRule).andThen _
  · exact .const _

theorem readsOne_jumpTo (cc : Option Condition) (target : Token) :
    ReadsOne fun c => c.jumpTo cc target := by
  refine .after target.shape fun shape => ?_
  split
  · exact .const _
  · exact .const _
  · exact (readsOne_field target .unsigned16 UInt16.ofInt).andThen _

theorem readsOne_selectFront (mnemonic : Mnemonic) (name : Token) (tokens : List Token) :
    ReadsOne fun c => c.selectFront mnemonic name tokens := by
  cases mnemonic with
  | arith op =>
      simp only [Context.selectFront]
      split
      · exact .after (takeTwo name tokens) fun (dst, src, _) =>
          (readsOne_arithTo op dst src).andThen _
      · exact .after (takeOne name tokens) fun (src, _) => (readsOne_arithSource op src).andThen _
  | bit op =>
      refine .after (takeTwo name tokens) fun (index, reg, _) => .after reg.reg8 fun _ => ?_
      exact (readsOne_field index .bitIndex UInt8.ofInt).andThen _
  | jp =>
      exact .after (takeBranch name tokens) fun (cc, target, _) =>
        (readsOne_jumpTo cc target).andThen _
  | jr =>
      exact .after (takeBranch name tokens) fun (_, target, _) =>
        (readsOne_displacement target).andThen _
  | call =>
      exact .after (takeBranch name tokens) fun (_, target, _) =>
        (readsOne_field target .unsigned16 UInt16.ofInt).andThen _
  | rst =>
      exact .after (takeOne name tokens) fun (t, _) =>
        (readsOne_checked t Context.restartRule).andThen _
  | ld => exact .after (takeTwo name tokens) fun (dst, src, _) => (readsOne_load dst src).andThen _
  | ldh =>
      exact .after (takeTwo name tokens) fun (dst, src, _) =>
        (readsOne_loadHighPage dst src).andThen _
  | _ => exact .const _

/-- **The selection of an instruction reads at most one number.** -/
theorem readsOne_select (mnemonic : Mnemonic) (name : Token) (tokens : List Token) :
    ReadsOne fun c => c.select mnemonic name tokens :=
  (readsOne_selectFront mnemonic name tokens).andThen _

/-! ### Contexts with more in them -/

/-- A scope in which the same local labels are found, and possibly more. -/
def ScopeWithin (scope scope' : Option String) : Prop :=
  scope = none ∨ scope = scope'

theorem ScopeWithin.symbolKey {scope scope' : Option String} (h : ScopeWithin scope scope')
    {t : Token} {key : String} (hkey : symbolKey scope t = .ok key) :
    symbolKey scope' t = .ok key := by
  rcases h with rfl | rfl
  · unfold GameBoyAssembler.symbolKey at hkey ⊢
    split
    · rename_i hlocal
      simp only [hlocal] at hkey
      cases hkey
    · rename_i hlocal
      simpa [hlocal] using hkey
  · exact hkey

namespace Context

/-- Every number that the context `c` finds is found in `d` as well: the same symbols are known
and possibly more, or none in either, and the addresses are the same where symbols are known. -/
structure Within (c d : Context) : Prop where
  scope : ScopeWithin c.scope d.scope
  known : c.symbols = none ∧ d.symbols = none ∨ c.address = d.address ∧
    ∃ a b, c.symbols = some a ∧ d.symbols = some b ∧ a.Extends b

variable {c d : Context}

theorem Within.quantity (h : c.Within d) {t : Token} {q : Option Quantity}
    (hq : c.quantity t = .ok q) : d.quantity t = .ok q := by
  unfold Context.quantity at hq ⊢
  split at hq
  · exact hq
  · obtain ⟨shape, hshape, hq⟩ := bind_eq_ok_iff.1 hq
    rw [hshape]
    refine bind_eq_ok_iff.2 ⟨shape, rfl, ?_⟩
    cases shape with
    | immediate | memory =>
        obtain ⟨key, hkey, hq⟩ := bind_eq_ok_iff.1 hq
        refine bind_eq_ok_iff.2 ⟨key, h.scope.symbolKey hkey, ?_⟩
        rcases h.known with ⟨hc, hd⟩ | ⟨-, a, b, hc, hd, hab⟩
        · rw [hd]
          rw [hc] at hq
          exact hq
        · rw [hd]
          rw [hc] at hq
          obtain ⟨r, hr, hq⟩ := bind_eq_ok_iff.1 hq
          exact bind_eq_ok_iff.2 ⟨r, hab.resolve hr, hq⟩
    | _ => exact hq

/-- Without symbols a number is written out, or not known. -/
theorem literal_or_none (hc : c.symbols = none) {t : Token} {q : Option Quantity}
    (hq : c.quantity t = .ok q) : t.value.isSome ∨ q = none := by
  unfold Context.quantity at hq
  split at hq
  · rename_i hvalue
    rw [hvalue]
    exact Or.inl rfl
  · obtain ⟨shape, -, hq⟩ := bind_eq_ok_iff.1 hq
    rw [hc] at hq
    cases shape with
    | immediate | memory =>
        obtain ⟨key, -, hq⟩ := bind_eq_ok_iff.1 hq
        cases hq
        exact Or.inr rfl
    | _ => cases hq

theorem Within.of_readsOne (h : c.Within d) {f : Context → Except Error α} (hf : ReadsOne f)
    {a : α} (ha : f c = .ok a) : f d = .ok a := by
  cases hf with
  | nothing r hr => rw [hr, ← hr c, ha]
  | number t use huse hf =>
      rw [hf] at ha ⊢
      obtain ⟨q, hq, ha⟩ := bind_eq_ok_iff.1 ha
      refine bind_eq_ok_iff.2 ⟨q, h.quantity hq, ?_⟩
      rcases h.known with ⟨hc, -⟩ | ⟨haddress, -⟩
      · rw [← huse c.address d.address q (literal_or_none hc hq), ha]
      · rw [← haddress, ha]

/-- **What one context selects, a context with more in it selects as well.** -/
theorem Within.select (h : c.Within d) {mnemonic : Mnemonic} {name : Token} {tokens : List Token}
    {i : Instruction} (hi : c.select mnemonic name tokens = .ok i) :
    d.select mnemonic name tokens = .ok i :=
  h.of_readsOne (readsOne_select mnemonic name tokens) hi

end Context

end GameBoyAssembler
