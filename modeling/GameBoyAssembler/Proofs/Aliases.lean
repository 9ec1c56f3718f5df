import GameBoyAssembler.Proofs.AliasChains

/-!
# The ends of chains

A constant may stand for whatever another symbol stands for, so its value is found at the end of a
chain of aliases.  The symbol there tells more than the value, such as whether this is the address of a
label.  Whether a key has a value is a matter of its chain alone, and a table that binds more keys gives
the same values to the old ones.

Main definitions:

* `SymbolTable.Leads`, `SymbolTable.EndsAt` — the symbol at the end of a chain, with the number of
  aliases or without;
* `SymbolTable.Extends` — a table that binds all that another one binds.

Main results:

* `SymbolTable.value?_eq_some_iff` — **a key has a value if and only if its chain ends**;
* `SymbolTable.Extends.value?`, `SymbolTable.Extends.resolve` — values stay when keys are added.
-/

set_option relaxedAutoImplicit false
set_option autoImplicit false

namespace GameBoyAssembler

namespace SymbolTable

/-! ### Chains -/

/-- From `key` on, `n` aliases lead to the symbol `x`, which is bound to a number. -/
inductive Leads (table : SymbolTable) : Nat → String → Symbol → Prop
  | value {key : String} {x : Symbol} {v : Int} (hx : table[key]? = some x)
      (hmeaning : x.meaning = .value v) : Leads table 0 key x
  | via {n : Nat} {key target : String} {x y : Symbol} {t : Token} (hx : table[key]? = some x)
      (hmeaning : x.meaning = .sameAs target t) (h : Leads table n target y) :
      Leads table (n + 1) key y

/-- The chain of aliases from `key` on ends at the symbol `x`, which is bound to a number. -/
def EndsAt (table : SymbolTable) (key : String) (x : Symbol) : Prop :=
  ∃ n, table.Leads n key x

variable {table : SymbolTable} {key : String} {x : Symbol} {v : Int}

theorem Leads.exists_value {n : Nat} (h : table.Leads n key x) : ∃ v, x.meaning = .value v := by
  induction h with
  | value _ hmeaning => exact ⟨_, hmeaning⟩
  | via _ _ _ ih => exact ih

theorem Leads.reaches {n : Nat} (h : table.Leads n key x) (hv : x.meaning = .value v) :
    ∃ last, table.Reaches key last ∧ table.IsNumber last v := by
  induction h with
  | value hx _ => exact ⟨_, .refl, _, hx, hv⟩
  | via hx hmeaning _ ih =>
      obtain ⟨last, hreach, hlast⟩ := ih hv
      exact ⟨last, hreach.head ⟨_, _, hx, hmeaning⟩, hlast⟩

theorem exists_endsAt {last : String} (hreach : table.Reaches key last)
    (hlast : table.IsNumber last v) : ∃ x, table.EndsAt key x ∧ x.meaning = .value v := by
  induction hreach using Relation.ReflTransGen.head_induction_on with
  | refl =>
      obtain ⟨x, hx, hmeaning⟩ := hlast
      exact ⟨x, ⟨0, .value hx hmeaning⟩, hmeaning⟩
  | head hnext _ ih =>
      obtain ⟨t, y, hy, hmeaning⟩ := hnext
      obtain ⟨x, ⟨n, hn⟩, hx⟩ := ih
      exact ⟨x, ⟨n + 1, .via hy hmeaning hn⟩, hx⟩

/-! ### Values -/

/-- **A key has a value if and only if its chain ends**, and the value is that at the end. -/
theorem value?_eq_some_iff :
    table.value? key = some v ↔ ∃ x, table.EndsAt key x ∧ x.meaning = .value v := by
  rw [value?_eq_some_iff_reaches]
  constructor
  · rintro ⟨last, hreach, hlast⟩
    exact exists_endsAt hreach hlast
  · rintro ⟨x, ⟨n, hn⟩, hx⟩
    exact hn.reaches hx

/-- A key is resolved to its value and to the token that defined it. -/
theorem resolve_eq_ok_iff {t u : Token} : table.resolve key t = .ok (v, u) ↔
    (∃ x, table[key]? = some x ∧ x.token = u) ∧ table.value? key = some v := by
  unfold resolve SymbolTable.value?
  cases table[key]? with
  | none => simp
  | some x =>
      cases hchase : table.chase x with
      | ok w => simp [hchase, Except.toOption, and_comm]
      | error failure => cases failure <;> simp [hchase, Except.toOption]

/-! ### More keys -/

/-- All that `a` binds is bound to the same symbols in `b`. -/
def Extends (a b : SymbolTable) : Prop :=
  ∀ (key : String) (x : Symbol), a[key]? = some x → b[key]? = some x

namespace Extends

variable {a b : SymbolTable} (h : a.Extends b)

include h

theorem leads {n : Nat} (hkey : a.Leads n key x) : b.Leads n key x := by
  induction hkey with
  | value hx hmeaning => exact .value (h _ _ hx) hmeaning
  | via hx hmeaning _ ih => exact .via (h _ _ hx) hmeaning ih

theorem value? (hkey : a.value? key = some v) : b.value? key = some v := by
  obtain ⟨x, ⟨n, hn⟩, hx⟩ := value?_eq_some_iff.1 hkey
  exact value?_eq_some_iff.2 ⟨x, ⟨n, h.leads hn⟩, hx⟩

theorem resolve {t : Token} {r : Int × Token} (hkey : a.resolve key t = .ok r) :
    b.resolve key t = .ok r := by
  obtain ⟨⟨x, hx, htoken⟩, hvalue⟩ := resolve_eq_ok_iff.1 hkey
  exact resolve_eq_ok_iff.2 ⟨⟨x, h _ _ hx, htoken⟩, h.value? hvalue⟩

end Extends

end SymbolTable

end GameBoyAssembler
