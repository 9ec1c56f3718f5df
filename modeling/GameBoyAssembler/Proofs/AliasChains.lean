import GameBoyAssembler.Symbol
import Mathlib.Data.Finset.Card
import Mathlib.Logic.Relation

/-!
# Where a chain of aliases leads

A key that is bound to the meaning of another key begins a chain.  The chain comes to a key that is
bound to a number, or to a name that is not bound, or it never ends; as a table is finite, it then
comes round in a circle, which need not pass through the key it began with.  The table follows one
alias more than it has symbols.  This is always enough: a longer chain has passed some key twice, and
from there on it repeats itself.

What a chain comes to is said here without counting, by the keys that it reaches.  No chain comes to
two things, so the outcome of following it is the one thing that it comes to.

Main definitions:

* `SymbolTable.Next`, `SymbolTable.Reaches` — one alias, and any number of them;
* `SymbolTable.NeverEnds`, `SymbolTable.EntersCircle` — a chain without an end, and a chain that comes
  back to a key;
* `SymbolTable.ComesTo` — what a chain comes to.

Main results:

* `SymbolTable.ComesTo.unique` — a chain comes to one thing only;
* `SymbolTable.entersCircle_of_chaseSteps` — a chain with more aliases than symbols enters a circle;
* `SymbolTable.chase_eq_iff` — **following aliases gives what the chain comes to**;
* `SymbolTable.value?_eq_some_iff_reaches` — a key has a value if and only if its chain comes to a number;
* `SymbolTable.alias_chains_exact` — the same for values and for references, with their errors.
-/

set_option relaxedAutoImplicit false
set_option autoImplicit false

namespace GameBoyAssembler

namespace SymbolTable

/-! ### Chains -/

/-- The key is bound to the meaning of `target`, which the token `t` names. -/
def IsAlias (table : SymbolTable) (key target : String) (t : Token) : Prop :=
  ∃ x, table[key]? = some x ∧ x.meaning = .sameAs target t

/-- The key is bound to the number `v`. -/
def IsNumber (table : SymbolTable) (key : String) (v : Int) : Prop :=
  ∃ x, table[key]? = some x ∧ x.meaning = .value v

/-- One alias leads from `key` to `target`. -/
def Next (table : SymbolTable) (key target : String) : Prop :=
  ∃ t, table.IsAlias key target t

/-- Aliases lead from one key to another; there may be none between them. -/
abbrev Reaches (table : SymbolTable) : String → String → Prop :=
  Relation.ReflTransGen table.Next

/-- From `key` on there is always one more alias. -/
def NeverEnds (table : SymbolTable) (key : String) : Prop :=
  ∃ keys : Nat → String, keys 0 = key ∧ ∀ n, table.Next (keys n) (keys (n + 1))

/-- Aliases lead from `key` to a key that they come back to. -/
def EntersCircle (table : SymbolTable) (key : String) : Prop :=
  ∃ k, table.Reaches key k ∧ Relation.TransGen table.Next k k

/-- No alias leads on from the key. -/
def Stops (table : SymbolTable) (key : String) : Prop :=
  ∀ target, ¬ table.Next key target

variable {table : SymbolTable} {key target : String} {x : Symbol} {t : Token} {v : Int}

theorem next_unique : Relator.RightUnique table.Next := by
  rintro key a b ⟨t, x, hx, hmeaning⟩ ⟨t', x', hx', hmeaning'⟩
  obtain rfl := Option.some.inj (hx.symm.trans hx')
  exact (Meaning.sameAs.inj (hmeaning.symm.trans hmeaning')).1

theorem Next.mem (h : table.Next key target) : key ∈ table := by
  obtain ⟨t, x, hx, -⟩ := h
  exact Std.TreeMap.mem_iff_isSome_getElem?.2 (by simp [hx])

theorem IsNumber.stops (h : table.IsNumber key v) : table.Stops key := by
  obtain ⟨x, hx, hmeaning⟩ := h
  rintro target ⟨t, x', hx', hmeaning'⟩
  obtain rfl := Option.some.inj (hx.symm.trans hx')
  cases hmeaning.symm.trans hmeaning'

theorem stops_of_unbound (h : table[key]? = none) : table.Stops key := by
  rintro target ⟨t, x, hx, -⟩
  cases h.symm.trans hx

/-- From a key without aliases no other key is reached. -/
theorem Stops.eq_of_reaches {k : String} (h : table.Stops key) (hreach : table.Reaches key k) :
    key = k := by
  rcases hreach.cases_head with rfl | ⟨target, hnext, -⟩
  · rfl
  · exact absurd hnext (h target)

/-- A chain has one end only. -/
theorem Stops.unique {a b : String} (ha : table.Stops a) (hb : table.Stops b)
    (hreach : table.Reaches key a) (hreach' : table.Reaches key b) : a = b := by
  rcases hreach.total_of_right_unique next_unique hreach' with h | h
  · exact ha.eq_of_reaches h
  · exact (hb.eq_of_reaches h).symm

/-- The last alias of a chain is followed by no other. -/
theorem Stops.eq_before {a b c d : String} (hc : table.Stops c) (hac : table.Next a c)
    (hbd : table.Next b d) (hreach : table.Reaches a b) : a = b := by
  rcases hreach.cases_head with rfl | ⟨k, hak, hkb⟩
  · rfl
  · obtain rfl := next_unique hak hac
    obtain rfl := hc.eq_of_reaches hkb
    exact absurd hbd (hc d)

/-- A chain has one last alias only. -/
theorem Stops.unique_before {a b c d : String} (hc : table.Stops c) (hd : table.Stops d)
    (hac : table.Next a c) (hbd : table.Next b d) (hreach : table.Reaches key a)
    (hreach' : table.Reaches key b) : a = b := by
  rcases hreach.total_of_right_unique next_unique hreach' with h | h
  · exact hc.eq_before hac hbd h
  · exact (hd.eq_before hbd hac h).symm

namespace NeverEnds

theorem next (h : table.NeverEnds key) (hnext : table.Next key target) : table.NeverEnds target := by
  obtain ⟨keys, rfl, hkeys⟩ := h
  exact ⟨fun n => keys (n + 1), next_unique (hkeys 0) hnext, fun n => hkeys (n + 1)⟩

theorem of_reaches {k : String} (h : table.NeverEnds key) (hreach : table.Reaches key k) :
    table.NeverEnds k := by
  induction hreach with
  | refl => exact h
  | tail _ hnext ih => exact ih.next hnext

/-- A chain that never ends reaches no end. -/
theorem not_stops {k : String} (h : table.NeverEnds key) (hreach : table.Reaches key k) :
    ¬ table.Stops k := by
  obtain ⟨keys, rfl, hkeys⟩ := h.of_reaches hreach
  intro hstops
  exact hstops _ (hkeys 0)

end NeverEnds

/-! ### What a chain comes to -/

/-- What the chain of aliases from `key` on comes to: a number, a name that is not bound, which the last
alias names, or no end at all. -/
inductive ComesTo (table : SymbolTable) (key : String) : Except ChaseFailure Int → Prop
  | number {last : String} {v : Int} (hreach : table.Reaches key last)
      (hlast : table.IsNumber last v) : ComesTo table key (.ok v)
  | unbound {last missing : String} {t : Token} (hreach : table.Reaches key last)
      (hlast : table.IsAlias last missing t) (hmissing : table[missing]? = none) :
      ComesTo table key (.error (.unbound missing t))
  | circle (h : table.NeverEnds key) : ComesTo table key (.error .circle)

namespace ComesTo

variable {r r' : Except ChaseFailure Int}

/-- A chain that comes to a number or to an unbound name does not go on for ever. -/
theorem not_neverEnds (h : table.ComesTo key r) (hr : r ≠ .error .circle) :
    ¬ table.NeverEnds key := by
  intro hforever
  cases h with
  | number hreach hlast => exact hforever.not_stops hreach hlast.stops
  | unbound hreach hlast hmissing =>
      exact hforever.not_stops (hreach.tail ⟨_, hlast⟩) (stops_of_unbound hmissing)
  | circle => exact hr rfl

/-- **A chain comes to one thing only.** -/
theorem unique (h : table.ComesTo key r) (h' : table.ComesTo key r') : r = r' := by
  cases h with
  | number hreach hlast =>
      cases h' with
      | number hreach' hlast' =>
          obtain rfl := hlast.stops.unique hlast'.stops hreach hreach'
          obtain ⟨x, hx, hmeaning⟩ := hlast
          obtain ⟨x', hx', hmeaning'⟩ := hlast'
          obtain rfl := Option.some.inj (hx.symm.trans hx')
          cases hmeaning.symm.trans hmeaning'
          rfl
      | unbound hreach' hlast' hmissing =>
          obtain rfl :=
            hlast.stops.unique (stops_of_unbound hmissing) hreach (hreach'.tail ⟨_, hlast'⟩)
          obtain ⟨x, hx, -⟩ := hlast
          cases hmissing.symm.trans hx
      | circle hforever =>
          exact absurd hforever (not_neverEnds (.number hreach hlast) nofun)
  | unbound hreach hlast hmissing =>
      have hstops := stops_of_unbound hmissing
      cases h' with
      | number hreach' hlast' =>
          obtain rfl := hstops.unique hlast'.stops (hreach.tail ⟨_, hlast⟩) hreach'
          obtain ⟨x, hx, -⟩ := hlast'
          cases hmissing.symm.trans hx
      | unbound hreach' hlast' hmissing' =>
          obtain rfl := hstops.unique_before (stops_of_unbound hmissing') ⟨_, hlast⟩ ⟨_, hlast'⟩
            hreach hreach'
          obtain ⟨x, hx, hmeaning⟩ := hlast
          obtain ⟨x', hx', hmeaning'⟩ := hlast'
          obtain rfl := Option.some.inj (hx.symm.trans hx')
          cases hmeaning.symm.trans hmeaning'
          rfl
      | circle hforever =>
          exact absurd hforever (not_neverEnds (.unbound hreach hlast hmissing) nofun)
  | circle hforever =>
      by_contra hne
      exact h'.not_neverEnds (Ne.symm hne) hforever

/-- What the next key comes to, the key comes to. -/
theorem of_next (hnext : table.Next key target) (h : table.ComesTo target r)
    (hr : r ≠ .error .circle) : table.ComesTo key r := by
  cases h with
  | number hreach hlast => exact .number (hreach.head hnext) hlast
  | unbound hreach hlast hmissing => exact .unbound (hreach.head hnext) hlast hmissing
  | circle => exact absurd rfl hr

end ComesTo

/-! ### Circles -/

/-- The key that an alias leads to; without one, the key itself. -/
def hop (table : SymbolTable) (key : String) : String :=
  match table[key]? with
  | some ⟨_, .sameAs target _, _⟩ => target
  | _ => key

theorem Next.hop_eq (h : table.Next key target) : table.hop key = target := by
  obtain ⟨t, ⟨kind, meaning, token⟩, hx, rfl⟩ := h
  rw [hop, hx]

/-- A chain that comes back to a key goes on, and comes back to it again. -/
theorem EntersCircle.hop (h : table.EntersCircle key) :
    table.Next key (table.hop key) ∧ table.EntersCircle (table.hop key) := by
  obtain ⟨k, hreach, hcircle⟩ := h
  rcases hreach.cases_head with rfl | ⟨target, hnext, hreach⟩
  · obtain ⟨target, hnext, hback⟩ := Relation.TransGen.head'_iff.1 hcircle
    rw [hnext.hop_eq]
    exact ⟨hnext, key, hback, hcircle⟩
  · rw [hnext.hop_eq]
    exact ⟨hnext, k, hreach, hcircle⟩

theorem EntersCircle.neverEnds (h : table.EntersCircle key) : table.NeverEnds key := by
  have hall (n : Nat) : table.EntersCircle (table.hop^[n] key) := by
    induction n with
    | zero => exact h
    | succ n ih =>
        rw [Function.iterate_succ_apply']
        exact ih.hop.2
  refine ⟨fun n => table.hop^[n] key, rfl, fun n => ?_⟩
  dsimp only
  rw [Function.iterate_succ_apply']
  exact (hall n).hop.1

/-- If all steps are used up, there was an alias at each of them. -/
theorem next_of_chaseSteps {steps : Nat} (hx : table[key]? = some x)
    (h : table.chaseSteps steps x = .error .circle) {i : Nat} (hi : i < steps) :
    table.Next (table.hop^[i] key) (table.hop^[i + 1] key) := by
  induction steps generalizing key x i with
  | zero => omega
  | succ steps ih =>
      rw [chaseSteps] at h
      split at h
      · cases h
      · rename_i target t hmeaning
        split at h
        · rename_i y hy
          have hnext : table.Next key target := ⟨t, x, hx, hmeaning⟩
          cases i with
          | zero =>
              rw [Function.iterate_one, hnext.hop_eq]
              exact hnext
          | succ i =>
              rw [Function.iterate_succ_apply, Function.iterate_succ_apply, hnext.hop_eq]
              exact ih hy h (by omega)
        · cases h

/-- A walk along aliases. -/
theorem reaches_hop {i j : Nat}
    (h : ∀ k < j, table.Next (table.hop^[k] key) (table.hop^[k + 1] key)) (hij : i ≤ j) :
    table.Reaches (table.hop^[i] key) (table.hop^[j] key) := by
  induction j, hij using Nat.le_induction with
  | base => exact .refl
  | succ j _ ih => exact (ih fun k hk => h k (by omega)).tail (h j (by omega))

/-- **A chain with more aliases than the table has symbols enters a circle**: two of its keys are the
same. -/
theorem entersCircle_of_chaseSteps {steps : Nat} (hsteps : table.size < steps)
    (hx : table[key]? = some x) (h : table.chaseSteps steps x = .error .circle) :
    table.EntersCircle key := by
  have hnext {i : Nat} (hi : i < steps) := next_of_chaseSteps hx h hi
  have hcard : table.keys.toFinset.card < (Finset.range steps).card := by
    rw [Finset.card_range]
    have hle := table.keys.toFinset_card_le
    rw [Std.TreeMap.length_keys] at hle
    omega
  have hmem : Set.MapsTo (fun i => table.hop^[i] key) (Finset.range steps) table.keys.toFinset := by
    intro i hi
    have hkey := (hnext (Finset.mem_range.1 hi)).mem
    simpa using hkey
  obtain ⟨i, hi, j, hj, hne, hsame⟩ :=
    Finset.exists_ne_map_eq_of_card_lt_of_maps_to hcard hmem
  wlog hij : i < j generalizing i j
  · exact this j hj i hi hne.symm hsame.symm (by omega)
  have hj := Finset.mem_range.1 hj
  have hto : table.Reaches key (table.hop^[i] key) :=
    reaches_hop (fun k hk => hnext (by omega)) (Nat.zero_le i)
  have hback : table.Reaches (table.hop^[i + 1] key) (table.hop^[j] key) :=
    reaches_hop (fun k hk => hnext (by omega)) hij
  rw [← hsame] at hback
  exact ⟨_, hto, .head' (hnext (by omega)) hback⟩

/-! ### Following aliases -/

/-- What is found within the steps is what the chain comes to. -/
theorem comesTo_of_chaseSteps {steps : Nat} (hx : table[key]? = some x)
    (h : table.chaseSteps steps x ≠ .error .circle) :
    table.ComesTo key (table.chaseSteps steps x) := by
  induction steps generalizing key x with
  | zero => exact absurd rfl h
  | succ steps ih =>
      rw [chaseSteps] at h ⊢
      split at h
      · rename_i v hmeaning
        exact .number .refl ⟨x, hx, hmeaning⟩
      · rename_i target t hmeaning
        split at h
        · rename_i y hy
          exact (ih hy h).of_next ⟨t, x, hx, hmeaning⟩ h
        · rename_i hmissing
          exact .unbound .refl ⟨x, hx, hmeaning⟩ hmissing

/-- More steps than there are symbols find what the chain comes to. -/
theorem comesTo_chaseSteps {steps : Nat} (hsteps : table.size < steps) (hx : table[key]? = some x) :
    table.ComesTo key (table.chaseSteps steps x) := by
  by_cases h : table.chaseSteps steps x = .error .circle
  · rw [h]
    exact .circle (entersCircle_of_chaseSteps hsteps hx h).neverEnds
  · exact comesTo_of_chaseSteps hx h

/-- **Following aliases gives what the chain comes to.** -/
theorem chase_eq_iff (hx : table[key]? = some x) {r : Except ChaseFailure Int} :
    table.chase x = r ↔ table.ComesTo key r := by
  have hchase : table.ComesTo key (table.chase x) := comesTo_chaseSteps (Nat.lt_succ_self _) hx
  constructor
  · rintro rfl
    exact hchase
  · intro h
    exact hchase.unique h

theorem ComesTo.exists_symbol {r : Except ChaseFailure Int} (h : table.ComesTo key r) :
    ∃ x, table[key]? = some x := by
  have hfirst {last : String} (hreach : table.Reaches key last) (hlast : ∃ x, table[last]? = some x) :
      ∃ x, table[key]? = some x := by
    rcases hreach.cases_head with rfl | ⟨target, ⟨t, x, hx, -⟩, -⟩
    · exact hlast
    · exact ⟨x, hx⟩
  cases h with
  | number hreach hlast => exact hfirst hreach (hlast.imp fun x hx => hx.1)
  | unbound hreach hlast _ => exact hfirst hreach (hlast.imp fun x hx => hx.1)
  | circle h =>
      obtain ⟨keys, rfl, hkeys⟩ := h
      obtain ⟨t, x, hx, -⟩ := hkeys 0
      exact ⟨x, hx⟩

theorem neverEnds_iff_entersCircle : table.NeverEnds key ↔ table.EntersCircle key := by
  constructor
  · intro h
    have hcircle : table.ComesTo key (.error .circle) := .circle h
    obtain ⟨x, hx⟩ := hcircle.exists_symbol
    exact entersCircle_of_chaseSteps (Nat.lt_succ_self _) hx ((chase_eq_iff hx).2 hcircle)
  · exact EntersCircle.neverEnds

/-! ### Values and references -/

theorem value?_eq_some_iff_comesTo : table.value? key = some v ↔ table.ComesTo key (.ok v) := by
  constructor
  · intro h
    obtain ⟨x, hx, hchase⟩ := Option.bind_eq_some_iff.1 h
    refine (chase_eq_iff hx).1 ?_
    cases hr : table.chase x with
    | ok w => simpa [hr, Except.toOption] using hchase
    | error failure => simp [hr, Except.toOption] at hchase
  · intro h
    obtain ⟨x, hx⟩ := h.exists_symbol
    rw [value?, hx, Option.bind_some, (chase_eq_iff hx).2 h]
    rfl

/-- **A key has a value if and only if its chain comes to a number.** -/
theorem value?_eq_some_iff_reaches :
    table.value? key = some v ↔ ∃ last, table.Reaches key last ∧ table.IsNumber last v := by
  rw [value?_eq_some_iff_comesTo]
  constructor
  · rintro (⟨hreach, hlast⟩ | _ | _)
    exact ⟨_, hreach, hlast⟩
  · rintro ⟨last, hreach, hlast⟩
    exact .number hreach hlast

/-- The answer to a reference `t` to the key of `x`, when it is known what the chain comes to. -/
def answer (key : String) (x : Symbol) (t : Token) :
    Except ChaseFailure Int → Except Error (Int × Token)
  | .ok v => .ok (v, x.token)
  | .error (.unbound missing u) => .error (.about u (.unknownSymbol missing))
  | .error .circle => .error (.referring t (.circularSymbol key) (some x.token))

theorem ComesTo.resolve_eq {r : Except ChaseFailure Int} (h : table.ComesTo key r)
    (hx : table[key]? = some x) (t : Token) : table.resolve key t = answer key x t r := by
  rw [← (chase_eq_iff hx).2 h, resolve, hx]
  dsimp only
  cases table.chase x with
  | ok v => rfl
  | error failure => cases failure <;> rfl

/-- A circle is reported only where there is one. -/
theorem neverEnds_of_circular {e : Error} {k : String} (h : table.resolve key t = .error e)
    (he : e.cause = .circularSymbol k) : table.NeverEnds key := by
  cases hx : table[key]? with
  | none =>
      rw [resolve, hx] at h
      cases h
      cases he
  | some x =>
      obtain ⟨r, hcomes⟩ : ∃ r, table.ComesTo key r := ⟨_, (chase_eq_iff hx).1 rfl⟩
      rw [hcomes.resolve_eq hx] at h
      cases hcomes with
      | number => cases h
      | unbound =>
          cases h
          cases he
      | circle hforever => exact hforever

/-- **Chains of aliases are followed exactly.**  A key has the value `v` if and only if its chain comes to
a key that is bound to the number `v`, and a reference to the key then gets `v` with the token that
defined the key itself.  A reference to an unbound key fails at the reference, and one whose chain comes
to an unbound name fails at the last alias.  A circle is reported if and only if the chain never ends,
which is to say that it comes back to some key.  Following it for more steps gives nothing else. -/
theorem alias_chains_exact (table : SymbolTable) (key : String) (reference : Token) :
    (∀ v, table.value? key = some v ↔ ∃ last, table.Reaches key last ∧ table.IsNumber last v) ∧
    (∀ v last, table.Reaches key last → table.IsNumber last v →
      ∃ x, table[key]? = some x ∧ table.resolve key reference = .ok (v, x.token)) ∧
    (table[key]? = none →
      table.resolve key reference = .error (.about reference (.unknownSymbol key))) ∧
    (∀ last missing t, table.Reaches key last → table.IsAlias last missing t →
      table[missing]? = none →
      table.resolve key reference = .error (.about t (.unknownSymbol missing))) ∧
    ((∃ e k, table.resolve key reference = .error e ∧ e.cause = .circularSymbol k) ↔
      table.NeverEnds key) ∧
    (table.NeverEnds key → ∃ x, table[key]? = some x ∧
      table.resolve key reference
        = .error (.referring reference (.circularSymbol key) (some x.token))) ∧
    (table.NeverEnds key ↔ table.EntersCircle key) ∧
    ∀ x steps, table[key]? = some x → table.size < steps →
      table.chaseSteps steps x = table.chase x := by
  have hcircle (h : table.NeverEnds key) : ∃ x, table[key]? = some x ∧
      table.resolve key reference
        = .error (.referring reference (.circularSymbol key) (some x.token)) := by
    obtain ⟨x, hx⟩ := (ComesTo.circle h).exists_symbol
    exact ⟨x, hx, (ComesTo.circle h).resolve_eq hx reference⟩
  refine ⟨fun v => value?_eq_some_iff_reaches, fun v last hreach hlast => ?_, fun hx => ?_,
    fun last missing t hreach hlast hmissing => ?_, ⟨?_, fun h => ?_⟩, hcircle,
    neverEnds_iff_entersCircle, fun x steps hx hsteps => ?_⟩
  · have hcomes := ComesTo.number hreach hlast
    obtain ⟨x, hx⟩ := hcomes.exists_symbol
    exact ⟨x, hx, hcomes.resolve_eq hx reference⟩
  · rw [resolve, hx]
  · have hcomes := ComesTo.unbound hreach hlast hmissing
    obtain ⟨x, hx⟩ := hcomes.exists_symbol
    exact hcomes.resolve_eq hx reference
  · rintro ⟨e, k, he, hcause⟩
    exact neverEnds_of_circular he hcause
  · obtain ⟨x, -, hresolve⟩ := hcircle h
    exact ⟨_, key, hresolve, rfl⟩
  · exact ((chase_eq_iff hx).2 (comesTo_chaseSteps hsteps hx)).symm

/-- The name of a constant on the given line. -/
def nameOn (line : Nat) (name : String) : Token :=
  ⟨.identifier, name, ⟨line, 1⟩, none⟩

/-- Three constants, of which the first two stand for the next and the last has the given meaning. -/
def threeConstants (last : Meaning) : SymbolTable :=
  (((∅ : SymbolTable).insert "A" ⟨.constant, .sameAs "B" (nameOn 1 "B"), nameOn 1 "A"⟩).insert
    "B" ⟨.constant, .sameAs "C" (nameOn 2 "C"), nameOn 2 "B"⟩).insert
    "C" ⟨.constant, last, nameOn 3 "C"⟩

theorem getElem?_threeConstants (last : Meaning) :
    (threeConstants last)["A"]?
        = some ⟨.constant, .sameAs "B" (nameOn 1 "B"), nameOn 1 "A"⟩ ∧
      (threeConstants last)["B"]?
        = some ⟨.constant, .sameAs "C" (nameOn 2 "C"), nameOn 2 "B"⟩ ∧
      (threeConstants last)["C"]? = some ⟨.constant, last, nameOn 3 "C"⟩ ∧
      (threeConstants last)["D"]? = none := by
  refine ⟨?_, ?_, ?_, ?_⟩
  all_goals
    simp only [threeConstants, Std.TreeMap.getElem?_insert]
    rfl

/-- A chain through all symbols to a number, one to a name that is not bound, and one into a circle that
it did not begin in. -/
theorem alias_chains_exact_three :
    (threeConstants (.value 5)).value? "A" = some 5 ∧
    (threeConstants (.value 5)).resolve "A" (nameOn 9 "A") = .ok (5, nameOn 1 "A") ∧
    (threeConstants (.sameAs "D" (nameOn 3 "D"))).resolve "A" (nameOn 9 "A")
      = .error (.about (nameOn 3 "D") (.unknownSymbol "D")) ∧
    (threeConstants (.sameAs "B" (nameOn 3 "B"))).resolve "A" (nameOn 9 "A")
      = .error (.referring (nameOn 9 "A") (.circularSymbol "A") (some (nameOn 1 "A"))) := by
  have hreach (last : Meaning) : (threeConstants last).Reaches "A" "C" := by
    obtain ⟨hA, hB, -⟩ := getElem?_threeConstants last
    exact .head ⟨_, _, hA, rfl⟩ (.single ⟨_, _, hB, rfl⟩)
  have hfirst (last : Meaning) {x : Symbol} (hx : (threeConstants last)["A"]? = some x) :
      x.token = nameOn 1 "A" := by
    rw [(getElem?_threeConstants last).1] at hx
    cases hx
    rfl
  have hnumber : (threeConstants (.value 5)).IsNumber "C" 5 :=
    ⟨_, (getElem?_threeConstants _).2.2.1, rfl⟩
  obtain ⟨hvalue, hresolve, -⟩ := alias_chains_exact (threeConstants (.value 5)) "A" (nameOn 9 "A")
  obtain ⟨-, -, -, hmissing, -⟩ :=
    alias_chains_exact (threeConstants (.sameAs "D" (nameOn 3 "D"))) "A" (nameOn 9 "A")
  obtain ⟨-, -, -, -, -, hcircle, hends, -⟩ :=
    alias_chains_exact (threeConstants (.sameAs "B" (nameOn 3 "B"))) "A" (nameOn 9 "A")
  refine ⟨(hvalue 5).2 ⟨"C", hreach _, hnumber⟩, ?_, ?_, ?_⟩
  · obtain ⟨x, hx, h⟩ := hresolve 5 "C" (hreach _) hnumber
    rw [h, hfirst _ hx]
  · obtain ⟨-, -, hC, hD⟩ := getElem?_threeConstants (.sameAs "D" (nameOn 3 "D"))
    exact hmissing "C" "D" _ (hreach _) ⟨_, hC, rfl⟩ hD
  · obtain ⟨-, hB, hC, -⟩ := getElem?_threeConstants (.sameAs "B" (nameOn 3 "B"))
    -- B leads to C and C back to B
    have hback : Relation.TransGen (threeConstants (.sameAs "B" (nameOn 3 "B"))).Next "C" "C" :=
      .head ⟨_, _, hC, rfl⟩ (.single ⟨_, _, hB, rfl⟩)
    obtain ⟨x, hx, h⟩ := hcircle (hends.2 ⟨"C", hreach _, hback⟩)
    rw [h, hfirst _ hx]

end SymbolTable

end GameBoyAssembler
