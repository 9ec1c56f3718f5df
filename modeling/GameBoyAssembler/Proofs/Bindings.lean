import GameBoyAssembler.Proofs.Composition

/-!
# What a line binds

A line binds its label and perhaps a constant, and never touches a key that is bound.  The layout keeps
what was bound before an error, so that a line with an error may bind something too.  This module says
what any line does to the symbols and to the scope, right or wrong.

Main definitions:

* `Token.opensScope`, `Layout.scopeBehind` — the labels that open a scope, and the scope behind a label;
* `ConstantValue.meaning` — what a constant is bound to in a scope;
* `Layout.LabelStep` — all that a label can do;
* `Layout.Binds` — the symbols that a line can bind;
* `Layout.Grows` — some symbols were added, and no others changed.

Main results:

* `Layout.labelStep_defineLabel`, `Layout.scope_add` — what a label does, and the scope behind a line;
* `Layout.grows_add` — **a line adds its label and its constant, and changes no other symbol**;
* `Layout.label_bound`, `Layout.constant_bound` — without an error both are bound.
-/

set_option relaxedAutoImplicit false
set_option autoImplicit false

namespace GameBoyAssembler

/-- A label that opens a scope: a global one with a name that is not reserved. -/
def Token.opensScope (t : Token) : Bool :=
  t.kind == .globalLabel && !isRegisterName (withoutColons t.text)

/-- What a constant is bound to. -/
def ConstantValue.meaning (scope : Option String) : ConstantValue → Except Error Meaning
  | number v => .ok (.value v)
  | symbol t => (symbolKey scope t).map (.sameAs · t)

/-- Only a local label can be without a key. -/
theorem kind_of_symbolKey_error {scope : Option String} {t : Token} {e : Error}
    (h : symbolKey scope t = .error e) : t.kind = .localLabel := by
  unfold symbolKey at h
  split at h
  · rename_i hkind
    exact hkind
  · cases h

namespace Layout

/-- The scope behind the label of a line. -/
def scopeBehind (scope : Option String) : Option Token → Option String
  | none => scope
  | some t => if t.opensScope then some (withoutColons t.text) else scope

/-! ### Symbols that are added -/

/-- From `l` to `l'` no symbol changed, and all that were added are among `B`. -/
structure Grows (l l' : Layout) (B : String → Symbol → Prop) : Prop where
  kept : l.symbols.Extends l'.symbols
  added : ∀ (key : String) (x : Symbol), l'.symbols[key]? = some x →
    l.symbols[key]? = some x ∨ B key x

section Grows

variable {l l₁ l' : Layout} {B B' : String → Symbol → Prop}

theorem Grows.of_symbols (h : l'.symbols = l.symbols) : l.Grows l' B := by
  refine ⟨?_, ?_⟩
  · intro key x hx
    rw [h]
    exact hx
  · intro key x hx
    rw [h] at hx
    exact Or.inl hx

theorem Grows.trans (h : l.Grows l₁ B) (h' : l₁.Grows l' B) : l.Grows l' B := by
  refine ⟨h.kept.trans h'.kept, ?_⟩
  intro key x hx
  rcases h'.added key x hx with hx | hx
  · exact h.added key x hx
  · exact Or.inr hx

theorem Grows.mono (h : l.Grows l' B) (hB : ∀ key x, B key x → B' key x) : l.Grows l' B' :=
  ⟨h.kept, fun key x hx => (h.added key x hx).imp id (hB key x)⟩

theorem Grows.insert {key : String} {x : Symbol} (hfree : key ∉ l.symbols)
    (hsymbols : l'.symbols = l.symbols.insert key x) : l.Grows l' fun k y => k = key ∧ y = x := by
  have hbind : l.symbols.bind key x = .ok l'.symbols :=
    SymbolTable.bind_ok_iff.2 ⟨SymbolTable.notMem_iff.1 hfree, hsymbols.symm⟩
  refine ⟨(SymbolTable.extends_bind hbind).1, ?_⟩
  intro k y hy
  rw [hsymbols, Std.TreeMap.getElem?_insert] at hy
  split at hy
  · rename_i heq
    cases hy
    exact Or.inr ⟨(Std.LawfulEqCmp.compare_eq_iff_eq.1 heq).symm, rfl⟩
  · exact Or.inl hy

end Grows

/-! ### Labels and constants -/

variable (l : Layout)

/-- A key that is bound is left alone, and any other one is added. -/
theorem bind_cases (key : String) (x : Symbol) :
    (key ∈ l.symbols ∧ ∃ e, l.bind key x = (l, some e)) ∨
      key ∉ l.symbols ∧ l.bind key x = ({ l with symbols := l.symbols.insert key x }, none) := by
  unfold bind SymbolTable.bind
  cases h : l.symbols[key]? with
  | none => exact Or.inr ⟨SymbolTable.notMem_iff.2 h, rfl⟩
  | some y =>
      refine Or.inl ⟨?_, _, rfl⟩
      rw [Std.TreeMap.mem_iff_isSome_getElem?, h]
      rfl

/-- The scope that a label opens, whatever comes of the label itself. -/
def opened (t : Token) : Layout :=
  { l with scope := scopeBehind l.scope (some t) }

/-- All that a label can do: it has no key or a reserved name, its key is bound already, or it is
bound. -/
inductive LabelStep (t : Token) : Step → Prop
  | refused {e : Error} (hopens : t.opensScope = false)
      (hkey : t.kind ≠ .globalLabel → symbolKey (l.opened t).scope t = .error e) :
      LabelStep t (l.opened t, some e)
  | taken {key : String} {e : Error} (hkey : symbolKey (l.opened t).scope t = .ok key)
      (hmem : key ∈ l.symbols) : LabelStep t (l.opened t, some e)
  | bound {key : String} (hopens : t.kind = .globalLabel → t.opensScope = true)
      (hkey : symbolKey (l.opened t).scope t = .ok key) (hfree : key ∉ l.symbols) :
      LabelStep t ({ l.opened t with
        symbols := l.symbols.insert key ⟨.label, .value l.address, t⟩ }, none)

theorem opened_of_not_opensScope {t : Token} (h : t.opensScope = false) : l.opened t = l := by
  rw [opened, scopeBehind, if_neg (by rw [h]; exact Bool.false_ne_true)]

theorem labelStep_bindLabel {t : Token} (hopens : t.kind = .globalLabel → t.opensScope = true) :
    l.LabelStep t ((l.opened t).bindLabel t) := by
  unfold bindLabel
  split
  · rename_i key hkey
    rcases bind_cases (l.opened t) key ⟨.label, .value l.address, t⟩ with
      ⟨hmem, e, h⟩ | ⟨hfree, h⟩
    · rw [show (l.opened t).address = l.address from rfl, h]
      exact .taken hkey hmem
    · rw [show (l.opened t).address = l.address from rfl, h]
      exact .bound hopens hkey hfree
  · rename_i e hkey
    refine .refused ?_ fun _ => hkey
    rw [Token.opensScope, kind_of_symbolKey_error hkey]
    rfl

/-- **What a label does.** -/
theorem labelStep_defineLabel (t : Token) : l.LabelStep t (l.defineLabel t) := by
  unfold defineLabel
  split
  · rename_i hkind
    dsimp only
    split
    · rename_i hreserved
      have hopens : t.opensScope = false := by simp [Token.opensScope, hreserved]
      have hstep (e : Error) : l.LabelStep t (l.opened t, some e) :=
        .refused hopens fun h => absurd hkind h
      rw [l.opened_of_not_opensScope hopens] at hstep
      exact hstep _
    · rename_i hname
      have hopens : t.opensScope = true := by simp [Token.opensScope, hkind, hname]
      have hscope : { l with scope := some (withoutColons t.text) } = l.opened t := by
        rw [opened, scopeBehind, if_pos hopens]
      rw [hscope]
      exact l.labelStep_bindLabel fun _ => hopens
  · rename_i hkind
    have hopens : t.opensScope = false := by simp [Token.opensScope, hkind]
    have hstep := l.labelStep_bindLabel fun h => absurd h hkind
    rwa [l.opened_of_not_opensScope hopens] at hstep

/-- A label with a key that is free is bound. -/
theorem defineLabel_of_free {t : Token} {key : String}
    (hopens : t.kind = .globalLabel → t.opensScope = true)
    (hkey : symbolKey (scopeBehind l.scope (some t)) t = .ok key) (hfree : key ∉ l.symbols) :
    l.defineLabel t = ({ l.opened t with
      symbols := l.symbols.insert key ⟨.label, .value l.address, t⟩ }, none) := by
  have hstep := l.labelStep_defineLabel t
  generalize l.defineLabel t = step at hstep ⊢
  cases hstep with
  | refused hclosed herror =>
      by_cases hkind : t.kind = .globalLabel
      · rw [hopens hkind] at hclosed
        cases hclosed
      · cases hkey.symm.trans (herror hkind)
  | taken hkey' hmem =>
      cases hkey.symm.trans hkey'
      exact absurd hmem hfree
  | bound _ hkey' _ =>
      cases hkey.symm.trans hkey'
      rfl

theorem defineConstant_eq (name : Token) (value : ConstantValue) :
    l.defineConstant name value =
      match value.meaning l.scope with
      | .ok meaning => l.bind name.text ⟨.constant, meaning, name⟩
      | .error e => (l, some e) := by
  cases value with
  | number v => rfl
  | symbol t =>
      simp only [defineConstant, ConstantValue.meaning]
      cases symbolKey l.scope t <;> rfl

/-- What a constant does: nothing if there is an error, and otherwise it is bound. -/
theorem defineConstant_cases (name : Token) (value : ConstantValue) :
    (∃ e, l.defineConstant name value = (l, some e)) ∨
      ∃ meaning, value.meaning l.scope = .ok meaning ∧ name.text ∉ l.symbols ∧
        l.defineConstant name value
          = ({ l with symbols := l.symbols.insert name.text ⟨.constant, meaning, name⟩ }, none) := by
  rw [defineConstant_eq]
  cases value.meaning l.scope with
  | error e => exact Or.inl ⟨e, rfl⟩
  | ok meaning =>
      rcases l.bind_cases name.text ⟨.constant, meaning, name⟩ with ⟨-, e, hstep⟩ | ⟨hfree, hstep⟩
      · exact Or.inl ⟨e, hstep⟩
      · exact Or.inr ⟨meaning, rfl, hfree, hstep⟩

/-! ### Lines -/

/-- The symbols that a line can bind: its label at the current address, and its constant. -/
inductive Binds (s : Statement) : String → Symbol → Prop
  | label {t : Token} {key : String} (ht : s.label = some t)
      (hopens : t.kind = .globalLabel → t.opensScope = true)
      (hkey : symbolKey (scopeBehind l.scope s.label) t = .ok key) :
      Binds s key ⟨.label, .value l.address, t⟩
  | constant {name : Token} {value : ConstantValue} {trailing : Option Error} {meaning : Meaning}
      (hbody : s.body = .ok (.constant name value trailing))
      (hmeaning : value.meaning (scopeBehind l.scope s.label) = .ok meaning) :
      Binds s name.text ⟨.constant, meaning, name⟩

variable {l}

theorem place_symbols (mnemonic : Mnemonic) (name : Token) (operands : List Token) :
    (l.place mnemonic name operands).1.symbols = l.symbols ∧
      (l.place mnemonic name operands).1.scope = l.scope := by
  unfold place
  dsimp only
  split
  · exact ⟨rfl, rfl⟩
  · split <;> exact ⟨rfl, rfl⟩

/-- A body leaves the scope as it is and binds its constant at most. -/
theorem grows_body (body : Except Error Body) :
    (l.add ⟨none, body⟩).1.scope = l.scope ∧
      l.Grows (l.add ⟨none, body⟩).1 (l.Binds ⟨none, body⟩) := by
  cases body with
  | error e => exact ⟨rfl, .of_symbols rfl⟩
  | ok body =>
      cases body with
      | empty => exact ⟨rfl, .of_symbols rfl⟩
      | instruction mnemonic name operands =>
          obtain ⟨hsymbols, hscope⟩ := l.place_symbols mnemonic name operands
          exact ⟨hscope, .of_symbols hsymbols⟩
      | constant name value trailing =>
          change ((l.defineConstant name value).andThen fun l => (l, trailing)).1.scope = _ ∧
            l.Grows ((l.defineConstant name value).andThen fun l => (l, trailing)).1 _
          rcases l.defineConstant_cases name value with ⟨e, h⟩ | ⟨meaning, hmeaning, hfree, h⟩
          · rw [h]
            exact ⟨rfl, .of_symbols rfl⟩
          · rw [h]
            refine ⟨rfl, (Grows.insert hfree rfl).mono ?_⟩
            rintro _ _ ⟨rfl, rfl⟩
            exact .constant rfl hmeaning

theorem grows_defineLabel (t : Token) (body : Except Error Body) :
    l.Grows (l.defineLabel t).1 (l.Binds ⟨some t, body⟩) := by
  have hstep := l.labelStep_defineLabel t
  generalize l.defineLabel t = step at hstep ⊢
  cases hstep with
  | refused _ _ => exact .of_symbols rfl
  | taken _ _ => exact .of_symbols rfl
  | bound hopens hkey hfree =>
      refine (Grows.insert hfree rfl).mono ?_
      rintro _ _ ⟨rfl, rfl⟩
      exact .label rfl hopens hkey

/-- A label leaves the scope that it opens. -/
theorem scope_defineLabel (t : Token) :
    (l.defineLabel t).1.scope = scopeBehind l.scope (some t) ∧
      (l.defineLabel t).1.address = l.address := by
  have hstep := l.labelStep_defineLabel t
  generalize l.defineLabel t = step at hstep ⊢
  cases hstep <;> exact ⟨rfl, rfl⟩

/-- The scope behind a line, right or wrong. -/
theorem scope_add (s : Statement) : (l.add s).1.scope = scopeBehind l.scope s.label := by
  obtain ⟨label, body⟩ := s
  cases label with
  | none => exact (grows_body body).1
  | some t =>
      have hlabel := (l.scope_defineLabel t).1
      rw [add_some]
      refine Step.andThen_keeps (P := fun l' => l'.scope = scopeBehind l.scope (some t)) hlabel ?_
      exact (grows_body body).1.trans hlabel

/-- **A line adds its label and its constant, and changes no other symbol.** -/
theorem grows_add (s : Statement) : l.Grows (l.add s).1 (l.Binds s) := by
  obtain ⟨label, body⟩ := s
  cases label with
  | none => exact (grows_body body).2
  | some t =>
      have hlabel := l.grows_defineLabel t body
      rw [add_some]
      refine Step.andThen_keeps (P := fun l' => l.Grows l' (l.Binds ⟨some t, body⟩)) hlabel ?_
      refine hlabel.trans ((grows_body body).2.mono ?_)
      -- the constant is read in the scope that the label has opened
      rintro key x (⟨ht, -, -⟩ | ⟨hbody, hmeaning⟩)
      · cases ht
      · rw [scopeBehind, (l.scope_defineLabel t).1] at hmeaning
        exact .constant hbody hmeaning

/-- A label that is free is bound, whatever comes behind it. -/
theorem label_bound_of_free {s : Statement} {t : Token} {key : String} (ht : s.label = some t)
    (hopens : t.kind = .globalLabel → t.opensScope = true)
    (hkey : symbolKey (scopeBehind l.scope (some t)) t = .ok key) (hfree : key ∉ l.symbols) :
    (l.add s).1.symbols[key]? = some ⟨.label, .value l.address, t⟩ := by
  obtain ⟨label, body⟩ := s
  obtain rfl : label = some t := ht
  rw [add_some, l.defineLabel_of_free hopens hkey hfree]
  exact (grows_body body).2.kept key _ Std.TreeMap.getElem?_insert_self

/-- The key of a label that opens a scope is bound behind its line, perhaps by an earlier label. -/
theorem mem_of_opensScope {s : Statement} {t : Token} (ht : s.label = some t)
    (hopens : t.opensScope = true) {key : String}
    (hkey : symbolKey (scopeBehind l.scope s.label) t = .ok key) : key ∈ (l.add s).1.symbols := by
  by_cases hmem : key ∈ l.symbols
  · exact (l.grows_add s).kept.mem hmem
  · rw [ht] at hkey
    have hbound := label_bound_of_free ht (fun _ => hopens) hkey hmem
    rw [Std.TreeMap.mem_iff_isSome_getElem?, hbound]
    rfl

variable {l' : Layout}

/-- Without an error the label of a line is bound. -/
theorem label_bound {s : Statement} (h : l.add s = (l', none)) {t : Token} (ht : s.label = some t) :
    ∃ key, symbolKey l'.scope t = .ok key ∧ l'.symbols[key]? = some ⟨.label, .value l.address, t⟩ ∧
      (t.kind = .globalLabel → t.opensScope = true) := by
  obtain ⟨label, body⟩ := s
  obtain rfl : label = some t := ht
  have hscope := l.scope_add ⟨some t, body⟩
  rw [h] at hscope
  rw [add_some] at h
  have hstep := l.labelStep_defineLabel t
  generalize l.defineLabel t = step at hstep h
  cases hstep with
  | refused _ _ => cases h
  | taken _ _ => cases h
  | @bound key hopens hkey hfree =>
      refine ⟨key, by rw [hscope]; exact hkey, ?_, hopens⟩
      have hkept := (grows_body (l := { l.opened t with
        symbols := l.symbols.insert key ⟨.label, .value l.address, t⟩ }) body).2.kept
      replace h : add { l.opened t with
        symbols := l.symbols.insert key ⟨.label, .value l.address, t⟩ } ⟨none, body⟩ = (l', none) := h
      rw [h] at hkept
      exact hkept key _ Std.TreeMap.getElem?_insert_self

/-- Without an error the constant of a line is bound. -/
theorem constant_bound {s : Statement} (h : l.add s = (l', none)) {name : Token}
    {value : ConstantValue} {trailing : Option Error}
    (hbody : s.body = .ok (.constant name value trailing)) :
    ∃ meaning, value.meaning l'.scope = .ok meaning ∧
      l'.symbols[name.text]? = some ⟨.constant, meaning, name⟩ := by
  -- the label comes first, and the constant is bound on top of what it leaves
  have hstep {l₁ : Layout} (h : (l₁.add ⟨none, .ok (.constant name value trailing)⟩) = (l', none)) :
      ∃ meaning, value.meaning l'.scope = .ok meaning ∧
        l'.symbols[name.text]? = some ⟨.constant, meaning, name⟩ := by
    replace h : (l₁.defineConstant name value).andThen (fun l => (l, trailing)) = (l', none) := h
    rcases l₁.defineConstant_cases name value with ⟨e, hc⟩ | ⟨meaning, hmeaning, hfree, hc⟩
    · rw [hc] at h
      cases h
    · rw [hc] at h
      cases h
      exact ⟨meaning, hmeaning, Std.TreeMap.getElem?_insert_self⟩
  obtain ⟨label, body⟩ := s
  obtain rfl : body = .ok (.constant name value trailing) := hbody
  cases label with
  | none => exact hstep h
  | some t =>
      rw [add_some] at h
      cases hlabel : l.defineLabel t with
      | mk l₁ error =>
          rw [hlabel] at h
          cases error with
          | some e => cases h
          | none => exact hstep h

end Layout

end GameBoyAssembler
