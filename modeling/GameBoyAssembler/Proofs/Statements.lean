import GameBoyAssembler.Proofs.Blame
import GameBoyAssembler.Proofs.Layout

/-!
# What a line says

A line is an optional label and then nothing, a constant or an instruction, or it has an error.  This
module says which items of the line each of these is made of, and what the line does to a layout: it
records an error or at most one instruction, never both.

Main definitions:

* `Blamed` — an error that some items are to blame for: one of them, or an error about a token among
  them;
* `Says` — all that the items behind a label can be read as;
* `Layout.Outcome` — what a line can do to the instructions and errors.

Main results:

* `Line.exists_says` — **every line is a label and a body of this kind**;
* `Layout.outcome_add` — **a line with an error records no instruction, any other line at most one**.
-/

set_option relaxedAutoImplicit false
set_option autoImplicit false

namespace GameBoyAssembler

/-- The error is one of the items or is about a token among them. -/
def Blamed (Q : Token → Prop) (items : List Item) (e : Error) : Prop :=
  .error e ∈ items ∨ e.IsAbout (fun t => .ok t ∈ items) Q

theorem Blamed.mono {Q : Token → Prop} {items items' : List Item} {e : Error}
    (h : Blamed Q items e) (hsub : items ⊆ items') : Blamed Q items' e := by
  rcases h with h | ⟨⟨t, ht, hspan⟩, href⟩
  · exact Or.inl (hsub h)
  · exact Or.inr ⟨⟨t, hsub ht, hspan⟩, href⟩

theorem blamed_about {Q : Token → Prop} {items : List Item} {t : Token} (h : .ok t ∈ items)
    (cause : Cause) : Blamed Q items (.about t cause) :=
  Or.inr (Error.isAbout_about h cause)

/-! ### Statements -/

/-- All that the items behind a label can be read as. -/
inductive Says : List Item → Except Error Body → Prop
  | nothing : Says [] (.ok .empty)
  | instruction {mnemonic : Mnemonic} {name : Token} {operands : List Token}
      (hkind : name.kind = .identifier) (hname : Mnemonic.ofName? name.text = some mnemonic) :
      Says ((name :: operands).map .ok) (.ok (.instruction mnemonic name operands))
  | constant {name equ t : Token} {value : ConstantValue} {items : List Item}
      (hkind : name.kind = .identifier) (hname : isRegisterName name.text = false)
      (hbracket : name.isBracketed = false) (hvalue : Statement.constantValue t = .ok value) :
      Says (.ok name :: .ok equ :: .ok t :: items)
        (.ok (.constant name value (Statement.trailingError items)))
  | fault {items : List Item} {e : Error} (h : ∀ Q, Blamed Q items e) : Says items (.error e)

/-- A list of items is a list of tokens, or one of them is an error. -/
theorem mapM_items (items : List Item) :
    (∃ ts, items.mapM id = .ok ts ∧ items = ts.map .ok) ∨
      ∃ e, items.mapM id = .error e ∧ .error e ∈ items := by
  induction items with
  | nil => exact Or.inl ⟨[], rfl, rfl⟩
  | cons item items ih =>
      rw [List.mapM_cons]
      cases item with
      | error e => exact Or.inr ⟨e, rfl, List.mem_cons_self⟩
      | ok t =>
          rcases ih with ⟨ts, hts, hitems⟩ | ⟨e, he, hmem⟩
          · rw [id, hts, hitems]
            exact Or.inl ⟨t :: ts, rfl, rfl⟩
          · rw [id, he]
            exact Or.inr ⟨e, rfl, List.mem_cons_of_mem _ hmem⟩

namespace Statement

theorem blamed_of_trailingError {items : List Item} {e : Error} (h : trailingError items = some e)
    (Q : Token → Prop) : Blamed Q items e := by
  unfold trailingError at h
  split at h
  · cases h
  · cases h
    exact Or.inl List.mem_cons_self
  · cases h
    exact blamed_about List.mem_cons_self _

theorem constantValue_error {t : Token} {e : Error} (h : constantValue t = .error e) :
    ∃ cause, e = .about t cause := by
  unfold constantValue at h
  repeat' split at h
  all_goals cases h
  all_goals exact ⟨_, rfl⟩

/-- A constant stands for a symbol only if the token behind EQU names one. -/
theorem eq_of_constantValue {t u : Token} (h : constantValue t = .ok (.symbol u)) : u = t := by
  unfold constantValue at h
  repeat' split at h
  all_goals cases h
  all_goals rfl

theorem says_readConstant {stop name equ : Token} (hkind : name.kind = .identifier)
    (items : List Item) :
    Says (.ok name :: .ok equ :: items) (readConstant stop name equ items) := by
  unfold readConstant
  split
  · exact .fault fun Q => blamed_about List.mem_cons_self _
  · rename_i hname
    rw [Bool.or_eq_true, not_or, Bool.not_eq_true, Bool.not_eq_true] at hname
    split
    · exact .fault fun Q => blamed_about (List.mem_cons_of_mem _ List.mem_cons_self) _
    · exact .fault fun Q => Or.inl (by simp)
    · rename_i t rest
      cases hvalue : constantValue t with
      | error e =>
          obtain ⟨cause, rfl⟩ := constantValue_error hvalue
          exact .fault fun Q => blamed_about (by simp) _
      | ok value => exact .constant hkind hname.1 hname.2 hvalue

theorem says_readInstruction {name : Token} (hkind : name.kind = .identifier)
    (items : List Item) : Says (.ok name :: items) (readInstruction name items) := by
  unfold readInstruction
  split
  · exact .fault fun Q => blamed_about List.mem_cons_self _
  · rename_i mnemonic hmnemonic
    rcases mapM_items items with ⟨ts, hts, rfl⟩ | ⟨e, he, hmem⟩
    · rw [hts]
      exact .instruction hkind hmnemonic
    · rw [he]
      exact .fault fun Q => Or.inl (List.mem_cons_of_mem _ hmem)

theorem says_readBody (stop t : Token) (items : List Item) :
    Says (.ok t :: items) (readBody stop t items) := by
  unfold readBody
  split
  · exact .fault fun Q => blamed_about List.mem_cons_self _
  · rename_i hkind
    have hkind : t.kind = .identifier := by simpa using hkind
    split
    · exact says_readInstruction hkind []
    · exact .fault fun Q => Or.inl (by simp)
    · split
      · exact says_readConstant hkind _
      · exact says_readInstruction hkind _

end Statement

/-- **Every line is a label and a body**, and all its items belong to one of them. -/
theorem Line.exists_says (l : Line) :
    ∃ items, l.items = l.statement.label.toList.map .ok ++ items ∧
      (∀ t, l.statement.label = some t → t.isLabel = true) ∧ Says items l.statement.body := by
  unfold statement
  split
  · rename_i hitems
    exact ⟨[], hitems, nofun, .nothing⟩
  · rename_i e rest hitems
    exact ⟨_, hitems, nofun, .fault fun Q => Or.inl List.mem_cons_self⟩
  · rename_i t rest hitems
    split
    · rename_i hlabel
      have hlabel : ∀ u, some t = some u → u.isLabel = true := by
        rintro _ ⟨⟩
        exact hlabel
      split
      · exact ⟨[], hitems, hlabel, .nothing⟩
      · exact ⟨_, hitems, hlabel, .fault fun Q => Or.inl List.mem_cons_self⟩
      · exact ⟨_, hitems, hlabel, Statement.says_readBody _ _ _⟩
    · exact ⟨_, hitems, nofun, Statement.says_readBody _ _ _⟩

/-! ### What a line does to a layout -/

namespace Layout

variable {l : Layout} {P Q R : Token → Prop} {e : Error}

section Errors

variable (hl : l.symbols.TokensIn R Q)

include hl

theorem isAbout_of_bind {key : String} {symbol : Symbol}
    (h : (l.bind key symbol).2 = some e) (hp : P symbol.token) : e.IsAbout P Q := by
  unfold bind SymbolTable.bind at h
  split at h
  · cases h
  · rename_i hbind
    split at hbind
    · rename_i earlier hearlier
      cases hbind
      cases h
      refine Error.isAbout_referring hp _ ?_
      rintro _ ⟨⟩
      exact (hl key earlier hearlier).1
    · cases hbind

theorem isAbout_of_bindLabel {t : Token} (ht : P t) (h : (l.bindLabel t).2 = some e) :
    e.IsAbout P Q := by
  unfold bindLabel at h
  split at h
  · exact isAbout_of_bind hl h ht
  · rename_i hkey
    cases h
    exact (reads_symbolKey ht _).isAbout hkey

theorem isAbout_of_defineLabel {t : Token} (ht : P t) (h : (l.defineLabel t).2 = some e) :
    e.IsAbout P Q := by
  unfold defineLabel at h
  split at h
  · dsimp only at h
    split at h
    · cases h
      exact Error.isAbout_about ht _
    · exact isAbout_of_bindLabel (l := { l with scope := some (withoutColons t.text) }) hl ht h
  · exact isAbout_of_bindLabel hl ht h

theorem isAbout_of_defineConstant {name : Token} {value : ConstantValue} (hname : P name)
    (hvalue : ∀ t, value = .symbol t → P t) (h : (l.defineConstant name value).2 = some e) :
    e.IsAbout P Q := by
  cases value with
  | number v => exact isAbout_of_bind hl h hname
  | symbol t =>
      unfold defineConstant at h
      dsimp only at h
      split at h
      · exact isAbout_of_bind hl h hname
      · rename_i hkey
        cases h
        exact (reads_symbolKey (hvalue t rfl) _).isAbout hkey

theorem tokensIn_bind {key : String} {symbol : Symbol} (hq : Q symbol.token)
    (halias : ∀ k t, symbol.meaning = .sameAs k t → R t) :
    (l.bind key symbol).1.symbols.TokensIn R Q := by
  unfold bind SymbolTable.bind
  cases l.symbols[key]? with
  | some earlier => exact hl
  | none =>
      intro k s hs
      rw [Std.TreeMap.getElem?_insert] at hs
      split at hs
      · cases hs
        exact ⟨hq, halias⟩
      · exact hl k s hs

theorem tokensIn_bindLabel {t : Token} (ht : Q t) :
    (l.bindLabel t).1.symbols.TokensIn R Q := by
  unfold bindLabel
  split
  · exact tokensIn_bind hl ht nofun
  · exact hl

theorem tokensIn_defineLabel {t : Token} (ht : Q t) :
    (l.defineLabel t).1.symbols.TokensIn R Q := by
  unfold defineLabel
  split
  · dsimp only
    split
    · exact hl
    · exact tokensIn_bindLabel (l := { l with scope := some (withoutColons t.text) }) hl ht
  · exact tokensIn_bindLabel hl ht

theorem tokensIn_defineConstant {name : Token} {value : ConstantValue} (hname : Q name)
    (hvalue : ∀ t, value = .symbol t → R t) :
    (l.defineConstant name value).1.symbols.TokensIn R Q := by
  cases value with
  | number v => exact tokensIn_bind hl hname nofun
  | symbol t =>
      unfold defineConstant
      dsimp only
      split
      · refine tokensIn_bind hl hname ?_
        rintro _ _ ⟨⟩
        exact hvalue t rfl
      · exact hl

end Errors

/-- What some items do to the instructions: they leave them as they are and have an error that the
items are to blame for, or have no error and record at most one instruction with its name among
them. -/
inductive Outcome (Q : Token → Prop) (l : Layout) (items : List Item) : Step → Prop
  | fault {l' : Layout} {e : Error} (hpending : l'.pending = l.pending)
      (h : Blamed Q items e) : Outcome Q l items (l', some e)
  | quiet {l' : Layout} (hpending : l'.pending = l.pending) : Outcome Q l items (l', none)
  | placed {l' : Layout} {q : Pending} (hpending : l'.pending = l.pending.push q)
      (hname : .ok q.name ∈ items) : Outcome Q l items (l', none)

theorem Outcome.of_pending {l₀ : Layout} {items items' : List Item} {s : Step}
    (h : Outcome Q l items s) (hpending : l.pending = l₀.pending) (hsub : items ⊆ items') :
    Outcome Q l₀ items' s := by
  cases h with
  | fault h hblamed => exact .fault (h.trans hpending) (hblamed.mono hsub)
  | quiet h => exact .quiet (h.trans hpending)
  | placed h hname => exact .placed (h.trans (by rw [hpending])) (hsub hname)

theorem outcome_place (mnemonic : Mnemonic) (name : Token) (operands : List Token) :
    Outcome Q l ((name :: operands).map .ok) (l.place mnemonic name operands) := by
  unfold place
  dsimp only
  split
  · rename_i hbuild
    obtain ⟨⟨t, ht, hspan⟩, href⟩ := Pending.isAbout_of_build_none (Q := Q) hbuild
    exact .fault rfl (Or.inr ⟨⟨t, List.mem_map_of_mem ht, hspan⟩, href⟩)
  · split
    · exact .fault rfl (blamed_about List.mem_cons_self _)
    · exact .placed rfl List.mem_cons_self

/-- A label is defined before the rest of its line. -/
theorem add_some (t : Token) (body : Except Error Body) :
    l.add ⟨some t, body⟩ = (l.defineLabel t).andThen fun l => l.add ⟨none, body⟩ := rfl

theorem outcome_body (hl : l.symbols.TokensIn R Q) {items : List Item}
    {body : Except Error Body} (h : Says items body) :
    Outcome Q l items (l.add ⟨none, body⟩) := by
  cases h with
  | nothing => exact .quiet rfl
  | fault h => exact .fault rfl (h Q)
  | instruction hkind hname => exact outcome_place _ _ _
  | @constant name equ t value items hkind hname hbracket hvalue =>
      obtain ⟨hpending, -⟩ := l.defineConstant_frame name value
      change Outcome Q l _ ((l.defineConstant name value).andThen fun l =>
        (l, Statement.trailingError items))
      cases hstep : l.defineConstant name value with
      | mk l' error =>
          rw [hstep] at hpending
          cases error with
          | some e =>
              refine .fault hpending (Or.inr ?_)
              refine isAbout_of_defineConstant hl List.mem_cons_self ?_ (congrArg Prod.snd hstep)
              rintro u rfl
              rw [Statement.eq_of_constantValue hvalue]
              simp
          | none =>
              change Outcome Q l _ (l', Statement.trailingError items)
              cases htrailing : Statement.trailingError items with
              | none => exact .quiet hpending
              | some e =>
                  refine .fault hpending ?_
                  refine (Statement.blamed_of_trailingError htrailing Q).mono ?_
                  exact (List.suffix_append [.ok name, .ok equ, .ok t] items).subset

/-- **A line with an error records no instruction, any other line at most one.** -/
theorem outcome_add (line : Line) (hl : l.symbols.TokensIn R Q)
    (hline : ∀ t, .ok t ∈ line.items → Q t) :
    Outcome Q l line.items (l.add line.statement) := by
  obtain ⟨items, hitems, -, hsays⟩ := line.exists_says
  rw [hitems] at hline ⊢
  generalize line.statement = s at *
  obtain ⟨label, body⟩ := s
  cases label with
  | none => exact outcome_body hl hsays
  | some t =>
      have ht : .ok t ∈ (some t).toList.map .ok ++ items := List.mem_cons_self
      obtain ⟨hpending, -⟩ := l.defineLabel_frame t
      have hsymbols := tokensIn_defineLabel hl (hline t ht)
      rw [add_some]
      cases hstep : l.defineLabel t with
      | mk l' error =>
          rw [hstep] at hpending hsymbols
          cases error with
          | some e =>
              refine .fault hpending (Or.inr ?_)
              exact isAbout_of_defineLabel hl ht (congrArg Prod.snd hstep)
          | none => exact (outcome_body hsymbols hsays).of_pending hpending (by simp)

end Layout

end GameBoyAssembler
