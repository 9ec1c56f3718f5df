import GameBoyAssembler.Proofs.Reader

/-!
# What a failed statement leaves behind

A statement that fails has perhaps bound its label already, and a constant is bound before what follows
it is looked at.  Nothing else is left behind: the instructions and the address stay, and no symbol
changes.  This holds of any statement in any history, whether lines were skipped after the errors before
it or not.

Main definitions:

* `Layout.Leaves` — the symbols that a line with an error binds;
* `Reader.Reachable` — the readers behind any statements and any skipped lines.

Main results:

* `Layout.frame_of_error` — a line with an error moves neither the instructions nor the address;
* `Layout.symbols_of_error` — **a line with an error binds its label, and its constant if the error is
  behind it**;
* `Reader.failed_statement_leaves_layout` — **a failed statement leaves the layout intact, and any other
  one places one instruction at most**.
-/

set_option relaxedAutoImplicit false
set_option autoImplicit false

namespace GameBoyAssembler

/-! ### Lines with a constant -/

section Constant

variable {name equ t stop : Token} {items rest : List Item} {value : ConstantValue}

/-- What follows a value does not make a constant any other one. -/
theorem Statement.readConstant_eq_ok_iff {body : Body} :
    Statement.readConstant stop name equ (.ok t :: rest) = .ok body ↔
      (isRegisterName name.text || name.isBracketed) = false ∧
        ∃ value, Statement.constantValue t = .ok value ∧
          body = .constant name value (Statement.trailingError rest) := by
  unfold readConstant
  split
  · rename_i hname
    simp [hname]
  · rename_i hname
    rw [Bool.not_eq_true] at hname
    dsimp only
    cases constantValue t with
    | error e => simp [Except.map]
    | ok value => simp [Except.map, hname, eq_comm]

/-- A constant is a name, EQU and a value, and then perhaps something wrong. -/
theorem Statement.shape_of_readBody {trailing : Option Error}
    (h : Statement.readBody stop t items = .ok (.constant name value trailing)) :
    ∃ equ u rest, items = .ok equ :: .ok u :: rest ∧ t = name ∧ name.kind = .identifier ∧
      Statement.isEqu equ = true ∧ (isRegisterName name.text || name.isBracketed) = false ∧
      Statement.constantValue u = .ok value ∧ trailing = Statement.trailingError rest := by
  have hinstruction {items : List Item}
      (h : readInstruction t items = .ok (.constant name value trailing)) : False := by
    unfold readInstruction at h
    split at h
    · cases h
    · cases hitems : items.mapM id with
      | error e =>
          rw [hitems] at h
          cases h
      | ok ts =>
          rw [hitems] at h
          cases h
  unfold readBody at h
  split at h
  · cases h
  · rename_i hkind
    have hkind : t.kind = .identifier := by simpa using hkind
    split at h
    · exact (hinstruction h).elim
    · cases h
    · rename_i equ rest
      split at h
      · rename_i hequ
        cases rest with
        | nil =>
            unfold readConstant at h
            split at h <;> cases h
        | cons item rest =>
            cases item with
            | error e =>
                unfold readConstant at h
                split at h <;> cases h
            | ok u =>
                obtain ⟨hname, v, hv, hbody⟩ := readConstant_eq_ok_iff.1 h
                cases hbody
                exact ⟨equ, u, rest, rfl, rfl, hkind, hequ, hname, hv, rfl⟩
      · exact (hinstruction h).elim

/-- The statement of a line with a constant on it. -/
theorem Line.statement_of_constant {label : Option Token}
    (hlabel : ∀ u, label = some u → u.isLabel = true) (hname : name.kind = .identifier)
    (hequ : Statement.isEqu equ = true) :
    Line.statement ⟨(label.toList ++ [name, equ, t]).map .ok ++ rest, stop⟩
      = ⟨label, Statement.readConstant stop name equ (.ok t :: rest)⟩ := by
  have hbody : Statement.readBody stop name (.ok equ :: .ok t :: rest)
      = Statement.readConstant stop name equ (.ok t :: rest) := by
    simp [Statement.readBody, hname, hequ]
  cases label with
  | none =>
      have hplain : name.isLabel = false := by simp [Token.isLabel, hname]
      simp [Line.statement, hplain, hbody]
  | some u => simp [Line.statement, hlabel u rfl, hbody]

/-- The same with nothing behind the constant. -/
theorem Line.statement_of_constant_alone {label : Option Token}
    (hlabel : ∀ u, label = some u → u.isLabel = true) (hname : name.kind = .identifier)
    (hequ : Statement.isEqu equ = true) :
    Line.statement ⟨(label.toList ++ [name, equ, t]).map .ok, stop⟩
      = ⟨label, Statement.readConstant stop name equ [.ok t]⟩ := by
  rw [← Line.statement_of_constant hlabel hname hequ, List.append_nil]

/-- A line says that there is a constant only if it is written out. -/
theorem Line.exists_constant {line : Line} {trailing : Option Error}
    (h : line.statement.body = .ok (.constant name value trailing)) :
    ∃ equ t rest,
      line.items = (line.statement.label.toList ++ [name, equ, t]).map .ok ++ rest ∧
      (∀ u, line.statement.label = some u → u.isLabel = true) ∧ name.kind = .identifier ∧
      Statement.isEqu equ = true ∧ (isRegisterName name.text || name.isBracketed) = false ∧
      Statement.constantValue t = .ok value ∧ trailing = Statement.trailingError rest := by
  unfold Line.statement at h ⊢
  split at h
  · cases h
  · cases h
  · rename_i u items hitems
    rw [hitems]
    split at h
    · rename_i hlabel
      rw [if_pos hlabel]
      cases items with
      | nil => cases h
      | cons item items =>
          cases item with
          | error e => cases h
          | ok first =>
              obtain ⟨equ, t, rest, rfl, rfl, hkind, hequ, hname, hvalue, htrailing⟩ :=
                Statement.shape_of_readBody h
              refine ⟨equ, t, rest, rfl, ?_, hkind, hequ, hname, hvalue, htrailing⟩
              rintro _ ⟨⟩
              exact hlabel
    · rename_i hlabel
      rw [if_neg hlabel]
      obtain ⟨equ, t, rest, rfl, rfl, hkind, hequ, hname, hvalue, htrailing⟩ :=
        Statement.shape_of_readBody h
      refine ⟨equ, t, rest, rfl, ?_, hkind, hequ, hname, hvalue, htrailing⟩
      rintro _ ⟨⟩

end Constant

theorem Line.label_eq_some_iff {line : Line} {t : Token} :
    line.statement.label = some t ↔ (∃ rest, line.items = .ok t :: rest) ∧ t.isLabel = true := by
  refine ⟨?_, ?_⟩
  · intro h
    obtain ⟨rest, hitems, hlabel, -⟩ := line.exists_says
    rw [h] at hitems
    exact ⟨⟨rest, hitems⟩, hlabel t h⟩
  · rintro ⟨⟨rest, hitems⟩, hlabel⟩
    unfold Line.statement
    rw [hitems]
    dsimp only
    rw [if_pos hlabel]
    split <;> rfl

namespace Layout

variable {l l' : Layout} {s : Statement} {e : Error}

/-! ### The instructions and the address -/

/-- Without its label too, a line with an error places nothing. -/
theorem frame_of_body_error {body : Except Error Body} (h : l.add ⟨none, body⟩ = (l', some e)) :
    l'.pending = l.pending ∧ l'.address = l.address := by
  cases body with
  | error e =>
      cases h
      exact ⟨rfl, rfl⟩
  | ok body =>
      cases body with
      | empty => cases h
      | constant name value trailing =>
          have hconstant := l.defineConstant_frame name value
          have hkeeps := Step.andThen_keeps
            (P := fun l' => l'.pending = l.pending ∧ l'.address = l.address)
            (f := fun l => (l, trailing)) hconstant hconstant
          change ((l.defineConstant name value).andThen fun l => (l, trailing)) = (l', some e) at h
          rwa [h] at hkeeps
      | instruction mnemonic name operands =>
          change l.place mnemonic name operands = (l', some e) at h
          unfold place at h
          dsimp only at h
          split at h
          · cases h
            exact ⟨rfl, rfl⟩
          · split at h
            · cases h
              exact ⟨rfl, rfl⟩
            · cases h

/-- **A line with an error moves neither the instructions nor the address.** -/
theorem frame_of_error (h : l.add s = (l', some e)) :
    l'.pending = l.pending ∧ l'.address = l.address := by
  obtain ⟨label, body⟩ := s
  cases label with
  | none => exact frame_of_body_error h
  | some t =>
      obtain ⟨hpending, haddress⟩ := l.defineLabel_frame t
      rw [add_some] at h
      cases hstep : l.defineLabel t with
      | mk l₁ error =>
          rw [hstep] at h hpending haddress
          cases error with
          | some e =>
              cases h
              exact ⟨hpending, haddress⟩
          | none =>
              obtain ⟨hpending', haddress'⟩ := frame_of_body_error h
              exact ⟨hpending'.trans hpending, haddress'.trans haddress⟩

/-! ### The symbols -/

/-- The symbols that a line with an error binds: its label, with the current address, and its constant
if the line would be right without what follows the constant. -/
inductive Leaves (l : Layout) (line : Line) (e : Error) : String → Symbol → Prop
  | label {t : Token} {rest : List Item} {key : String} (hitems : line.items = .ok t :: rest)
      (hlabel : t.isLabel = true) (hopens : t.kind = .globalLabel → t.opensScope = true)
      (hkey : symbolKey (scopeBehind l.scope (some t)) t = .ok key) :
      Leaves l line e key ⟨.label, .value l.address, t⟩
  | constant {label : Option Token} {name equ t : Token} {rest : List Item}
      {value : ConstantValue} {meaning : Meaning}
      (hitems : line.items = (label.toList ++ [name, equ, t]).map .ok ++ rest)
      (hlabel : ∀ u, label = some u → u.isLabel = true) (hname : name.kind = .identifier)
      (hequ : Statement.isEqu equ = true)
      (hcomplete : (l.add (Line.statement ⟨(label.toList ++ [name, equ, t]).map .ok, line.stop⟩)).2
        = none)
      (hfault : Statement.trailingError rest = some e)
      (hvalue : Statement.constantValue t = .ok value)
      (hmeaning : value.meaning (scopeBehind l.scope label) = .ok meaning) :
      Leaves l line e name.text ⟨.constant, meaning, name⟩

/-- What follows a constant is looked at behind all else. -/
theorem add_constant (label : Option Token) (name : Token) (value : ConstantValue)
    (trailing : Option Error) :
    l.add ⟨label, .ok (.constant name value trailing)⟩
      = (l.add ⟨label, .ok (.constant name value none)⟩).andThen fun l => (l, trailing) := by
  have hbody (l : Layout) : l.add ⟨none, .ok (.constant name value trailing)⟩
      = (l.add ⟨none, .ok (.constant name value none)⟩).andThen fun l => (l, trailing) := by
    change (l.defineConstant name value).andThen _
      = ((l.defineConstant name value).andThen _).andThen _
    obtain ⟨l₁, error⟩ := l.defineConstant name value
    cases error <;> rfl
  cases label with
  | none => exact hbody l
  | some t =>
      rw [add_some, add_some]
      obtain ⟨l₁, error⟩ := l.defineLabel t
      cases error with
      | none => exact hbody l₁
      | some e => rfl

/-- A constant that has an error itself is not bound, so that only the label of its line can be new. -/
theorem kind_of_constant_error {label : Option Token} {name : Token} {value : ConstantValue}
    (h : l.add ⟨label, .ok (.constant name value none)⟩ = (l', some e)) {key : String} {x : Symbol}
    (hfree : key ∉ l.symbols) (hx : l'.symbols[key]? = some x) : x.kind = .label := by
  have hbody {l : Layout} (h : l.add ⟨none, .ok (.constant name value none)⟩ = (l', some e)) :
      l' = l := by
    change (l.defineConstant name value).andThen _ = _ at h
    rcases l.defineConstant_cases name value with ⟨_, hstep⟩ | ⟨_, -, -, hstep⟩
    · rw [hstep] at h
      cases h
      rfl
    · rw [hstep] at h
      cases h
  rw [SymbolTable.notMem_iff] at hfree
  have hsame (hsymbols : l'.symbols = l.symbols) : x.kind = .label := by
    rw [hsymbols, hfree] at hx
    cases hx
  cases label with
  | none => exact hsame (by rw [hbody h])
  | some t =>
      rw [add_some] at h
      have hstep := l.labelStep_defineLabel t
      generalize l.defineLabel t = step at hstep h
      cases hstep with
      | refused _ _ =>
          cases h
          exact hsame rfl
      | taken _ _ =>
          cases h
          exact hsame rfl
      | bound _ _ hnew =>
          obtain rfl := hbody h
          rcases (Grows.insert hnew rfl).added key x hx with hx | ⟨-, rfl⟩
          · rw [hfree] at hx
            cases hx
          · rfl

/-- Without an error the body of a line could be read. -/
theorem exists_body_of_add {label : Option Token} {body : Except Error Body}
    (h : (l.add ⟨label, body⟩).2 = none) : ∃ b, body = .ok b := by
  cases body with
  | ok b => exact ⟨b, rfl⟩
  | error e =>
      cases label with
      | none => cases h
      | some t =>
          rw [add_some] at h
          generalize l.defineLabel t = step at h
          obtain ⟨l₁, error⟩ := step
          cases error <;> cases h

section Constant

variable {line : Line} {name : Token} {value : ConstantValue} {meaning : Meaning}

/-- If a constant is new behind a line with an error, the fault is what follows it. -/
theorem leaves_of_constant {trailing : Option Error}
    (h : l.add line.statement = (l', some e))
    (hbody : line.statement.body = .ok (.constant name value trailing))
    (hmeaning : value.meaning (scopeBehind l.scope line.statement.label) = .ok meaning)
    (hfree : name.text ∉ l.symbols)
    (hx : l'.symbols[name.text]? = some ⟨.constant, meaning, name⟩) :
    l.Leaves line e name.text ⟨.constant, meaning, name⟩ := by
  obtain ⟨equ, t, rest, hitems, hlabel, hkind, hequ, hname, hvalue, rfl⟩ :=
    Line.exists_constant hbody
  have hstatement : line.statement
      = ⟨line.statement.label, .ok (.constant name value (Statement.trailingError rest))⟩ := by
    rw [← hbody]
  rw [hstatement, add_constant] at h
  cases hadd : l.add ⟨line.statement.label, .ok (.constant name value none)⟩ with
  | mk l₁ error =>
      rw [hadd] at h
      cases error with
      | some _ =>
          cases h
          cases kind_of_constant_error hadd hfree hx
      | none =>
          obtain ⟨rfl, hfault⟩ := Prod.mk.inj h
          refine .constant hitems hlabel hkind hequ ?_ hfault hvalue hmeaning
          rw [Line.statement_of_constant_alone hlabel hkind hequ,
            Statement.readConstant_eq_ok_iff.2 ⟨hname, value, hvalue, rfl⟩]
          exact congrArg Prod.snd hadd

/-- A constant is bound if nothing but what follows it is wrong. -/
theorem bound_of_complete {label : Option Token} {equ t : Token} {rest : List Item}
    (h : l.add line.statement = (l', some e))
    (hitems : line.items = (label.toList ++ [name, equ, t]).map .ok ++ rest)
    (hlabel : ∀ u, label = some u → u.isLabel = true) (hname : name.kind = .identifier)
    (hequ : Statement.isEqu equ = true)
    (hcomplete : (l.add (Line.statement ⟨(label.toList ++ [name, equ, t]).map .ok, line.stop⟩)).2
      = none)
    (hfault : Statement.trailingError rest = some e)
    (hvalue : Statement.constantValue t = .ok value)
    (hmeaning : value.meaning (scopeBehind l.scope label) = .ok meaning) :
    l'.symbols[name.text]? = some ⟨.constant, meaning, name⟩ := by
  rw [Line.statement_of_constant_alone hlabel hname hequ] at hcomplete
  obtain ⟨body, hread⟩ := exists_body_of_add hcomplete
  obtain ⟨hvalid, v, hv, rfl⟩ := Statement.readConstant_eq_ok_iff.1 hread
  cases hvalue.symm.trans hv
  have hstatement : line.statement = ⟨label, .ok (.constant name value (some e))⟩ := by
    obtain ⟨items, stop⟩ := line
    obtain rfl : items = _ := hitems
    rw [Line.statement_of_constant hlabel hname hequ, ← hfault,
      Statement.readConstant_eq_ok_iff.2 ⟨hvalid, value, hvalue, rfl⟩]
  have hscope := l.scope_add ⟨label, .ok (.constant name value none)⟩
  rw [hread, Statement.trailingError] at hcomplete
  rw [hstatement, add_constant] at h
  cases hadd : l.add ⟨label, .ok (.constant name value none)⟩ with
  | mk l₁ error =>
      rw [hadd] at h hscope hcomplete
      obtain rfl : error = none := hcomplete
      obtain rfl : l₁ = l' := congrArg Prod.fst h
      obtain ⟨meaning', hmeaning', hbound⟩ := constant_bound hadd rfl
      rw [hscope] at hmeaning'
      cases hmeaning.symm.trans hmeaning'
      exact hbound

end Constant

/-- **A line with an error binds its label, and its constant if the error is behind it.** -/
theorem symbols_of_error {line : Line} (h : l.add line.statement = (l', some e)) {key : String}
    {x : Symbol} (hfree : key ∉ l.symbols) :
    l'.symbols[key]? = some x ↔ l.Leaves line e key x := by
  refine ⟨?_, ?_⟩
  · intro hx
    have hgrows := l.grows_add line.statement
    rw [h] at hgrows
    rcases hgrows.added key x hx with hold | hbinds
    · rw [SymbolTable.notMem_iff.1 hfree] at hold
      cases hold
    · cases hbinds with
      | label ht hopens hkey =>
          obtain ⟨⟨rest, hitems⟩, hlabel⟩ := Line.label_eq_some_iff.1 ht
          rw [ht] at hkey
          exact .label hitems hlabel hopens hkey
      | constant hbody hmeaning => exact leaves_of_constant h hbody hmeaning hfree hx
  · intro hleaves
    cases hleaves with
    | @label t rest key hitems hlabel hopens hkey =>
        have ht := Line.label_eq_some_iff.2 ⟨⟨rest, hitems⟩, hlabel⟩
        have hbound := label_bound_of_free ht hopens hkey hfree
        rwa [h] at hbound
    | constant hitems hlabel hname hequ hcomplete hfault hvalue hmeaning =>
        exact bound_of_complete h hitems hlabel hname hequ hcomplete hfault hvalue hmeaning

/-- The address of a layout is not below its base. -/
theorem IsPlaced.le_address {base : Nat} (h : l.IsPlaced base) : base ≤ l.address := by
  rw [h.consecutive.stop_eq_sum]
  exact Nat.le_add_right _ _

end Layout

/-! ### Any history -/

namespace Reader

/-- The reader behind one more statement, right or wrong. -/
def behind (r : Reader) : Reader :=
  match statement.run r with
  | .ok _ r' => r'
  | .error _ r' => r'

/-- The readers behind any statements, right or wrong, and any skipped lines, in any order. -/
inductive Reachable (source : String) (base : UInt16) : Reader → Prop
  | start : Reachable source base (ofSource source base)
  | statement {r : Reader} (h : Reachable source base r) : Reachable source base r.behind
  | recover {r : Reader} (h : Reachable source base r) : Reachable source base r.recover

variable {source : String} {base : UInt16} {r r' : Reader}

theorem behind_of_ok {goesOn : Bool} (h : statement.run r = .ok goesOn r') : r.behind = r' := by
  rw [behind, h]

theorem behind_of_error {e : Error} (h : statement.run r = .error e r') : r.behind = r' := by
  rw [behind, h]

/-- What one statement does to the instructions and the address. -/
theorem move_behind (r : Reader) : r.layout.Move r.behind.layout := by
  obtain ⟨line, ls, -, hcases⟩ := r.statement_cases
  have hmove := r.layout.move_add line.statement
  rcases hcases with ⟨goesOn, r', hrun, hadd⟩ | ⟨e, r', hrun, hadd⟩
  · rw [hadd] at hmove
    rwa [behind_of_ok hrun]
  · rw [hadd] at hmove
    rwa [behind_of_error hrun]

/-- In any history the instructions are placed one behind the other. -/
theorem Reachable.isPlaced (h : Reachable source base r) : r.layout.IsPlaced base.toNat := by
  induction h with
  | start => exact Layout.isPlaced_start base
  | @statement r _ ih => exact ih.of_move r.move_behind
  | recover _ ih => exact ih

/-- **A failed statement leaves the layout intact.**  In any history one more statement has the effect
of the line in front of it and changes no symbol.  If it fails, the instructions and the address stay,
and the new symbols are its label, and its constant if the fault is behind it.  Otherwise it places at
most one instruction, at the address so far, and the address moves on by the length of the instruction,
between the base and the end of the address space. -/
theorem failed_statement_leaves_layout (h : Reachable source base r) :
    ∃ line ls, r.cursor.OnLine line ls ∧
      ((∃ goesOn r', statement.run r = .ok goesOn r' ∧
          r.layout.add line.statement = (r'.layout, none) ∧
          r.layout.symbols.Extends r'.layout.symbols ∧
          base.toNat ≤ r'.layout.address ∧ r'.layout.address ≤ addressSpace ∧
          (r'.layout.pending = r.layout.pending ∧ r'.layout.address = r.layout.address ∨
            ∃ p i, r'.layout.pending = r.layout.pending.push p ∧
              p.address.toNat = r.layout.address ∧ p.build none = .ok i ∧
              r'.layout.address = r.layout.address + i.bytes.length ∧
              ∀ table j, p.build (some table) = .ok j → j.bytes.length = i.bytes.length)) ∨
        ∃ e r', statement.run r = .error e r' ∧
          r.layout.add line.statement = (r'.layout, some e) ∧
          r.layout.symbols.Extends r'.layout.symbols ∧
          r'.layout.pending = r.layout.pending ∧ r'.layout.address = r.layout.address ∧
          ∀ (key : String) (x : Symbol), key ∉ r.layout.symbols →
            (r'.layout.symbols[key]? = some x ↔ r.layout.Leaves line e key x)) := by
  obtain ⟨line, ls, hline, hcases⟩ := r.statement_cases
  have hkept := (r.layout.grows_add line.statement).kept
  refine ⟨line, ls, hline, ?_⟩
  rcases hcases with ⟨goesOn, r', hrun, hadd⟩ | ⟨e, r', hrun, hadd⟩
  · rw [hadd] at hkept
    have hplaced := h.statement.isPlaced
    have hmove := r.move_behind
    rw [behind_of_ok hrun] at hplaced hmove
    refine Or.inl ⟨goesOn, r', hrun, hadd, hkept, hplaced.le_address, hplaced.address_le, ?_⟩
    cases hmove with
    | stay hpending haddress => exact Or.inl ⟨hpending, haddress⟩
    | place p i hbuild hp hfits hpending haddress =>
        exact Or.inr ⟨p, i, hpending, Layout.toNat_address_of_fits hp hfits, hbuild, haddress,
          fun table j hj => p.length_build table hbuild hj⟩
  · rw [hadd] at hkept
    obtain ⟨hpending, haddress⟩ := Layout.frame_of_error hadd
    exact Or.inr ⟨e, r', hrun, hadd, hkept, hpending, haddress,
      fun _ _ hfree => Layout.symbols_of_error hadd hfree⟩

/-- Behind an instruction, a line with a label and a constant and something wrong behind them: both are
new, and the instruction and the address behind it stay. -/
theorem failed_statement_leaves_layout_trailing :
    ∃ r e r' line ls, Reachable "ONE: NOP\nTWO: N EQU 7 8" 0x150 r ∧ r.cursor.OnLine line ls ∧
      statement.run r = .error e r' ∧ r'.layout.pending = r.layout.pending ∧
      r'.layout.pending.size = 1 ∧ r'.layout.address = 0x151 ∧
      r.layout.Leaves line e "TWO" ⟨.label, .value 0x151, ⟨.globalLabel, "TWO:", ⟨2, 1⟩, none⟩⟩ ∧
      r.layout.Leaves line e "N" ⟨.constant, .value 7, ⟨.identifier, "N", ⟨2, 6⟩, none⟩⟩ := by
  obtain ⟨r, hr⟩ : ∃ r, r = (ofSource "ONE: NOP\nTWO: N EQU 7 8" 0x150).behind := ⟨_, rfl⟩
  have hreachable : Reachable "ONE: NOP\nTWO: N EQU 7 8" 0x150 r := hr ▸ .statement .start
  have hsize : r.layout.pending.size = 1 ∧ r.layout.address = 0x151 := by
    rw [hr]
    decide +kernel
  have hnew : "TWO" ∉ r.layout.symbols ∧ "N" ∉ r.layout.symbols := by
    rw [hr]
    decide +kernel
  have hbound : r.behind.layout.symbols["TWO"]?
        = some ⟨.label, .value 0x151, ⟨.globalLabel, "TWO:", ⟨2, 1⟩, none⟩⟩ ∧
      r.behind.layout.symbols["N"]?
        = some ⟨.constant, .value 7, ⟨.identifier, "N", ⟨2, 6⟩, none⟩⟩ := by
    rw [hr]
    decide +kernel
  obtain ⟨line, ls, hline, hcases⟩ := failed_statement_leaves_layout hreachable
  rcases hcases with ⟨goesOn, r', hrun, -⟩ | ⟨e, r', hrun, -, -, hpending, haddress, hsymbols⟩
  · have hfails : (match statement.run r with | .ok _ _ => false | .error _ _ => true) = true := by
      rw [hr]
      decide +kernel
    rw [hrun] at hfails
    cases hfails
  · rw [behind_of_error hrun] at hbound
    exact ⟨r, e, r', line, ls, hreachable, hline, hrun, hpending, by rw [hpending, hsize.1],
      haddress.trans hsize.2, (hsymbols _ _ hnew.1).1 hbound.1, (hsymbols _ _ hnew.2).1 hbound.2⟩

end Reader

end GameBoyAssembler
