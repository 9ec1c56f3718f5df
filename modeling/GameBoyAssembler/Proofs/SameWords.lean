import GameBoyAssembler.Program
import GameBoyAssembler.Proofs.Lexing
import GameBoyAssembler.Proofs.ReadAlike

/-!
# Lines with the same words

Every token carries its place in the source, and tokens with their places go into statements, symbols
and pending instructions.  Errors are the only thing that places are for.  This module carries that
through the assembler: from lines with the same words, at any places, come the same statements, the
same layouts and in the end the same instructions, or errors of the same kind.

There is one relation for each kind of data, which leaves the places out, and one lemma for each
function, which says that the function keeps the relations.

Main definitions:

* `Token.SameWord`, `SameItem` — the same word, or errors of the same kind;
* `Symbol.sense`, `SymbolTable.Same` — what a symbol is without its places, and tables that bind the
  same keys to the same;
* `Statement.Same`, `Layout.Same`, `Program.Same` — statements, layouts and programs that differ in
  places only;
* `assembleLines` — the program of some lines.

Main results:

* `SymbolTable.Same.value?_eq` — such tables give every key the same value;
* `Line.same_statement` — lines with the same words are the same statement;
* `Layout.Same.add` — the same statement has the same effect;
* `agrees_assembleLines` — **lines with the same words are the same program**.
-/

set_option relaxedAutoImplicit false
set_option autoImplicit false

namespace GameBoyAssembler

/-! ### Tokens -/

/-- The same word, at any two places. -/
def Token.SameWord (t u : Token) : Prop :=
  t.word = u.word

namespace Token.SameWord

variable {t u : Token}

theorem kind_eq (h : t.SameWord u) : t.kind = u.kind :=
  congrArg Word.kind h

theorem text_eq (h : t.SameWord u) : t.text = u.text :=
  congrArg Word.text h

theorem value_eq (h : t.SameWord u) : t.value = u.value :=
  congrArg Word.value h

theorem isBracketed_eq (h : t.SameWord u) : t.isBracketed = u.isBracketed := by
  rw [isBracketed, isBracketed, h.text_eq]

theorem unbracketed_eq (h : t.SameWord u) : t.unbracketed = u.unbracketed := by
  rw [unbracketed, unbracketed, h.isBracketed_eq, h.text_eq]

theorem shape (h : t.SameWord u) : Agrees Eq t.shape u.shape := by
  unfold Token.shape
  rw [h.kind_eq, h.text_eq, h.isBracketed_eq]
  split
  all_goals exact rfl

theorem symbolKey (h : t.SameWord u) (scope : Option String) :
    Agrees Eq (symbolKey scope t) (symbolKey scope u) := by
  unfold GameBoyAssembler.symbolKey
  rw [h.kind_eq, h.text_eq, h.unbracketed_eq]
  split
  · split <;> exact rfl
  · exact rfl

theorem stackPair (h : t.SameWord u) : Agrees Eq t.stackPair u.stackPair := by
  unfold Token.stackPair
  rw [h.kind_eq, h.text_eq]
  dsimp only
  split
  · exact .pure rfl
  · refine h.shape.bind ?_
    rintro s _ rfl
    exact .throw rfl

theorem condition (h : t.SameWord u) : Agrees Eq t.condition u.condition := by
  unfold Token.condition
  rw [h.kind_eq, h.text_eq]
  dsimp only
  split <;> exact rfl

end Token.SameWord

/-! ### Symbols -/

/-- What a symbol is, without the places that it was defined at: its kind, and the number or the key
that it is bound to. -/
def Symbol.sense (x : Symbol) : SymbolKind × (Int ⊕ String) :=
  (x.kind, match x.meaning with
    | .value v => .inl v
    | .sameAs key _ => .inr key)

namespace SymbolTable

/-- The same keys, bound to the same. -/
def Same (a b : SymbolTable) : Prop :=
  ∀ key : String, a[key]?.map Symbol.sense = b[key]?.map Symbol.sense

namespace Same

variable {a b c : SymbolTable}

theorem refl (a : SymbolTable) : Same a a :=
  fun _ => rfl

theorem symm (h : Same a b) : Same b a :=
  fun key => (h key).symm

theorem trans (h : Same a b) (h' : Same b c) : Same a c :=
  fun key => (h key).trans (h' key)

theorem size_eq (h : Same a b) : a.size = b.size := by
  have hequiv : (a.map fun _ x => x.sense).Equiv (b.map fun _ x => x.sense) := by
    refine Std.TreeMap.Equiv.of_forall_constGet?_eq fun key => ?_
    change (a.map fun _ x => x.sense)[key]? = (b.map fun _ x => x.sense)[key]?
    rw [Std.TreeMap.getElem?_map, Std.TreeMap.getElem?_map]
    exact h key
  have hsize := hequiv.size_eq
  rwa [Std.TreeMap.size_map, Std.TreeMap.size_map] at hsize

theorem insert (h : Same a b) (key : String) {x y : Symbol} (hxy : x.sense = y.sense) :
    Same (a.insert key x) (b.insert key y) := by
  intro k
  rw [Std.TreeMap.getElem?_insert, Std.TreeMap.getElem?_insert]
  split
  · exact congrArg some hxy
  · exact h k

/-- Aliases lead to the same value. -/
theorem chaseSteps (h : Same a b) (steps : Nat) {x y : Symbol} (hxy : x.sense = y.sense) :
    (a.chaseSteps steps x).toOption = (b.chaseSteps steps y).toOption := by
  induction steps generalizing x y with
  | zero => rfl
  | succ steps ih =>
      obtain ⟨kind, meaning, token⟩ := x
      obtain ⟨kind', meaning', token'⟩ := y
      cases meaning with
      | value v =>
          cases meaning' with
          | value v' =>
              cases hxy
              rfl
          | sameAs key t => cases hxy
      | sameAs key t =>
          cases meaning' with
          | value v => cases hxy
          | sameAs key' t' =>
              obtain rfl : key = key' := Sum.inr.inj (congrArg Prod.snd hxy)
              have hkey := h key
              simp only [SymbolTable.chaseSteps]
              cases ha : a[key]? with
              | none =>
                  cases hb : b[key]? with
                  | none => rfl
                  | some y => rw [ha, hb] at hkey; cases hkey
              | some x =>
                  cases hb : b[key]? with
                  | none => rw [ha, hb] at hkey; cases hkey
                  | some y =>
                      rw [ha, hb] at hkey
                      exact ih (Option.some.inj hkey)

theorem chase (h : Same a b) {x y : Symbol} (hxy : x.sense = y.sense) :
    (a.chase x).toOption = (b.chase y).toOption := by
  rw [SymbolTable.chase, SymbolTable.chase, h.size_eq]
  exact h.chaseSteps _ hxy

/-- A key is bound in both tables, to the same, or in neither. -/
theorem lookup (h : Same a b) (key : String) :
    (a[key]? = none ∧ b[key]? = none) ∨
      ∃ x y, a[key]? = some x ∧ b[key]? = some y ∧ x.sense = y.sense := by
  have hkey := h key
  cases ha : a[key]? with
  | none =>
      rw [ha, Option.map_none, eq_comm, Option.map_eq_none_iff] at hkey
      exact Or.inl ⟨rfl, hkey⟩
  | some x =>
      rw [ha, Option.map_some, eq_comm, Option.map_eq_some_iff] at hkey
      obtain ⟨y, hy, hxy⟩ := hkey
      exact Or.inr ⟨x, y, rfl, hy, hxy.symm⟩

/-- A key can be bound in both tables or in neither. -/
theorem bind (h : Same a b) (key : String) {x y : Symbol} (hxy : x.sense = y.sense) :
    Agrees Same (a.bind key x) (b.bind key y) := by
  unfold SymbolTable.bind
  rcases h.lookup key with ⟨ha, hb⟩ | ⟨x', y', ha, hb, -⟩
  · rw [ha, hb]
    exact h.insert key hxy
  · rw [ha, hb]
    exact rfl

theorem kind_eq (h : Same a b) (key : String) :
    a[key]?.map Symbol.kind = b[key]?.map Symbol.kind := by
  rcases h.lookup key with ⟨ha, hb⟩ | ⟨x, y, ha, hb, hxy⟩
  · rw [ha, hb]
  · rw [ha, hb]
    exact congrArg (fun sense => some sense.1) hxy

/-- **The same keys have the same values.** -/
theorem value?_eq (h : Same a b) (key : String) : a.value? key = b.value? key := by
  unfold value?
  rcases h.lookup key with ⟨ha, hb⟩ | ⟨x, y, ha, hb, hxy⟩
  · rw [ha, hb]
    rfl
  · rw [ha, hb]
    exact h.chase hxy

theorem resolve (h : Same a b) (key : String) (t u : Token) :
    Agrees (fun v w => v.1 = w.1) (a.resolve key t) (b.resolve key u) := by
  unfold SymbolTable.resolve
  rcases h.lookup key with ⟨ha, hb⟩ | ⟨x, y, ha, hb, hxy⟩
  · rw [ha, hb]
    exact rfl
  · have hchase := h.chase hxy
    simp only [ha, hb]
    -- whatever keeps a key from having a value is a resolution error
    cases hx : a.chase x with
    | ok v =>
        cases hy : b.chase y with
        | ok w =>
            rw [hx, hy] at hchase
            exact Option.some.inj hchase
        | error f => rw [hx, hy] at hchase; cases hchase
    | error e =>
        cases hy : b.chase y with
        | ok w => rw [hx, hy] at hchase; cases hchase
        | error f => cases e <;> cases f <;> exact rfl

end Same

end SymbolTable

/-! ### Operands -/

/-- The same symbols are known in both contexts, or none. -/
inductive SameSymbols : Option SymbolTable → Option SymbolTable → Prop
  | none : SameSymbols none none
  | some {a b : SymbolTable} (h : SymbolTable.Same a b) : SameSymbols (some a) (some b)

/-- The same word is read alike in contexts that differ in places only. -/
theorem Token.SameWord.readAlike {t u : Token} (h : t.SameWord u) {c d : Context}
    (hsymbols : SameSymbols c.symbols d.symbols) (hscope : c.scope = d.scope) :
    ReadAlike (fun e f => e.kind = f.kind) c d t u := by
  obtain ⟨symbols, scope, address⟩ := c
  obtain ⟨symbols', scope', address'⟩ := d
  obtain rfl : scope = scope' := hscope
  refine ⟨⟨fun _ _ _ _ hkind => hkind, h.shape, h.stackPair, h.condition, ?_, ?_⟩, by rw [h.value_eq]⟩
  · rw [isComma, isComma, h.kind_eq]
  · unfold Context.quantity
    rw [h.value_eq]
    cases u.value with
    | some v => exact .pure rfl
    | none =>
        refine h.shape.bind ?_
        rintro s _ rfl
        cases s with
        | immediate | memory =>
            refine (h.symbolKey scope).bind ?_
            rintro key _ rfl
            cases hsymbols with
            | none => exact .pure rfl
            | some hsame =>
                refine (hsame.resolve key t u).bind fun p q hpq => ?_
                exact .pure (congrArg some hpq)
        | _ => exact .throw rfl

/-! ### Statements -/

/-- The same word, or an error of the same kind in its place. -/
abbrev SameItem : Item → Item → Prop :=
  Agrees Token.SameWord

theorem sameItem_refl (x : Item) : SameItem x x := by
  cases x <;> exact rfl

/-- The same value of a constant, at any two places. -/
inductive ConstantValue.Same : ConstantValue → ConstantValue → Prop
  | number (v : Int) : Same (.number v) (.number v)
  | symbol {t u : Token} (h : t.SameWord u) : Same (.symbol t) (.symbol u)

/-- The same body, at any two places. -/
inductive Body.Same : Body → Body → Prop
  | empty : Same .empty .empty
  | constant {name name' : Token} {value value' : ConstantValue} {trailing trailing' : Option Error}
      (hname : name.SameWord name') (hvalue : value.Same value')
      (htrailing : trailing.map Error.kind = trailing'.map Error.kind) :
      Same (.constant name value trailing) (.constant name' value' trailing')
  | instruction {mnemonic : Mnemonic} {name name' : Token} {operands operands' : List Token}
      (hoperands : List.Forall₂ Token.SameWord operands operands') :
      Same (.instruction mnemonic name operands) (.instruction mnemonic name' operands')

namespace Statement

/-- The same statement, at any two places. -/
structure Same (s s' : Statement) : Prop where
  label : s.label.map Token.word = s'.label.map Token.word
  body : Agrees Body.Same s.body s'.body

variable {stop stop' t u name name' equ equ' : Token} {items items' : List Item}

theorem sameKind_trailingError (h : List.Forall₂ SameItem items items') :
    (trailingError items).map Error.kind = (trailingError items').map Error.kind := by
  cases h with
  | nil => rfl
  | cons hfirst _ =>
      rcases hfirst.cases with ⟨t, u, rfl, rfl, -⟩ | ⟨e, f, rfl, rfl, hkind⟩
      · rfl
      · exact congrArg some hkind

theorem agrees_constantValue (h : t.SameWord u) :
    Agrees ConstantValue.Same (constantValue t) (constantValue u) := by
  unfold constantValue
  rw [h.kind_eq, h.value_eq, h.text_eq, h.isBracketed_eq]
  split
  · exact .number _
  · split
    · exact rfl
    · split
      · exact rfl
      · exact .symbol h
  · exact .symbol h
  · exact rfl

theorem agrees_readConstant (hname : name.SameWord name') (h : List.Forall₂ SameItem items items') :
    Agrees Body.Same (readConstant stop name equ items) (readConstant stop' name' equ' items') := by
  unfold readConstant
  rw [hname.text_eq, hname.isBracketed_eq]
  split
  · exact rfl
  · cases h with
    | nil => exact rfl
    | cons hfirst hrest =>
        rcases hfirst.cases with ⟨t, u, rfl, rfl, htu⟩ | ⟨e, f, rfl, rfl, hkind⟩
        · exact (agrees_constantValue htu).map fun v v' hv =>
            .constant hname hv (sameKind_trailingError hrest)
        · exact hkind

theorem agrees_readInstruction (hname : name.SameWord name')
    (h : List.Forall₂ SameItem items items') :
    Agrees Body.Same (readInstruction name items) (readInstruction name' items') := by
  unfold readInstruction
  rw [hname.text_eq]
  split
  · exact rfl
  · exact (AgreesUpTo.mapM h).map fun ts us hts => .instruction hts

theorem agrees_readBody (ht : t.SameWord u) (h : List.Forall₂ SameItem items items') :
    Agrees Body.Same (readBody stop t items) (readBody stop' u items') := by
  unfold readBody
  rw [ht.kind_eq]
  split
  · exact rfl
  · cases h with
    | nil => exact agrees_readInstruction ht .nil
    | cons hfirst hrest =>
        rcases hfirst.cases with ⟨next, next', rfl, rfl, hnext⟩ | ⟨e, f, rfl, rfl, hkind⟩
        · have hequ : isEqu next = isEqu next' := by
            rw [isEqu, isEqu, hnext.kind_eq, hnext.text_eq]
          dsimp only
          rw [hequ]
          split
          · exact agrees_readConstant ht hrest
          · exact agrees_readInstruction ht (.cons hnext hrest)
        · exact hkind

end Statement

/-- **Lines with the same words are the same statement.** -/
theorem Line.same_statement {l l' : Line} (h : List.Forall₂ SameItem l.items l'.items) :
    l.statement.Same l'.statement := by
  obtain ⟨items, stop⟩ := l
  obtain ⟨items', stop'⟩ := l'
  unfold statement
  cases h with
  | nil => exact ⟨rfl, .empty⟩
  | cons hfirst hrest =>
      rcases hfirst.cases with ⟨t, u, rfl, rfl, htu⟩ | ⟨e, f, rfl, rfl, hkind⟩
      · have hlabel : t.isLabel = u.isLabel := by
          rw [Token.isLabel, Token.isLabel, htu.kind_eq]
        dsimp only
        rw [hlabel]
        split
        · cases hrest with
          | nil => exact ⟨congrArg some htu, .empty⟩
          | cons hnext hrest =>
              rcases hnext.cases with ⟨v, w, rfl, rfl, hvw⟩ | ⟨e, f, rfl, rfl, hkind⟩
              · exact ⟨congrArg some htu, Statement.agrees_readBody hvw hrest⟩
              · exact ⟨congrArg some htu, hkind⟩
        · exact ⟨rfl, Statement.agrees_readBody htu hrest⟩
      · exact ⟨rfl, hkind⟩

/-! ### Layouts -/

/-- The same instruction, at any two places of the source. -/
structure Pending.Same (p q : Pending) : Prop where
  mnemonic : p.mnemonic = q.mnemonic
  operands : List.Forall₂ Token.SameWord p.operands q.operands
  address : p.address = q.address
  scope : p.scope = q.scope

theorem Pending.Same.build {p q : Pending} (h : p.Same q) {symbols symbols' : Option SymbolTable}
    (hsymbols : SameSymbols symbols symbols') :
    Agrees Eq (p.build symbols) (q.build symbols') := by
  unfold Pending.build
  rw [h.mnemonic]
  refine Context.agrees_select h.address ?_ _ fun _ _ _ _ hkind => hkind
  exact h.operands.imp fun t u htu => htu.readAlike hsymbols h.scope

namespace Layout

/-- Layouts that differ in places of the source only. -/
structure Same (l l' : Layout) : Prop where
  symbols : SymbolTable.Same l.symbols l'.symbols
  pending : List.Forall₂ Pending.Same l.pending.toList l'.pending.toList
  address : l.address = l'.address
  scope : l.scope = l'.scope

/-- Steps to such layouts, without an error or with errors of the same kind. -/
structure Step.Same (s s' : Step) : Prop where
  layout : s.1.Same s'.1
  kind : s.2.map Error.kind = s'.2.map Error.kind

theorem Step.Same.andThen {s s' : Step} (h : s.Same s') {f g : Layout → Step}
    (hfg : ∀ l l', l.Same l' → (f l).Same (g l')) : (s.andThen f).Same (s'.andThen g) := by
  obtain ⟨l, e⟩ := s
  obtain ⟨l', e'⟩ := s'
  have hkind := h.kind
  cases e with
  | none =>
      cases e' with
      | none => exact hfg l l' h.layout
      | some e' => cases hkind
  | some e =>
      cases e' with
      | none => cases hkind
      | some e' => exact h

namespace Same

variable {l l' : Layout} (h : l.Same l')

include h

theorem bind (key : String) {x y : Symbol} (hxy : x.sense = y.sense) :
    (l.bind key x).Same (l'.bind key y) := by
  unfold Layout.bind
  rcases (h.symbols.bind key hxy).cases with ⟨a, b, ha, hb, hab⟩ | ⟨e, f, ha, hb, hkind⟩
  · rw [ha, hb]
    exact ⟨⟨hab, h.pending, h.address, h.scope⟩, rfl⟩
  · rw [ha, hb]
    exact ⟨h, congrArg some hkind⟩

theorem bindLabel {t u : Token} (htu : t.SameWord u) : (l.bindLabel t).Same (l'.bindLabel u) := by
  have hkey := htu.symbolKey l.scope
  unfold Layout.bindLabel
  rw [← h.scope, ← h.address]
  rcases hkey.cases with ⟨key, _, ht, hu, rfl⟩ | ⟨e, f, ht, hu, hkind⟩
  · rw [ht, hu]
    exact h.bind key rfl
  · rw [ht, hu]
    exact ⟨h, congrArg some hkind⟩

theorem defineLabel {t u : Token} (htu : t.SameWord u) :
    (l.defineLabel t).Same (l'.defineLabel u) := by
  unfold Layout.defineLabel
  rw [htu.kind_eq, htu.text_eq]
  split
  · dsimp only
    split
    · exact ⟨h, rfl⟩
    · have hscope : Same { l with scope := some (withoutColons u.text) }
          { l' with scope := some (withoutColons u.text) } :=
        ⟨h.symbols, h.pending, h.address, rfl⟩
      exact hscope.bindLabel htu
  · exact h.bindLabel htu

theorem defineConstant {name name' : Token} (hname : name.SameWord name')
    {value value' : ConstantValue} (hvalue : value.Same value') :
    (l.defineConstant name value).Same (l'.defineConstant name' value') := by
  unfold Layout.defineConstant
  rw [hname.text_eq]
  cases hvalue with
  | number v => exact h.bind _ rfl
  | symbol htu =>
      have hkey := htu.symbolKey l.scope
      dsimp only
      rw [← h.scope]
      rcases hkey.cases with ⟨key, _, ht, hu, rfl⟩ | ⟨e, f, ht, hu, hkind⟩
      · rw [ht, hu]
        exact h.bind _ rfl
      · rw [ht, hu]
        exact ⟨h, congrArg some hkind⟩

theorem place (mnemonic : Mnemonic) (name name' : Token) {operands operands' : List Token}
    (hoperands : List.Forall₂ Token.SameWord operands operands') :
    (l.place mnemonic name operands).Same (l'.place mnemonic name' operands') := by
  have hpending : Pending.Same ⟨mnemonic, name, operands, UInt16.ofNat l.address, l.scope⟩
      ⟨mnemonic, name', operands', UInt16.ofNat l'.address, l'.scope⟩ :=
    ⟨rfl, hoperands, by rw [h.address], h.scope⟩
  unfold Layout.place
  dsimp only
  rcases (hpending.build .none).cases with ⟨i, _, ht, hu, rfl⟩ | ⟨e, f, ht, hu, hkind⟩
  · rw [ht, hu]
    dsimp only
    rw [h.address]
    split
    · exact ⟨h, rfl⟩
    · refine ⟨⟨h.symbols, ?_, rfl, h.scope⟩, rfl⟩
      rw [Array.toList_push, Array.toList_push]
      rw [h.address] at hpending
      exact List.rel_append h.pending (.cons hpending .nil)
  · rw [ht, hu]
    exact ⟨h, congrArg some hkind⟩

theorem addBody {body body' : Body} (hbody : body.Same body') :
    (l.addBody body).Same (l'.addBody body') := by
  cases hbody with
  | empty => exact ⟨h, rfl⟩
  | constant hname hvalue htrailing =>
      exact (h.defineConstant hname hvalue).andThen fun l l' hl => ⟨hl, htrailing⟩
  | instruction hoperands => exact h.place _ _ _ hoperands

theorem addUnlabelled {body body' : Except Error Body} (hbody : Agrees Body.Same body body') :
    (l.add ⟨none, body⟩).Same (l'.add ⟨none, body'⟩) := by
  rcases hbody.cases with ⟨b, b', rfl, rfl, hb⟩ | ⟨e, f, rfl, rfl, hkind⟩
  · exact h.addBody hb
  · exact ⟨h, congrArg some hkind⟩

/-- **The same statement has the same effect.** -/
theorem add {s s' : Statement} (hs : s.Same s') : (l.add s).Same (l'.add s') := by
  obtain ⟨label, body⟩ := s
  obtain ⟨label', body'⟩ := s'
  obtain ⟨hlabel, hbody⟩ := hs
  cases label with
  | none =>
      cases label' with
      | none => exact h.addUnlabelled hbody
      | some u => cases hlabel
  | some t =>
      cases label' with
      | none => cases hlabel
      | some u =>
          have htu : t.SameWord u := Option.some.inj hlabel
          exact (h.defineLabel htu).andThen fun l l' hl => hl.addUnlabelled hbody

end Same

/-- **Lines with the same words lead to the same layout**, or to errors of the same kind. -/
theorem Same.untilError {l l' : Layout} (h : l.Same l') {lines lines' : List Line}
    (hlines : List.Forall₂ (fun x y => List.Forall₂ SameItem x.items y.items) lines lines') :
    Agrees Same (l.untilError lines) (l'.untilError lines') := by
  induction hlines generalizing l l' with
  | nil => exact h
  | @cons line line' lines lines' hline _ ih =>
      have hstep := h.add (Line.same_statement hline)
      rw [Layout.untilError, Layout.untilError]
      obtain ⟨hlayout, hkind⟩ := hstep
      rcases hx : l.add line.statement with ⟨l₁, _ | e⟩ <;>
        rcases hy : l'.add line'.statement with ⟨l₁', _ | e'⟩ <;> rw [hx, hy] at hlayout hkind
      · exact ih hlayout
      · cases hkind
      · cases hkind
      · exact Option.some.inj hkind

end Layout

/-! ### Programs -/

/-- Programs with the same instructions, and symbols that differ in places of the source only. -/
structure Program.Same (p q : Program) : Prop where
  instructions : p.instructions = q.instructions
  symbols : SymbolTable.Same p.symbols q.symbols

theorem Program.Same.symm {p q : Program} (h : p.Same q) : q.Same p :=
  ⟨h.instructions.symm, h.symbols.symm⟩

theorem Program.Same.trans {p q r : Program} (h : p.Same q) (h' : q.Same r) : p.Same r :=
  ⟨h.instructions.trans h'.instructions, h.symbols.trans h'.symbols⟩

/-- The program of a layout, with all its instructions resolved. -/
def Layout.program (l : Layout) : Except Error Program := do
  let instructions ← l.pending.toList.mapM (Pending.resolve l.symbols)
  return ⟨instructions, l.symbols⟩

theorem Layout.Same.program {l l' : Layout} (h : l.Same l') :
    Agrees Program.Same l.program l'.program := by
  have hresolve : List.Forall₂
      (fun p q => Agrees Eq (Pending.resolve l.symbols p) (Pending.resolve l'.symbols q))
      l.pending.toList l'.pending.toList := by
    refine h.pending.imp fun p q hpq => ?_
    refine (hpq.build (.some h.symbols)).map ?_
    rintro i _ rfl
    rw [hpq.address]
  refine (AgreesUpTo.mapM hresolve).bind fun as bs has => ?_
  exact .pure ⟨List.forall₂_eq_eq_eq ▸ has, h.symbols⟩

/-- The program of some lines. -/
def assembleLines (lines : List Line) (base : UInt16) : Except Error Program :=
  (Layout.start base).untilError lines >>= Layout.program

theorem assemble_eq_assembleLines (source : String) (base : UInt16) :
    assemble source base = assembleLines (Line.ofSource source) base := rfl

/-- **Lines with the same words are the same program**, or have errors of the same kind. -/
theorem agrees_assembleLines {lines lines' : List Line}
    (hlines : List.Forall₂ (fun x y => List.Forall₂ SameItem x.items y.items) lines lines')
    (base : UInt16) :
    Agrees Program.Same (assembleLines lines base) (assembleLines lines' base) := by
  have hstart : (Layout.start base).Same (Layout.start base) := ⟨fun _ => rfl, .nil, rfl, rfl⟩
  exact (hstart.untilError hlines).bind fun l l' hl => hl.program

end GameBoyAssembler
