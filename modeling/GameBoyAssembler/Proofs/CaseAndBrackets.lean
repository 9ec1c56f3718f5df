import GameBoyAssembler.Proofs.ConstantOrder
import GameBoyAssembler.Proofs.Places
import GameBoyAssembler.Proofs.Respelling

/-!
# Letter case and brackets in a source

Where a word is known by its name, its letters can be in either case: a mnemonic, EQU, a register, a
condition, a number.  The names of symbols are told apart by case.  Whether a word is one or the other
depends on its place in the line, since a condition is a word like any other.  Brackets around any
operand can be round or square.

A change of spelling is followed from the words of a line to its statement, to the layout, and to the
instructions.  Symbols keep their names, so the symbol tables are the same throughout.  Operands are
read alike, and errors are about tokens at the same place.

Main definitions:

* `Token.isCaseFree` — registers and numbers, whose letters can be in either case;
* `Line.marked` — the words of a line, with a mark on the mnemonic, on EQU and on a condition;
* `Line.MaySpell` — other spellings for the words of a line;
* `Statement.Alike`, `Layout.Alike` — statements and layouts with the same effect.

Main results:

* `Token.Spelled.readAlike` — an operand in another spelling is read alike;
* `Line.alike_statement`, `Layout.Alike.add` — a line in another spelling has the same effect;
* `assemble_respelled` — **spelling does not matter**.
-/

set_option relaxedAutoImplicit false
set_option autoImplicit false

namespace GameBoyAssembler

/-! ### Words in another spelling -/

namespace Token

/-- A number that is written out, or the name of a register. -/
def isCaseFree (t : Token) : Bool :=
  (t.kind.isNumeric && t.value.isSome) || (t.kind == .identifier && isRegisterName t.text)

/-- Brackets can be part of the token. -/
def canHaveBrackets (t : Token) : Bool :=
  t.kind == .identifier || t.kind == .address

/-- The same token at the same place in another spelling, with letters in either case if `free`. -/
structure Spelled (free : Bool) (t u : Token) : Prop where
  kind : t.kind = u.kind
  pos : t.pos = u.pos
  value : t.value = u.value
  text : Spelling free t.canHaveBrackets t.text.toList u.text.toList

namespace Spelled

variable {free : Bool} {t u : Token}

theorem refl (free : Bool) (t : Token) : t.Spelled free t :=
  ⟨rfl, rfl, rfl, .letters (Or.inl rfl)⟩

theorem eq_of_text (h : t.Spelled free u) (htext : t.text = u.text) : t = u := by
  obtain ⟨kind, text, pos, value⟩ := t
  obtain ⟨kind', text', pos', value'⟩ := u
  obtain ⟨hkind, hpos, hvalue, -⟩ := h
  cases hkind
  cases hpos
  cases hvalue
  cases htext
  rfl

theorem span_eq (h : t.Spelled free u) : t.span = u.span := by
  rw [span, span, spanOf, spanOf, h.pos, ← String.length_toList, ← String.length_toList,
    h.text.length_eq]

theorem blame (h : t.Spelled free u) : BlamedAlike SamePlace t u :=
  fun _ _ _ _ hkind => ⟨hkind, h.span_eq⟩

theorem isBracketed_eq (h : t.Spelled free u) : t.isBracketed = u.isBracketed :=
  h.text.alikeTexts.any_head?_eq (by decide)

theorem isRegisterName_eq (h : t.Spelled free u) : isRegisterName t.text = isRegisterName u.text :=
  h.text.isRegisterName_eq

theorem isComma_eq (h : t.Spelled free u) : t.isComma = u.isComma := by
  rw [isComma, isComma, h.kind]

theorem isEqu_eq (h : t.Spelled free u) : Statement.isEqu t = Statement.isEqu u := by
  rw [Statement.isEqu, Statement.isEqu, h.kind, sameLetters_comm,
    h.text.sameLetters_eq (by decide), sameLetters_comm]

theorem shape (h : t.Spelled free u) : AgreesUpTo SamePlace Eq t.shape u.shape := by
  unfold Token.shape
  rw [← h.kind]
  split
  · exact rfl
  · exact rfl
  · exact rfl
  · exact rfl
  · rw [← h.isBracketed_eq, h.text.shape_eq]
    exact rfl
  · exact h.blame.throw rfl

theorem stackPair (h : t.Spelled free u) : AgreesUpTo SamePlace Eq t.stackPair u.stackPair := by
  unfold Token.stackPair
  rw [← h.kind, h.text.stackPairName_eq]
  dsimp only
  split
  · exact .pure rfl
  · refine h.shape.bind ?_
    rintro s _ rfl
    exact h.blame.throw rfl

theorem condition (h : t.Spelled free u) : AgreesUpTo SamePlace Eq t.condition u.condition := by
  unfold Token.condition
  rw [← h.kind, h.text.conditionName_eq]
  dsimp only
  split
  · exact rfl
  · exact h.blame.throw rfl

/-- In the same case, only the brackets can be other ones. -/
theorem unbracketed_eq (h : t.Spelled false u) : t.unbracketed = u.unbracketed := by
  have hbracketed := h.isBracketed_eq
  unfold unbracketed
  rw [← hbracketed]
  obtain ⟨cs, hcs⟩ : ∃ cs, t.text.toList = cs := ⟨_, rfl⟩
  obtain ⟨ds, hds⟩ : ∃ ds, u.text.toList = ds := ⟨_, rfl⟩
  have htext := h.text
  rw [hcs, hds] at htext
  cases htext with
  | letters hsame =>
      have hlists : t.text.toList = u.text.toList := by
        rw [hcs, hds, hsame.eq_of_not_free]
      rw [String.toList_inj.1 hlists]
  | brackets _ ho ho' hsame =>
      have ht : t.isBracketed = true := by
        rw [isBracketed, hcs]
        exact ho
      rw [if_pos ht, if_pos ht, hcs, hds, withoutEnds?_inBrackets ⟨_, ho, rfl⟩,
        withoutEnds?_inBrackets ⟨_, ho', rfl⟩, hsame.eq_of_not_free]

/-- A token without brackets in the same case is the same token. -/
theorem eq_of_plain (h : t.Spelled false u) (hbracketed : t.isBracketed = false) : t = u := by
  have htext := h.unbracketed_eq
  rw [unbracketed, unbracketed, ← h.isBracketed_eq, hbracketed] at htext
  exact h.eq_of_text htext

theorem eq_of_no_brackets (h : t.Spelled false u) (hkind : t.canHaveBrackets = false) : t = u := by
  have htext := h.text
  rw [hkind] at htext
  generalize hcs : t.text.toList = cs at htext
  generalize hds : u.text.toList = ds at htext
  cases htext with
  | letters hsame =>
      refine h.eq_of_text (String.toList_inj.1 ?_)
      rw [hcs, hds, hsame.eq_of_not_free]
  | brackets hswap => cases hswap

theorem symbolKey (h : t.Spelled false u) (scope : Option String) :
    AgreesUpTo SamePlace Eq (symbolKey scope t) (symbolKey scope u) := by
  by_cases hkind : t.kind = .localLabel
  · have hbrackets : t.canHaveBrackets = false := by
      rw [canHaveBrackets, hkind]
      rfl
    rw [h.eq_of_no_brackets hbrackets]
    cases GameBoyAssembler.symbolKey scope u with
    | ok key => exact rfl
    | error e => exact ⟨rfl, rfl⟩
  · have hkey {t : Token} (ht : t.kind ≠ .localLabel) :
        GameBoyAssembler.symbolKey scope t = .ok (withoutColons t.unbracketed) := by
      unfold GameBoyAssembler.symbolKey
      split
      · contradiction
      · rfl
    rw [hkey hkind, hkey (h.kind ▸ hkind), h.unbracketed_eq]
    exact rfl

end Spelled

/-- The name of a register is the name of no symbol. -/
theorem isRegister_of_isRegisterName {name : String} (h : isRegisterName name = true)
    (bracketed : Bool) : (Shape.ofName name bracketed).isRegister = true := by
  unfold Shape.ofName
  rw [h]
  split
  · rfl
  · rfl
  · rfl
  · split
    · rfl
    · split <;> rfl

namespace Spelled

variable {t u : Token}

theorem resolve (h : t.Spelled false u) (table : SymbolTable) (key : String) :
    AgreesUpTo SamePlace (fun x y => x.1 = y.1) (table.resolve key t) (table.resolve key u) := by
  unfold SymbolTable.resolve
  split
  · exact h.blame.throw rfl
  · split
    · exact rfl
    · exact ⟨rfl, rfl⟩
    · exact h.blame _ _ _ _ rfl

theorem quantity (h : t.Spelled t.isCaseFree u) (c : Context) :
    AgreesUpTo SamePlace (fun q r => q.map Quantity.value = r.map Quantity.value)
      (c.quantity t) (c.quantity u) := by
  unfold Context.quantity
  cases hvalue : t.value with
  | some v =>
      rw [← h.value, hvalue]
      exact .pure rfl
  | none =>
      rw [← h.value, hvalue]
      dsimp only
      cases hfree : t.isCaseFree with
      | true =>
          -- not a number, so a register: its shape is that of no symbol
          rw [isCaseFree, hvalue, Option.isSome_none, Bool.and_false, Bool.false_or,
            Bool.and_eq_true, beq_iff_eq] at hfree
          have hshape : t.shape = .ok (.ofName t.text t.isBracketed) := by
            rw [Token.shape, hfree.1]
          have hregister := isRegister_of_isRegisterName hfree.2 t.isBracketed
          have hagrees := h.shape
          rw [hshape] at hagrees
          rcases hagrees.cases with ⟨s, _, hs, hs', rfl⟩ | ⟨e, f, he, -, -⟩
          · rw [Except.ok.inj hs] at hregister
            rw [hshape, hs', hs]
            cases s with
            | immediate | memory | spOffset => cases hregister
            | _ => exact h.blame.throw rfl
          · cases he
      | false =>
          rw [hfree] at h
          refine h.shape.bind ?_
          rintro s _ rfl
          cases s with
          | immediate | memory =>
              refine (h.symbolKey c.scope).bind ?_
              rintro key _ rfl
              cases c.symbols with
              | none => exact .pure rfl
              | some table =>
                  exact (h.resolve table key).bind fun p q hpq => .pure (congrArg some hpq)
          | _ => exact h.blame.throw rfl

/-- **An operand in another spelling is read alike.** -/
theorem readAlike (h : t.Spelled t.isCaseFree u) (c : Context) : ReadAlike SamePlace c c t u where
  blame := h.blame
  shape := h.shape
  stackPair := h.stackPair
  condition := h.condition
  isComma := h.isComma_eq
  isLiteral := by rw [h.value]
  quantity := h.quantity c

end Spelled

end Token

/-! ### Words that are known by their names -/

/-- The first operand is read as a condition, with `behind` behind it. -/
def Mnemonic.readsCondition (mnemonic : Mnemonic) (behind : List Item) : Bool :=
  match mnemonic, behind with
  | .ret, _ => true
  | .jp, .ok t :: _ | .jr, .ok t :: _ | .call, .ok t :: _ => t.isComma
  | _, _ => false

namespace Line

/-- Words with no mark. -/
def unmarked (items : List Item) : List (Item × Bool) :=
  items.map fun item => (item, false)

/-- The words behind a mnemonic, with a mark on a condition. -/
def markOperands (mnemonic : Option Mnemonic) : List Item → List (Item × Bool)
  | [] => []
  | first :: behind => (first, mnemonic.any (·.readsCondition behind)) :: unmarked behind

/-- The words behind a label, with a mark on EQU, or on the mnemonic and a condition. -/
def markBody : List Item → List (Item × Bool)
  | .ok t :: .ok next :: behind =>
      if Statement.isEqu next then (.ok t, false) :: (.ok next, true) :: unmarked behind
      else (.ok t, true) :: markOperands (Mnemonic.ofName? t.text) (.ok next :: behind)
  | .ok t :: behind => (.ok t, true) :: unmarked behind
  | items => unmarked items

/-- The words of a line, with a mark on those that are known by their names at their places. -/
def marked (l : Line) : List (Item × Bool) :=
  match l.items with
  | .ok t :: behind => if t.isLabel then (.ok t, false) :: markBody behind else markBody l.items
  | items => unmarked items

end Line

/-- What may change in the word of an item: the case of its letters, if it is marked, a register or a
number, and the kind of its brackets.  A malformed number is a number here. -/
def Item.leeway (mark : Bool) : Item → Bool × Bool
  | .ok t => (mark || t.isCaseFree, t.canHaveBrackets)
  | .error _ => (true, true)

/-- The word of an item may have the other spelling. -/
def Item.MaySpell (spell : Position → String → String) (mark : Bool) (item : Item) : Prop :=
  ∀ w ∈ item.word?,
    Spelling (item.leeway mark).1 (item.leeway mark).2 w.2.toList (spell w.1 w.2).toList

instance (spell : Position → String → String) (mark : Bool) (item : Item) :
    Decidable (item.MaySpell spell mark) :=
  inferInstanceAs (Decidable (∀ w ∈ item.word?, _))

/-- All words of the line may have the other spelling. -/
def Line.MaySpell (spell : Position → String → String) (l : Line) : Prop :=
  ∀ m ∈ l.marked, m.1.MaySpell spell m.2

instance (spell : Position → String → String) (l : Line) : Decidable (l.MaySpell spell) :=
  inferInstanceAs (Decidable (∀ m ∈ l.marked, _))

/-- The same word in another spelling, or errors of the same kind at the same place. -/
abbrev Item.Spelled (mark : Bool) : Item → Item → Prop :=
  AgreesUpTo SamePlace fun t u => t.Spelled (mark || t.isCaseFree) u

/-- Words with marks, and the same words in another spelling. -/
abbrev SpelledItems : List (Item × Bool) → List Item → Prop :=
  List.Forall₂ fun m item => Item.Spelled m.2 m.1 item

section Statements

variable {spell : Position → String → String}

theorem Item.MaySpell.spelled {mark : Bool} {x y : Item} (h : x.MaySpell spell mark)
    (hxy : Item.Respelled spell x y) : Item.Spelled mark x y := by
  rcases hxy.cases with ⟨t, u, rfl, rfl, rfl⟩ | ⟨e, f, rfl, rfl, hplace⟩
  · unfold Token.respell
    split
    · exact Token.Spelled.refl _ t
    · rename_i hends
      exact ⟨rfl, rfl, rfl, h (t.pos, t.text) (if_neg hends)⟩
  · exact hplace

theorem spelledItems_unmarked {items items' : List Item} :
    SpelledItems (Line.unmarked items) items' ↔ List.Forall₂ (Item.Spelled false) items items' :=
  List.forall₂_map_left_iff

theorem Line.map_fst_unmarked (items : List Item) : (unmarked items).map Prod.fst = items := by
  rw [unmarked, List.map_map]
  exact List.map_id items

theorem Line.map_fst_markBody (items : List Item) : (markBody items).map Prod.fst = items := by
  unfold markBody
  split
  · split
    · rw [List.map_cons, List.map_cons, map_fst_unmarked]
    · rw [List.map_cons, markOperands, List.map_cons, map_fst_unmarked]
  · rw [List.map_cons, map_fst_unmarked]
  · exact map_fst_unmarked _

theorem Line.map_fst_marked (l : Line) : l.marked.map Prod.fst = l.items := by
  unfold marked
  split
  · rename_i t behind hitems
    split
    · rw [List.map_cons, map_fst_markBody, hitems]
    · exact map_fst_markBody _
  · exact map_fst_unmarked _

/-- The words of a line, marked, and in the other spelling. -/
theorem Line.MaySpell.spelledItems {l : Line} (h : l.MaySpell spell) {items : List Item}
    (hitems : List.Forall₂ (Item.Respelled spell) l.items items) : SpelledItems l.marked items := by
  rw [← l.map_fst_marked, List.forall₂_map_left_iff] at hitems
  have hboth : List.Forall₂ (fun m item => (m.1.MaySpell spell m.2) ∧ Item.Respelled spell m.1 item)
      l.marked items := (List.forall₂_and_left _ _).2 ⟨h, hitems⟩
  exact hboth.imp fun m item hm => hm.1.spelled hm.2

end Statements

/-! ### Statements -/

/-- The two lists of operands select the same instruction in every context. -/
def SelectAlike (mnemonic : Mnemonic) (name name' : Token) (ts us : List Token) : Prop :=
  ∀ c : Context, AgreesUpTo SamePlace Eq (c.select mnemonic name ts) (c.select mnemonic name' us)

/-- Bodies with the same effect.  A symbol that is bound has the same name in both. -/
inductive Body.Alike : Body → Body → Prop
  | empty : Alike .empty .empty
  | constant (name : Token) (value : ConstantValue) {trailing trailing' : Option Error}
      (h : Option.Rel SamePlace trailing trailing') :
      Alike (.constant name value trailing) (.constant name value trailing')
  | instruction {mnemonic : Mnemonic} {name name' : Token} {operands operands' : List Token}
      (hname : BlamedAlike SamePlace name name')
      (h : SelectAlike mnemonic name name' operands operands') :
      Alike (.instruction mnemonic name operands) (.instruction mnemonic name' operands')

/-- Statements with the same effect. -/
structure Statement.Alike (s s' : Statement) : Prop where
  label : s.label = s'.label
  body : AgreesUpTo SamePlace Body.Alike s.body s'.body

section Statements

variable {stop t u equ equ' name name' : Token} {items items' : List Item} {mnemonic : Mnemonic}
  {ts us : List Token}

/-- Operands with no mark are read alike. -/
theorem selectAlike_of_plain (hname : BlamedAlike SamePlace name name')
    (h : List.Forall₂ (fun t u : Token => t.Spelled t.isCaseFree u) ts us) :
    SelectAlike mnemonic name name' ts us := by
  intro c
  exact Context.agrees_select rfl (h.imp fun t u htu => htu.readAlike c) mnemonic hname

/-- The condition of a return. -/
theorem selectAlike_ret (hfirst : t.Spelled true u)
    (h : List.Forall₂ (fun t u : Token => t.Spelled t.isCaseFree u) ts us) :
    SelectAlike .ret name name' (t :: ts) (u :: us) := by
  intro c
  refine Context.agrees_select_of_front ?_
  exact Context.agrees_choice hfirst.condition .retIf
    (h.imp fun t u htu => (htu.readAlike c).toTakenAlike)

/-- The condition of a branch. -/
theorem selectAlike_branch (hmnemonic : mnemonic = .jp ∨ mnemonic = .jr ∨ mnemonic = .call)
    {comma comma' : Token} (hisComma : comma.isComma = true) (hfirst : t.Spelled true u)
    (hcomma : comma.Spelled comma.isCaseFree comma')
    (h : List.Forall₂ (fun t u : Token => t.Spelled t.isCaseFree u) ts us) :
    SelectAlike mnemonic name name' (t :: comma :: ts) (u :: comma' :: us) := by
  intro c
  have htake := agrees_takeBranch_condition (fun _ _ htu => htu.toTakenAlike) hfirst.condition
    (hcomma.readAlike c) hisComma (h.imp fun t u htu => htu.readAlike c) name name'
  refine Context.agrees_select_of_front ?_
  rcases hmnemonic with rfl | rfl | rfl
  · exact Context.agrees_branch (fun _ i => i) htake fun cc _ _ ht => ht.jumpTo cc
  · exact Context.agrees_branch .jumpRel htake fun _ _ _ ht => ht.displacement rfl
  · exact Context.agrees_branch .call htake fun _ _ _ ht => ht.field .unsigned16 UInt16.ofInt

theorem mapM_spelled (h : List.Forall₂ (Item.Spelled false) items items') :
    AgreesUpTo SamePlace (List.Forall₂ fun t u : Token => t.Spelled t.isCaseFree u)
      (items.mapM id) (items'.mapM id) :=
  AgreesUpTo.mapM h

theorem Mnemonic.readsCondition_cases {behind : List Item} (h : mnemonic.readsCondition behind = true) :
    mnemonic = .ret ∨ (mnemonic = .jp ∨ mnemonic = .jr ∨ mnemonic = .call) ∧
      ∃ comma rest, behind = .ok comma :: rest ∧ comma.isComma = true := by
  unfold readsCondition at h
  split at h
  · exact Or.inl rfl
  · exact Or.inr ⟨Or.inl rfl, _, _, rfl, h⟩
  · exact Or.inr ⟨Or.inr (Or.inl rfl), _, _, rfl, h⟩
  · exact Or.inr ⟨Or.inr (Or.inr rfl), _, _, rfl, h⟩
  · cases h

/-- **Operands in another spelling select the same instruction.** -/
theorem selectAlike_of_marked (hname : BlamedAlike SamePlace name name')
    (h : SpelledItems (Line.markOperands (some mnemonic) items) items') :
    AgreesUpTo SamePlace (SelectAlike mnemonic name name') (items.mapM id) (items'.mapM id) := by
  cases items with
  | nil =>
      cases h with
      | nil => exact .pure (selectAlike_of_plain hname .nil)
  | cons first behind =>
      cases h with
      | @cons _ first' _ behind' hfirst hbehind =>
          replace hfirst : Item.Spelled (mnemonic.readsCondition behind) first first' := hfirst
          replace hbehind := spelledItems_unmarked.1 hbehind
          cases hmark : mnemonic.readsCondition behind with
          | false =>
              rw [hmark] at hfirst
              refine (mapM_spelled (.cons hfirst hbehind)).imp fun ts us hts => ?_
              exact selectAlike_of_plain hname hts
          | true =>
              rw [hmark] at hfirst
              rw [List.mapM_cons, List.mapM_cons]
              refine AgreesUpTo.bind hfirst fun t u htu => ?_
              rcases Mnemonic.readsCondition_cases hmark with rfl | ⟨hbranch, comma, rest, rfl, hcomma⟩
              · refine (mapM_spelled hbehind).bind fun ts us hts => .pure ?_
                exact selectAlike_ret htu hts
              · -- a branch: the comma shows that the first operand is a condition
                cases hbehind with
                | cons hnext hrest =>
                    obtain ⟨comma', rfl, hspelled⟩ := hnext.of_ok
                    rw [List.mapM_cons, List.mapM_cons]
                    refine ((mapM_spelled hrest).bind fun ts us hts => .pure ?_).bind
                      fun ts us hts => .pure hts
                    exact selectAlike_branch hbranch hcomma htu hspelled hts

namespace Token

theorem isCaseFree_of_identifier (h : t.kind = .identifier) :
    t.isCaseFree = isRegisterName t.text := by
  rw [isCaseFree, h]
  rfl

/-- A label keeps its spelling. -/
theorem Spelled.eq_of_isLabel (h : t.Spelled t.isCaseFree u) (hlabel : t.isLabel = true) : t = u := by
  rw [isLabel, Bool.or_eq_true, beq_iff_eq, beq_iff_eq] at hlabel
  have hfree : t.isCaseFree = false := by
    rcases hlabel with hkind | hkind <;> rw [isCaseFree, hkind] <;> rfl
  rw [hfree] at h
  refine h.eq_of_no_brackets ?_
  rcases hlabel with hkind | hkind <;> rw [canHaveBrackets, hkind] <;> rfl

/-- So does a name that is no register and has no brackets. -/
theorem Spelled.eq_of_symbol (h : t.Spelled t.isCaseFree u) (hkind : t.kind = .identifier)
    (hregister : isRegisterName t.text = false) (hbracketed : t.isBracketed = false) : t = u := by
  rw [isCaseFree_of_identifier hkind, hregister] at h
  exact h.eq_of_plain hbracketed

end Token

namespace Statement

theorem agrees_constantValue_of_spelled (h : t.Spelled t.isCaseFree u) :
    AgreesUpTo SamePlace Eq (constantValue t) (constantValue u) := by
  unfold constantValue
  rw [← h.kind, ← h.value, ← h.isRegisterName_eq, ← h.isBracketed_eq]
  split
  · exact rfl
  · rename_i hkind
    split
    · exact h.blame.throw rfl
    · rename_i hregister
      split
      · exact h.blame.throw rfl
      · rename_i hbracketed
        rw [Bool.not_eq_true] at hregister hbracketed
        rw [h.eq_of_symbol hkind hregister hbracketed]
        exact rfl
  · rename_i hkind
    rw [h.eq_of_isLabel (by rw [Token.isLabel, hkind]; rfl)]
    exact rfl
  · exact h.blame.throw rfl

theorem rel_trailingError (h : List.Forall₂ (Item.Spelled false) items items') :
    Option.Rel SamePlace (trailingError items) (trailingError items') := by
  cases h with
  | nil => exact .none
  | cons hfirst _ =>
      rcases hfirst.cases with ⟨t, u, rfl, rfl, htu⟩ | ⟨e, f, rfl, rfl, hplace⟩
      · exact .some (htu.blame _ _ none none rfl)
      · exact .some hplace

theorem agrees_readConstant_of_spelled (hkind : name.kind = .identifier)
    (hname : name.Spelled name.isCaseFree name') (hequ : BlamedAlike SamePlace equ equ')
    (h : List.Forall₂ (Item.Spelled false) items items') :
    AgreesUpTo SamePlace Body.Alike (readConstant stop name equ items)
      (readConstant stop name' equ' items') := by
  unfold readConstant
  rw [← hname.isRegisterName_eq, ← hname.isBracketed_eq]
  split
  · exact hname.blame.throw rfl
  · rename_i hsymbol
    rw [Bool.not_eq_true, Bool.or_eq_false_iff] at hsymbol
    rw [hname.eq_of_symbol hkind hsymbol.1 hsymbol.2]
    cases h with
    | nil => exact hequ.throw rfl
    | cons hfirst hrest =>
        rcases hfirst.cases with ⟨t, u, rfl, rfl, htu⟩ | ⟨e, f, rfl, rfl, hplace⟩
        · refine (agrees_constantValue_of_spelled htu).map ?_
          rintro value _ rfl
          exact .constant _ value (rel_trailingError hrest)
        · exact hplace

theorem agrees_readInstruction_of_spelled (hname : name.Spelled true name')
    (h : SpelledItems (Line.markOperands (Mnemonic.ofName? name.text) items) items') :
    AgreesUpTo SamePlace Body.Alike (readInstruction name items) (readInstruction name' items') := by
  unfold readInstruction
  rw [← hname.text.mnemonic_eq]
  cases hmnemonic : Mnemonic.ofName? name.text with
  | none => exact hname.blame.throw rfl
  | some mnemonic =>
      rw [hmnemonic] at h
      exact (selectAlike_of_marked hname.blame h).map fun ts us hts => .instruction hname.blame hts

theorem exists_of_spelled_markBody (h : SpelledItems (Line.markBody (.ok t :: items)) items') :
    ∃ free u behind, items' = .ok u :: behind ∧ t.Spelled free u := by
  obtain ⟨mark, rest, hmark⟩ : ∃ mark rest, Line.markBody (.ok t :: items) = (.ok t, mark) :: rest := by
    unfold Line.markBody
    split
    · rename_i heq
      cases heq
      split <;> exact ⟨_, _, rfl⟩
    · rename_i heq
      cases heq
      exact ⟨_, _, rfl⟩
    · exact ⟨_, _, rfl⟩
  rw [hmark] at h
  cases h with
  | cons ht hrest =>
      obtain ⟨u, rfl, hspelled⟩ := ht.of_ok
      exact ⟨_, u, _, rfl, hspelled⟩

/-- A body in another spelling. -/
theorem agrees_readBody_of_spelled
    (h : SpelledItems (Line.markBody (.ok t :: items)) (.ok u :: items')) :
    AgreesUpTo SamePlace Body.Alike (readBody stop t items) (readBody stop u items') := by
  -- a body that does not start with a name is refused in either spelling
  have hname {free : Bool} (ht : t.Spelled free u) {x y : Except Error Body}
      (hxy : t.kind = .identifier → AgreesUpTo SamePlace Body.Alike x y) :
      AgreesUpTo SamePlace Body.Alike
        (if t.kind != .identifier then .error (.about t (.expectedStatement t)) else x)
        (if u.kind != .identifier then .error (.about u (.expectedStatement u)) else y) := by
    rw [← ht.kind]
    split
    · exact ht.blame.throw rfl
    · rename_i hkind
      exact hxy (by simpa using hkind)
  unfold readBody
  cases items with
  | nil =>
      cases h with
      | cons ht hrest =>
          cases hrest with
          | nil => exact hname ht fun _ => agrees_readInstruction_of_spelled ht .nil
  | cons first behind =>
      cases first with
      | error e =>
          cases h with
          | cons ht hrest =>
              cases hrest with
              | cons hnext _ =>
                  obtain ⟨f, rfl, hplace⟩ := hnext.of_error
                  exact hname ht fun _ => hplace
      | ok next =>
          rw [Line.markBody] at h
          cases hequ : isEqu next with
          | true =>
              rw [if_pos hequ] at h
              cases h with
              | cons ht hrest =>
                  cases hrest with
                  | cons hnext hrest =>
                      obtain ⟨next', rfl, hspelled⟩ := hnext.of_ok
                      refine hname ht fun hkind => ?_
                      dsimp only
                      rw [← hspelled.isEqu_eq, hequ]
                      exact agrees_readConstant_of_spelled hkind ht hspelled.blame
                        (spelledItems_unmarked.1 hrest)
          | false =>
              rw [if_neg (Bool.eq_false_iff.1 hequ)] at h
              cases h with
              | cons ht hrest =>
                  have hinstruction := agrees_readInstruction_of_spelled ht hrest
                  cases hrest with
                  | cons hnext hrest =>
                      obtain ⟨next', rfl, hspelled⟩ := hnext.of_ok
                      refine hname ht fun _ => ?_
                      dsimp only
                      rw [← hspelled.isEqu_eq, hequ]
                      exact hinstruction

end Statement

/-- **A line in another spelling is a statement with the same effect.** -/
theorem Line.alike_statement {l l' : Line} (hstop : l.stop = l'.stop)
    (h : SpelledItems l.marked l'.items) : l.statement.Alike l'.statement := by
  obtain ⟨items, stop⟩ := l
  obtain ⟨items', stop'⟩ := l'
  obtain rfl : stop = stop' := hstop
  unfold statement
  unfold marked at h
  cases items with
  | nil =>
      cases h with
      | nil => exact ⟨rfl, .empty⟩
  | cons first behind =>
      cases first with
      | error e =>
          cases h with
          | cons hfirst _ =>
              obtain ⟨f, rfl, hplace⟩ := hfirst.of_error
              exact ⟨rfl, hplace⟩
      | ok t =>
          dsimp only at h ⊢
          cases hlabel : t.isLabel with
          | true =>
              rw [if_pos hlabel] at h
              cases h with
              | cons hfirst hbehind =>
                  obtain ⟨u, rfl, hspelled⟩ := hfirst.of_ok
                  obtain rfl := hspelled.eq_of_isLabel hlabel
                  dsimp only
                  rw [hlabel]
                  cases behind with
                  | nil =>
                      cases hbehind with
                      | nil => exact ⟨rfl, .empty⟩
                  | cons next behind =>
                      cases next with
                      | error e =>
                          cases hbehind with
                          | cons hnext _ =>
                              obtain ⟨f, rfl, hplace⟩ := hnext.of_error
                              exact ⟨rfl, hplace⟩
                      | ok next =>
                          obtain ⟨-, next', behind', rfl, -⟩ :=
                            Statement.exists_of_spelled_markBody hbehind
                          exact ⟨rfl, Statement.agrees_readBody_of_spelled hbehind⟩
          | false =>
              rw [if_neg (Bool.eq_false_iff.1 hlabel)] at h
              obtain ⟨free, u, behind', rfl, hspelled⟩ := Statement.exists_of_spelled_markBody h
              have hlabel' : u.isLabel = false := by
                rw [← hlabel, Token.isLabel, Token.isLabel, hspelled.kind]
              dsimp only
              rw [hlabel']
              exact ⟨rfl, Statement.agrees_readBody_of_spelled h⟩

end Statements

/-! ### Layouts -/

/-- The same address, and the same instruction whatever the symbols are. -/
structure Pending.Alike (p q : Pending) : Prop where
  address : p.address = q.address
  build (symbols : Option SymbolTable) : AgreesUpTo SamePlace Eq (p.build symbols) (q.build symbols)

namespace Layout

/-- The same symbols, and pending instructions that come to the same. -/
structure Alike (l l' : Layout) : Prop where
  symbols : l.symbols = l'.symbols
  pending : List.Forall₂ Pending.Alike l.pending.toList l'.pending.toList
  address : l.address = l'.address
  scope : l.scope = l'.scope

namespace Alike

variable {l l' : Layout} (h : l.Alike l')

include h

theorem bind (key : String) (x : Symbol) :
    AgreesUpTo SamePlace Alike (l.bind key x).result (l'.bind key x).result := by
  unfold Layout.bind
  rw [← h.symbols]
  cases l.symbols.bind key x with
  | ok symbols => exact ⟨rfl, h.pending, h.address, h.scope⟩
  | error e => exact ⟨rfl, rfl⟩

theorem bindLabel (t : Token) :
    AgreesUpTo SamePlace Alike (l.bindLabel t).result (l'.bindLabel t).result := by
  unfold Layout.bindLabel
  rw [← h.scope, ← h.address]
  cases symbolKey l.scope t with
  | ok key => exact h.bind key _
  | error e => exact ⟨rfl, rfl⟩

theorem defineLabel (t : Token) :
    AgreesUpTo SamePlace Alike (l.defineLabel t).result (l'.defineLabel t).result := by
  unfold Layout.defineLabel
  split
  · dsimp only
    split
    · exact ⟨rfl, rfl⟩
    · have hscope : Alike { l with scope := some (withoutColons t.text) }
          { l' with scope := some (withoutColons t.text) } :=
        ⟨h.symbols, h.pending, h.address, rfl⟩
      exact hscope.bindLabel t
  · exact h.bindLabel t

theorem defineConstant (name : Token) (value : ConstantValue) :
    AgreesUpTo SamePlace Alike (l.defineConstant name value).result
      (l'.defineConstant name value).result := by
  unfold Layout.defineConstant
  cases value with
  | number v => exact h.bind _ _
  | symbol t =>
      dsimp only
      rw [← h.scope]
      cases symbolKey l.scope t with
      | ok key => exact h.bind _ _
      | error e => exact ⟨rfl, rfl⟩

theorem place {mnemonic : Mnemonic} {name name' : Token} {operands operands' : List Token}
    (hname : BlamedAlike SamePlace name name')
    (hselect : SelectAlike mnemonic name name' operands operands') :
    AgreesUpTo SamePlace Alike (l.place mnemonic name operands).result
      (l'.place mnemonic name' operands').result := by
  have hpending : Pending.Alike ⟨mnemonic, name, operands, UInt16.ofNat l.address, l.scope⟩
      ⟨mnemonic, name', operands', UInt16.ofNat l.address, l.scope⟩ :=
    ⟨rfl, fun symbols => hselect ⟨symbols, l.scope, UInt16.ofNat l.address⟩⟩
  unfold Layout.place
  rw [← h.address, ← h.scope]
  dsimp only
  rcases (hpending.build none).cases with ⟨i, _, ht, hu, rfl⟩ | ⟨e, f, ht, hu, hplace⟩
  · rw [ht, hu]
    dsimp only
    split
    · exact hname _ _ none none rfl
    · refine ⟨h.symbols, ?_, rfl, rfl⟩
      rw [Array.toList_push, Array.toList_push]
      exact List.rel_append h.pending (.cons hpending .nil)
  · rw [ht, hu]
    exact hplace

theorem addBody {body body' : Body} (hbody : body.Alike body') :
    AgreesUpTo SamePlace Alike (l.addBody body).result (l'.addBody body').result := by
  cases hbody with
  | empty => exact h
  | constant name value htrailing =>
      unfold Layout.addBody
      rw [Step.result_andThen, Step.result_andThen]
      refine (h.defineConstant name value).bind fun l l' hl => ?_
      cases htrailing with
      | none => exact hl
      | some hplace => exact hplace
  | instruction hname hselect => exact h.place hname hselect

theorem addUnlabelled {body body' : Except Error Body}
    (hbody : AgreesUpTo SamePlace Body.Alike body body') :
    AgreesUpTo SamePlace Alike (l.add ⟨none, body⟩).result (l'.add ⟨none, body'⟩).result := by
  rcases hbody.cases with ⟨b, b', rfl, rfl, hb⟩ | ⟨e, f, rfl, rfl, hplace⟩
  · exact h.addBody hb
  · exact hplace

/-- **Statements with the same effect lead to layouts that come to the same.** -/
theorem add {s s' : Statement} (hs : s.Alike s') :
    AgreesUpTo SamePlace Alike (l.add s).result (l'.add s').result := by
  obtain ⟨label, body⟩ := s
  obtain ⟨label', body'⟩ := s'
  obtain ⟨hlabel, hbody⟩ := hs
  obtain rfl : label = label' := hlabel
  cases label with
  | none => exact h.addUnlabelled hbody
  | some t =>
      have hadd (l : Layout) (body : Except Error Body) : (l.add ⟨some t, body⟩).result
          = (l.defineLabel t).result >>= fun l => (l.add ⟨none, body⟩).result :=
        Step.result_andThen _ _
      rw [hadd, hadd]
      exact (h.defineLabel t).bind fun l l' hl => hl.addUnlabelled hbody

theorem untilError {lines lines' : List Line}
    (hlines : List.Forall₂ (fun x y => x.statement.Alike y.statement) lines lines') :
    AgreesUpTo SamePlace Alike (l.untilError lines) (l'.untilError lines') := by
  induction hlines generalizing l l' with
  | nil => exact h
  | cons hline _ ih =>
      rw [untilError_cons, untilError_cons]
      exact (h.add hline).bind fun l l' hl => ih hl

theorem program : AgreesUpTo SamePlace Eq l.program l'.program := by
  have hresolve : List.Forall₂
      (fun p q => AgreesUpTo SamePlace Eq (Pending.resolve l.symbols p) (Pending.resolve l.symbols q))
      l.pending.toList l'.pending.toList := by
    refine h.pending.imp fun p q hpq => ?_
    refine (hpq.build (some l.symbols)).map ?_
    rintro i _ rfl
    rw [hpq.address]
  unfold Layout.program
  rw [← h.symbols]
  refine (AgreesUpTo.mapM hresolve).bind fun as bs has => ?_
  rw [List.forall₂_eq_eq_eq] at has
  exact .pure (by rw [has])

end Alike

end Layout

/-! ### Sources -/

section Sources

variable {spell : Position → String → String}

/-- The same words in another spelling, before the same line end. -/
structure Line.Respelled (spell : Position → String → String) (l l' : Line) : Prop where
  stop : l.stop = l'.stop
  items : List.Forall₂ (Item.Respelled spell) l.items l'.items

theorem Line.respelled_consItem {x y : Item} (hxy : Item.Respelled spell x y)
    {lines lines' : List Line} (h : List.Forall₂ (Respelled spell) lines lines') :
    List.Forall₂ (Respelled spell) (consItem x lines) (consItem y lines') := by
  cases h with
  | nil => exact .nil
  | cons hline hlines => exact .cons ⟨hline.stop, .cons hxy hline.items⟩ hlines

/-- Words in another spelling are cut into the same lines. -/
theorem Line.respelled_ofItems {items items' : List Item}
    (h : List.Forall₂ (Item.Respelled spell) items items') :
    List.Forall₂ (Respelled spell) (ofItems items) (ofItems items') := by
  induction h with
  | nil => exact .nil
  | cons hxy _ ih =>
      rcases hxy.cases with ⟨t, u, rfl, rfl, hu⟩ | ⟨e, f, rfl, rfl, -⟩
      · have hends : u.endsLine = t.endsLine := by
          rw [hu, Token.respell]
          split <;> rfl
        rw [ofItems, ofItems, hends]
        split
        · rename_i ht
          rw [Token.respell, if_pos ht] at hu
          exact .cons ⟨hu.symm, .nil⟩ ih
        · exact respelled_consItem hxy ih
      · exact respelled_consItem hxy ih

/-- Every word of a text stands on one of its lines. -/
theorem Cursor.exists_line_of_word {c : Cursor} {x : Item} (hx : x ∈ c.items)
    (hword : x.word? ≠ none) : ∃ l ∈ Line.ofItems c.items, x ∈ l.items := by
  have hends {t : Token} (ht : t.endsLine = true) : x ≠ .ok t := by
    rintro rfl
    exact hword (if_pos ht)
  induction c using Cursor.items.induct with
  | case1 c hend =>
      rw [items, if_pos hend, List.mem_singleton] at hx
      subst hx
      cases hnext : c.next.1 with
      | error e => rw [hnext] at hend; cases hend
      | ok t =>
          rw [hnext] at hend
          exact absurd hnext (hends (by rw [Token.endsLine, Bool.or_eq_true]; exact Or.inr hend))
  | case2 c hend ih =>
      rw [items, if_neg hend] at hx ⊢
      obtain ⟨l, ls, hitems, -⟩ := Line.exists_below c.next.2
      by_cases hstop : ∃ t, c.next.1 = .ok t ∧ t.endsLine = true
      · obtain ⟨t, ht, htends⟩ := hstop
        rw [ht] at hx ⊢
        rw [Line.ofItems_stop htends]
        obtain ⟨m, hm, hxm⟩ := ih ((List.mem_cons.1 hx).resolve_left (hends htends))
        exact ⟨m, List.mem_cons_of_mem _ hm, hxm⟩
      · have hinside (t : Token) (ht : c.next.1 = .ok t) : t.endsLine = false := by
          rw [Bool.eq_false_iff]
          exact fun htends => hstop ⟨t, ht, htends⟩
        rw [Line.ofItems_cons hinside hitems]
        rcases List.mem_cons.1 hx with rfl | hx
        · exact ⟨_, List.mem_cons_self, List.mem_cons_self⟩
        · obtain ⟨m, hm, hxm⟩ := ih hx
          rw [hitems] at hm
          rcases List.mem_cons.1 hm with rfl | hm
          · exact ⟨_, List.mem_cons_self, List.mem_cons_of_mem _ hxm⟩
          · exact ⟨m, List.mem_cons_of_mem _ hm, hxm⟩

theorem Item.MaySpell.spelledAlike {mark : Bool} {x : Item} (h : x.MaySpell spell mark) :
    x.SpelledAlike spell :=
  fun pos word hword => (h (pos, word) hword).weaken

/-- The lines of a source in another spelling. -/
theorem Line.respelled_ofSource {source : String}
    (h : ∀ line ∈ ofSource source, line.MaySpell spell) :
    List.Forall₂ (Respelled spell) (ofSource source) (ofSource (respell spell source)) := by
  have hwords : ∀ x ∈ (Cursor.ofSource source).items, Item.SpelledAlike spell x := by
    intro x hx pos word hword
    obtain ⟨l, hl, hxl⟩ := Cursor.exists_line_of_word hx (by rw [hword]; exact Option.some_ne_none _)
    rw [← l.map_fst_marked] at hxl
    obtain ⟨m, hm, rfl⟩ := List.mem_map.1 hxl
    exact (h l hl m hm).spelledAlike pos word hword
  have hitems := Cursor.respelled_items hwords
  have hsource : (⟨(Cursor.ofSource source).respell spell, (Cursor.ofSource source).pos⟩ : Cursor)
      = Cursor.ofSource (respell spell source) := by
    rw [respell, Cursor.ofSource, Cursor.ofSource, String.toList_ofList]
  rw [hsource] at hitems
  exact respelled_ofItems hitems

end Sources

/-- **Spelling does not matter.**  Let the words of a source be written in another spelling: letters
change their case in mnemonics, in EQU, in registers, in the conditions of jumps, calls and returns,
and in numbers, also behind SP, and brackets around operands change from round to square or back.
Then the outcome is the same: the same program, or errors of the same kind at the same place. -/
theorem assemble_respelled (source : String) (base : UInt16) (spell : Position → String → String)
    (h : ∀ line ∈ Line.ofSource source, line.MaySpell spell) :
    AgreesUpTo (fun e f => e.kind = f.kind ∧ e.span = f.span) Eq (assemble source base)
      (assemble (respell spell source) base) := by
  have hlines : List.Forall₂ (fun x y : Line => x.statement.Alike y.statement)
      (Line.ofSource source) (Line.ofSource (respell spell source)) := by
    have hboth := (List.forall₂_and_left _ _).2 ⟨h, Line.respelled_ofSource h⟩
    refine hboth.imp fun l l' hl => ?_
    exact Line.alike_statement hl.2.stop (hl.1.spelledItems hl.2.items)
  have hstart : (Layout.start base).Alike (Layout.start base) := ⟨rfl, .nil, rfl, rfl⟩
  exact (hstart.untilError hlines).bind fun l l' hl => hl.program

/-- A source in small letters with round brackets, in capitals with square ones.  The label and the
constant keep their names.  A second source has the same fault at the same place in either
spelling. -/
theorem assemble_respelled_in_capitals :
    (∃ q, assemble "Loop: LD A, [HLI]\n JP NZ, Loop\nk EQU 0XFF\n LD HL, SP+0XA\n LD [k], A" 0x150
        = .ok q ∧
      q.instructions = [⟨0x150, .loadVia .hlInc⟩, ⟨0x151, .jump (some .nz) 0x150⟩,
        ⟨0x154, .loadHLSP 10⟩, ⟨0x156, .storeAt 0xFF⟩]) ∧
    ∃ e, assemble "LD A, [0XG]" 0 = .error e ∧ e.kind = .lexical ∧ e.span = ⟨⟨1, 7⟩, 5⟩ := by
  let spell : Position → String → String := fun _ text =>
    ([("ld", "LD"), ("a", "A"), ("(hli)", "[HLI]"), ("jp", "JP"), ("nz", "NZ"), ("equ", "EQU"),
      ("0xff", "0XFF"), ("hl", "HL"), ("sp+0xa", "SP+0XA"), ("(k)", "[k]"),
      ("(0xg)", "[0XG]")].lookup text).getD text
  constructor
  · have hagrees := assemble_respelled
      "Loop: ld a, (hli)\n jp nz, Loop\nk equ 0xff\n ld hl, sp+0xa\n ld (k), a" 0x150 spell
      (by decide +kernel)
    rw [show respell spell "Loop: ld a, (hli)\n jp nz, Loop\nk equ 0xff\n ld hl, sp+0xa\n ld (k), a"
      = "Loop: LD A, [HLI]\n JP NZ, Loop\nk EQU 0XFF\n LD HL, SP+0XA\n LD [k], A" by
        decide +kernel] at hagrees
    have hrun : (assemble
        "Loop: ld a, (hli)\n jp nz, Loop\nk equ 0xff\n ld hl, sp+0xa\n ld (k), a"
        0x150).toOption.map Program.instructions = some [⟨0x150, .loadVia .hlInc⟩,
          ⟨0x151, .jump (some .nz) 0x150⟩, ⟨0x154, .loadHLSP 10⟩, ⟨0x156, .storeAt 0xFF⟩] := by
      decide +kernel
    rcases hagrees.cases with ⟨p, q, hp, hq, rfl⟩ | ⟨e, f, he, -, -⟩
    · rw [hp] at hrun
      exact ⟨p, hq, Option.some.inj hrun⟩
    · rw [he] at hrun
      cases hrun
  · have hagrees := assemble_respelled "ld a, (0xg)" 0 spell (by decide +kernel)
    rw [show respell spell "ld a, (0xg)" = "LD A, [0XG]" by decide +kernel] at hagrees
    have hrun : (errorOf? (assemble "ld a, (0xg)" 0)).map (fun e => (e.kind, e.span))
        = some (.lexical, ⟨⟨1, 7⟩, 5⟩) := by decide +kernel
    rcases hagrees.cases with ⟨p, q, hp, -, -⟩ | ⟨e, f, he, hf, hkind, hspan⟩
    · rw [hp] at hrun
      cases hrun
    · rw [he] at hrun
      obtain ⟨hlexical, hplace⟩ := Prod.mk.inj (Option.some.inj hrun)
      exact ⟨f, hf, hkind ▸ hlexical, hspan ▸ hplace⟩

end GameBoyAssembler
