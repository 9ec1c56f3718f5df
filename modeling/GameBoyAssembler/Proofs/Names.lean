import GameBoyAssembler.Proofs.Branches
import GameBoyAssembler.Proofs.Composition
import GameBoyAssembler.Proofs.Reassembly
import GameBoyAssembler.Proofs.Respelling

/-!
# Symbols and their names

A constant or a global label cannot be bound to the name of a register, so that an operand with its
name is not mistaken for one.  The names that are refused and the names that are taken for registers
are looked up in different places: those are plain names, and these may be in brackets.  This module
compares them.  The first pass binds plain names only, apart from local labels, and in brackets such a
name is taken for a register only if it has the letters of HLI or HLD.

Main definitions:

* `IsPlainName`, `IsSymbolName` — words of letters, digits and underscores, and those among them that
  name no register;
* `Token.Writes`, `Token.LooksUp` — an operand that is written as a name, and one that is looked up
  under a key;
* `stepsHL` — the letters that are read as HL with a step in brackets.

Main results:

* `isNamed_layout` — the first pass gives such names to constants and global labels;
* `IsSymbolName.isRegisterName_bracketed`, `Token.Writes.looksUp` — **which names are looked up**;
* `exists_assemble_snoc` — one more instruction below a source;
* `symbol_found_by_name`, `symbol_hidden_by_its_name` — **a symbol is found by its name**, and the names
  that hide it.
-/

set_option relaxedAutoImplicit false
set_option autoImplicit false

namespace GameBoyAssembler

/-! ### Names in the source -/

/-- A word of letters, digits and underscores that starts with no digit. -/
def IsPlainName (name : String) : Prop :=
  ∃ c cs, name.toList = c :: cs ∧ isNameStart c = true ∧ cs.all isNameChar = true

theorem IsPlainName.chars {name : String} (h : IsPlainName name) :
    ∀ c ∈ name.toList, isNameChar c = true := by
  obtain ⟨c, cs, hname, hc, hcs⟩ := h
  rw [hname, List.forall_mem_cons]
  exact ⟨isNameChar_of_isNameStart hc, List.all_eq_true.1 hcs⟩

section Lexemes

variable {c : Char} {cs : List Char}

/-- The run of name characters behind the start of a name. -/
theorem isPlainName_run (hc : isNameStart c = true) :
    IsPlainName (String.ofList ((c :: cs).take (runLength isNameChar (c :: cs)))) := by
  refine ⟨c, cs.takeWhile isNameChar, ?_, hc, List.all_takeWhile⟩
  rw [String.toList_ofList, take_runLength, List.takeWhile_cons_of_pos (isNameChar_of_isNameStart hc)]

/-- The token that a name is, with what stands behind it. -/
theorem nameLexeme_cases (n : Nat) (cs : List Char) :
    nameLexeme n cs = ⟨.ok .identifier, n⟩ ∨
      (nameLexeme n cs = ⟨.ok .globalLabel, n + 1⟩ ∧ (cs.drop n).head? = some ':') ∨
      (nameLexeme n cs).outcome = .ok .spShifted := by
  unfold nameLexeme
  dsimp only
  split
  · rename_i sign digit rest hdrop
    split
    · exact Or.inr (Or.inr rfl)
    · split
      · rename_i hcolon
        exact Or.inr (Or.inl ⟨rfl, by rw [hdrop, hcolon]; rfl⟩)
      · exact Or.inl rfl
  · rename_i x hdrop
    split
    · rename_i hcolon
      exact Or.inr (Or.inl ⟨rfl, by rw [hdrop, hcolon]; rfl⟩)
    · exact Or.inl rfl
  · exact Or.inl rfl

/-- Only a letter or an underscore starts a name or a label, unless it is in brackets. -/
theorem isNameStart_of_lexeme (hc : isOpening c = false) {kind : TokenKind}
    (hkind : kind = .identifier ∨ kind = .globalLabel)
    (h : (lexeme (c :: cs)).outcome = .ok kind) : isNameStart c = true := by
  have hbracket : (decide (c = '(') || decide (c = '[')) = false := hc
  simp only [lexeme, hbracket] at h
  rcases hkind with rfl | rfl <;> grind

/-- A name in the source is in brackets or plain. -/
theorem isPlainName_of_identifier (hc : isOpening c = false)
    (h : (lexeme (c :: cs)).outcome = .ok .identifier) :
    IsPlainName (String.ofList ((c :: cs).take (lexeme (c :: cs)).length)) := by
  have hstart := isNameStart_of_lexeme hc (Or.inl rfl) h
  rw [lexeme_of_isNameStart _ hstart] at h ⊢
  rcases nameLexeme_cases (runLength isNameChar (c :: cs)) (c :: cs) with hname | ⟨hname, -⟩ | hname
  · rw [hname]
    exact isPlainName_run hstart
  · rw [hname] at h
    cases h
  · rw [hname] at h
    cases h

/-- A global label is a plain name with a colon. -/
theorem exists_plainName_of_globalLabel (h : (lexeme cs).outcome = .ok .globalLabel) :
    ∃ name, IsPlainName name ∧ cs.take (lexeme cs).length = name.toList ++ [':'] := by
  cases cs with
  | nil => cases h
  | cons c cs =>
      have hc : isOpening c = false := by
        rw [Bool.eq_false_iff]
        intro ho
        rw [lexeme_of_isOpening ho] at h
        rcases (bracketLexeme_inBrackets ho h).1 with hkind | hkind <;> cases hkind
      have hstart := isNameStart_of_lexeme hc (Or.inr rfl) h
      rw [lexeme_of_isNameStart _ hstart] at h ⊢
      rcases nameLexeme_cases (runLength isNameChar (c :: cs)) (c :: cs) with
        hname | ⟨hname, hcolon⟩ | hname
      · rw [hname] at h
        cases h
      · have hplain : IsPlainName (.ofList ((c :: cs).take (runLength isNameChar (c :: cs)))) :=
          isPlainName_run hstart
        refine ⟨_, hplain, ?_⟩
        obtain ⟨rest, hrest⟩ := List.head?_eq_some_iff.1 hcolon
        rw [hname, String.toList_ofList, List.take_add, hrest]
        rfl
      · rw [hname] at h
        cases h

end Lexemes

/-- A token with a name that the reader can make: a name without brackets is plain, and so is the name
of a global label. -/
structure Token.IsNamed (t : Token) : Prop where
  identifier : t.kind = .identifier → t.isBracketed = false → IsPlainName t.text
  globalLabel : t.kind = .globalLabel → ∃ name, IsPlainName name ∧ t.text.toList = name.toList ++ [':']

theorem Token.eq_of_ofText {kind : TokenKind} {text : String} {pos : Position} {t : Token}
    (h : ofText kind text pos = .ok t) : t.kind = kind ∧ t.text = text := by
  unfold ofText at h
  split at h
  · split at h
    · cases h
      exact ⟨rfl, rfl⟩
    · cases h
  · cases h
    exact ⟨rfl, rfl⟩

theorem Cursor.isNamed_of_next {c : Cursor} {t : Token} (h : c.next.1 = .ok t) : t.IsNamed := by
  by_cases hfeed : c.skipBlanks.rest.head? = some '\n'
  · rw [next_of_lineFeed hfeed] at h
    obtain ⟨hkind, -⟩ := Token.eq_of_ofText h
    split at hkind <;> exact ⟨by rw [hkind]; rintro ⟨⟩, by rw [hkind]; rintro ⟨⟩⟩
  · rw [next_of_word hfeed] at h
    cases hl : (lexeme c.skipBlanks.rest).outcome with
    | error cause =>
        rw [word_of_fault hl] at h
        cases h
    | ok kind =>
        by_cases hinvalid : kind = .invalid
        · subst hinvalid
          rw [word_of_stray hl] at h
          cases h
        · rw [word_of_ok hl hinvalid] at h
          obtain ⟨rfl, htext⟩ := Token.eq_of_ofText h
          constructor
          · intro hkind hbracketed
            rw [hkind] at hl
            rw [Token.isBracketed, htext, String.toList_ofList] at hbracketed
            rw [htext]
            generalize c.skipBlanks.rest = cs at hl hbracketed
            cases cs with
            | nil => cases hl
            | cons a cs =>
                obtain ⟨n, hn⟩ := Nat.exists_eq_succ_of_ne_zero
                  (Nat.ne_of_gt (length_lexeme_pos (List.cons_ne_nil a cs)))
                rw [hn, List.take_succ_cons] at hbracketed
                exact isPlainName_of_identifier hbracketed hl
          · intro hkind
            rw [hkind] at hl
            rw [htext, String.toList_ofList]
            exact exists_plainName_of_globalLabel hl

theorem Line.isNamed_of_mem {source : String} {l : Line} (hl : l ∈ ofSource source) {t : Token}
    (ht : .ok t ∈ l.items) : t.IsNamed := by
  obtain ⟨hmem, -⟩ := mem_of_mem_ofItems hl ht
  obtain ⟨c, -, hc⟩ := Cursor.exists_next_of_mem (I := fun _ => True) (fun _ _ => trivial) trivial hmem
  exact Cursor.isNamed_of_next hc

/-! ### Keys of symbols -/

/-- A name that a symbol can have: plain, and not the name of a register. -/
def IsSymbolName (name : String) : Prop :=
  IsPlainName name ∧ isRegisterName name = false

/-- The constants and the global labels of the table have such names. -/
def SymbolTable.IsNamed (table : SymbolTable) : Prop :=
  ∀ (key : String) (x : Symbol), table[key]? = some x →
    x.kind = .constant ∨ x.token.kind = .globalLabel → IsSymbolName key

theorem isBracketed_of_isPlainName {t : Token} {name : String} (h : IsPlainName name)
    {behind : List Char} (ht : t.text.toList = name.toList ++ behind) : t.isBracketed = false := by
  obtain ⟨c, cs, hname, hc, -⟩ := h
  rw [Token.isBracketed, ht, hname]
  have hround : c ≠ '(' := ne_of_class hc rfl
  have hsquare : c ≠ '[' := ne_of_class hc rfl
  simp [hround, hsquare]

/-- The colons behind a word without colons are taken away, and nothing else. -/
theorem withoutColons_of_chars {name text : String} (h : ∀ c ∈ name.toList, c ≠ ':')
    {colons : List Char} (hcolons : ∀ c ∈ colons, c = ':')
    (htext : text.toList = name.toList ++ colons) : withoutColons text = name := by
  have hname : name.toList.reverse.dropWhile (· == ':') = name.toList.reverse := by
    cases hreverse : name.toList.reverse with
    | nil => rfl
    | cons c cs =>
        have hc : c ∈ name.toList := by
          rw [← List.mem_reverse, hreverse]
          exact List.mem_cons_self
        exact List.dropWhile_cons_of_neg (by simp [h c hc])
  have hdrop : (name.toList ++ colons).reverse.dropWhile (· == ':') = name.toList.reverse := by
    rw [List.reverse_append, List.dropWhile_append_of_pos, hname]
    intro c hc
    simp [hcolons c (List.mem_reverse.1 hc)]
  rw [withoutColons, htext, hdrop, List.reverse_reverse, String.ofList_toList]

theorem withoutColons_of_isPlainName {name text : String} (h : IsPlainName name) {colons : List Char}
    (hcolons : ∀ c ∈ colons, c = ':') (htext : text.toList = name.toList ++ colons) :
    withoutColons text = name :=
  withoutColons_of_chars (fun c hc => ne_of_class (h.chars c hc) rfl) hcolons htext

namespace Layout

variable {l : Layout} (h : l.symbols.IsNamed)

include h

theorem isNamed_bind {key : String} {x : Symbol}
    (hx : x.kind = .constant ∨ x.token.kind = .globalLabel → IsSymbolName key) :
    (l.bind key x).1.symbols.IsNamed := by
  unfold bind SymbolTable.bind
  cases l.symbols[key]? with
  | some earlier => exact h
  | none =>
      intro k y hy
      rw [Std.TreeMap.getElem?_insert] at hy
      split at hy
      · rename_i hk
        cases hy
        rw [← Std.LawfulEqCmp.compare_eq_iff_eq.1 hk]
        exact hx
      · exact h k y hy

theorem isNamed_defineLabel {t : Token} (ht : t.IsNamed) :
    (l.defineLabel t).1.symbols.IsNamed := by
  unfold defineLabel
  split
  · rename_i hkind
    obtain ⟨name, hname, htext⟩ := ht.globalLabel hkind
    have hkey : withoutColons t.text = name :=
      withoutColons_of_isPlainName hname (by simp) htext
    dsimp only
    split
    · exact h
    · rename_i hregister
      have hsymbol : symbolKey (some (withoutColons t.text)) t = .ok name := by
        rw [symbolKey, hkind, Token.unbracketed, isBracketed_of_isPlainName hname htext, ← hkey]
        rfl
      unfold bindLabel
      rw [hsymbol]
      refine isNamed_bind (l := { l with scope := some (withoutColons t.text) }) h
        fun _ => ⟨hname, ?_⟩
      rw [← hkey]
      exact Bool.eq_false_iff.2 hregister
  · rename_i hkind
    unfold bindLabel
    split
    · refine isNamed_bind h ?_
      rintro (hconstant | hglobal)
      · cases hconstant
      · exact absurd hglobal hkind
    · exact h

theorem isNamed_defineConstant {name : Token} (hname : IsSymbolName name.text)
    (value : ConstantValue) : (l.defineConstant name value).1.symbols.IsNamed := by
  cases value with
  | number v => exact isNamed_bind h fun _ => hname
  | symbol t =>
      unfold defineConstant
      dsimp only
      split
      · exact isNamed_bind h fun _ => hname
      · exact h

theorem isNamed_body {items : List Item} (hitems : ∀ t, .ok t ∈ items → t.IsNamed)
    {body : Except Error Body} (hbody : Says items body) :
    (l.add ⟨none, body⟩).1.symbols.IsNamed := by
  cases hbody with
  | nothing => exact h
  | fault _ => exact h
  | @instruction mnemonic name operands _ _ =>
      have hsymbols : (l.place mnemonic name operands).1.symbols = l.symbols := by
        unfold place
        dsimp only
        split
        · rfl
        · split <;> rfl
      change (l.place mnemonic name operands).1.symbols.IsNamed
      rwa [hsymbols]
  | @constant name equ t value items hkind hname hbracket hvalue =>
      have hplain := (hitems name List.mem_cons_self).identifier hkind hbracket
      have hnamed := isNamed_defineConstant h ⟨hplain, hname⟩ value
      exact Step.andThen_keeps (P := fun l => l.symbols.IsNamed) hnamed hnamed

/-- **A line binds plain names only**, local labels apart. -/
theorem isNamed_add {line : Line} (hline : ∀ t, .ok t ∈ line.items → t.IsNamed) :
    (l.add line.statement).1.symbols.IsNamed := by
  obtain ⟨items, hitems, -, hsays⟩ := line.exists_says
  rw [hitems] at hline
  generalize line.statement = s at *
  obtain ⟨label, body⟩ := s
  cases label with
  | none => exact isNamed_body h hline hsays
  | some t =>
      have hlabel := isNamed_defineLabel h (hline t List.mem_cons_self)
      rw [add_some]
      refine Step.andThen_keeps (P := fun l => l.symbols.IsNamed) hlabel ?_
      exact isNamed_body hlabel (fun u hu => hline u (List.mem_cons_of_mem _ hu)) hsays

theorem isNamed_keepGoing {lines : List Line}
    (hlines : ∀ line ∈ lines, ∀ t, .ok t ∈ line.items → t.IsNamed) :
    (l.keepGoing lines).1.symbols.IsNamed := by
  induction lines generalizing l with
  | nil => exact h
  | cons line lines ih =>
      obtain ⟨hline, hlines⟩ := List.forall_mem_cons.1 hlines
      exact ih (isNamed_add h hline) hlines

omit h

theorem isNamed_start (base : UInt16) : (start base).symbols.IsNamed := by
  intro key x hx
  rw [start, Std.TreeMap.getElem?_emptyc] at hx
  cases hx

end Layout

/-- **The first pass gives plain names to constants and global labels**, and none of a register. -/
theorem isNamed_layout (source : String) (base : UInt16) :
    ((Layout.start base).keepGoing (Line.ofSource source)).1.symbols.IsNamed :=
  Layout.isNamed_keepGoing (Layout.isNamed_start base)
    fun _ hline _ ht => Line.isNamed_of_mem hline ht

/-! ### Operands -/

/-- Letters that are read as HL with a step, in brackets. -/
def stepsHL (name : String) : Bool :=
  sameLetters name "HLI" || sameLetters name "HLD"

/-- A character of a word that no name has makes the word the name of no symbol. -/
theorem IsPlainName.sameLetters_eq_false {name word : String} (h : IsPlainName name) {c : Char}
    (hc : c ∈ word.toList) (hother : isNameChar c = false) : sameLetters name word = false := by
  rw [Bool.eq_false_iff, Ne, sameLetters_iff]
  intro hsame
  have hmem : c.toUpper ∈ capitals name := by
    rw [hsame]
    exact List.mem_map_of_mem hc
  obtain ⟨d, hd, hdc⟩ := List.mem_map.1 hmem
  have hclass : isNameChar d = isNameChar c := class_recased (by decide) hdc
  rw [h.chars d hd, hother] at hclass
  cases hclass

namespace IsSymbolName

variable {name text : String} (h : IsSymbolName name)

include h

theorem insideBrackets?_eq_none : insideBrackets? name = none := by
  rw [Option.eq_none_iff_forall_ne_some]
  intro inner hinner
  obtain ⟨o, ho, hname⟩ := insideBrackets?_eq_some_iff.1 hinner
  obtain ⟨c, cs, hcs, hc, -⟩ := h.1
  obtain rfl : c = o := (List.cons.inj (hcs.symm.trans hname)).1
  rcases isOpening_cases ho with rfl | rfl <;> cases hc

/-- The name has other letters than any register. -/
theorem sameLetters_register :
    (∀ r ∈ Reg8.all, sameLetters r.text name = false) ∧
      ∀ rr ∈ Reg16.all, sameLetters rr.text name = false := by
  have hregister := h.2
  simp only [isRegisterName, Bool.or_eq_false_iff, Option.isSome_eq_false_iff,
    Option.isNone_iff_eq_none, Reg8.ofName?, h.insideBrackets?_eq_none] at hregister
  obtain ⟨⟨⟨⟨⟨h8, h16⟩, -⟩, -⟩, -⟩, -⟩ := hregister
  have hnone {α : Type} {text : α → String} {as : List α}
      (has : as.find? (fun a => sameLetters (text a) name) = none) :
      ∀ a ∈ as, sameLetters (text a) name = false := by
    intro a ha
    exact Bool.eq_false_iff.2 (List.find?_eq_none.1 has a ha)
  exact ⟨hnone h8, hnone h16⟩

/-- In brackets it is no byte register and no pair. -/
theorem register_bracketed (htext : InBrackets name.toList text.toList) :
    Reg8.ofName? text = none ∧ Reg16.ofName? text = none := by
  have hpairs : ∀ rr ∈ Reg16.all, isBare rr.text = true := by decide
  constructor
  · have hhl : sameLetters name "HL" = false := by
      rw [sameLetters_comm]
      exact h.sameLetters_register.2 .hl (by decide)
    rw [Reg8.ofName?, insideBrackets?_eq_some_iff.2 htext]
    dsimp only
    rw [hhl]
    rfl
  · refine List.find?_eq_none.2 fun rr hrr => ?_
    rw [sameLetters_inBrackets (hpairs rr hrr) htext]
    exact Bool.false_ne_true

/-- In brackets it is a pointer in one case only. -/
theorem pointer_bracketed (htext : InBrackets name.toList text.toList) :
    (Pointer.ofName? text).isSome = stepsHL name := by
  have hbc : sameLetters name "BC" = false := by
    rw [sameLetters_comm]
    exact h.sameLetters_register.2 .bc (by decide)
  have hde : sameLetters name "DE" = false := by
    rw [sameLetters_comm]
    exact h.sameLetters_register.2 .de (by decide)
  have hplus : sameLetters name "HL+" = false := h.1.sameLetters_eq_false (c := '+') (by decide) rfl
  have hminus : sameLetters name "HL-" = false := h.1.sameLetters_eq_false (c := '-') (by decide) rfl
  rw [Pointer.ofName?, insideBrackets?_eq_some_iff.2 htext, Option.bind_some, stepsHL]
  cases hi : sameLetters name "HLI" <;> cases hd : sameLetters name "HLD" <;>
    simp [Pointer.all, Pointer.spellings, hbc, hde, hplus, hminus, hi, hd]

/-- **In brackets the name is that of a register only if it is read as HL with a step.** -/
theorem isRegisterName_bracketed (htext : InBrackets name.toList text.toList) :
    isRegisterName text = stepsHL name := by
  obtain ⟨h8, h16⟩ := h.register_bracketed htext
  have hinside := insideBrackets?_eq_some_iff.2 htext
  have hstack : StackPair.ofName? text = none := by
    have hbare : ∀ q ∈ StackPair.all, isBare q.text = true := by decide
    refine List.find?_eq_none.2 fun q hq => ?_
    rw [sameLetters_inBrackets (hbare q hq) htext]
    exact Bool.false_ne_true
  have hhigh : isHighC text = false := by
    rw [isHighC, hinside]
    exact h.sameLetters_register.1 .c (by decide)
  have hpair : Reg16.ofName? name = none := by
    refine List.find?_eq_none.2 fun rr hrr => ?_
    rw [h.sameLetters_register.2 rr hrr]
    exact Bool.false_ne_true
  rw [isRegisterName, h8, h16, hstack, h.pointer_bracketed htext, hhigh, hinside, Option.any_some,
    hpair]
  simp

end IsSymbolName

/-! ### Looking a symbol up -/

namespace Token

/-- The token is a name that is written as the given name, alone or in brackets. -/
def Writes (t : Token) (name : String) : Prop :=
  t.word = .name name ∨ t.word = .name ("(" ++ name ++ ")") ∨ t.word = .name ("[" ++ name ++ "]")

/-- The operand stands for memory in brackets and for a number without, and what it stands for is
looked up under the given key. -/
structure LooksUp (t : Token) (table : SymbolTable) (key : String) : Prop where
  shape : t.shape = .ok (if t.isBracketed then .memory else .immediate)
  quantity (c : Context) (hc : c.symbols = some table) :
    c.quantity t = do
      let (v, origin) ← table.resolve key t
      return some ⟨v, some origin⟩

theorem inBrackets_of_word {t : Token} {name : String} (h : t.word = .name ("(" ++ name ++ ")")) :
    InBrackets name.toList t.text.toList := by
  have htext : t.text = "(" ++ name ++ ")" := congrArg Word.text h
  refine ⟨'(', rfl, ?_⟩
  rw [htext, String.toList_append, String.toList_append]
  rfl

theorem Writes.cases {t : Token} {name : String} (h : t.Writes name) :
    t.kind = .identifier ∧ t.value = none ∧
      (t.text = name ∨ InBrackets name.toList t.text.toList) := by
  rcases h with h | h | h
  · exact ⟨congrArg Word.kind h, congrArg Word.value h, Or.inl (congrArg Word.text h)⟩
  · exact ⟨congrArg Word.kind h, congrArg Word.value h, Or.inr (inBrackets_of_word h)⟩
  · have htext : t.text = "[" ++ name ++ "]" := congrArg Word.text h
    refine ⟨congrArg Word.kind h, congrArg Word.value h, Or.inr ⟨'[', rfl, ?_⟩⟩
    rw [htext, String.toList_append, String.toList_append]
    rfl

theorem isBracketed_of_text {t : Token} {name : String} (h : IsPlainName name)
    (htext : t.text = name) : t.isBracketed = false := by
  have hall : t.text.toList = name.toList ++ [] := by rw [htext, List.append_nil]
  exact isBracketed_of_isPlainName h hall

theorem isBracketed_of_inBrackets {t : Token} {inner : List Char}
    (h : InBrackets inner t.text.toList) : t.isBracketed = true := by
  obtain ⟨o, ho, htext⟩ := h
  rw [isBracketed, htext]
  exact ho

variable {t : Token} {name : String} (hname : IsSymbolName name) (ht : t.Writes name)

include hname ht

/-- The key of the token is the name. -/
theorem Writes.symbolKey_eq (scope : Option String) : symbolKey scope t = .ok name := by
  obtain ⟨hkind, -, htext⟩ := ht.cases
  have hunbracketed : t.unbracketed = name := by
    rw [unbracketed]
    rcases htext with htext | htext
    · rw [isBracketed_of_text hname.1 htext, htext]
      rfl
    · rw [if_pos (isBracketed_of_inBrackets htext), withoutEnds?_inBrackets htext,
        Option.getD_some, String.ofList_toList]
  unfold symbolKey
  rw [hkind, hunbracketed]
  have hall : name.toList = name.toList ++ [] := (List.append_nil _).symm
  exact congrArg Except.ok (withoutColons_of_isPlainName hname.1 (List.forall_mem_nil _) hall)

/-- The token is the name of a register in one case only. -/
theorem Writes.isRegisterName_eq : isRegisterName t.text = (t.isBracketed && stepsHL name) := by
  obtain ⟨-, -, htext | htext⟩ := ht.cases
  · rw [isBracketed_of_text hname.1 htext, htext]
    exact hname.2
  · rw [isBracketed_of_inBrackets htext]
    exact hname.isRegisterName_bracketed htext

/-- **The name of a symbol is looked up**, unless it is read as HL with a step. -/
theorem Writes.looksUp (hsteps : (t.isBracketed && stepsHL name) = false) (table : SymbolTable) :
    t.LooksUp table name := by
  obtain ⟨hkind, hvalue, -⟩ := ht.cases
  have hshape := shape_of_name hkind ((ht.isRegisterName_eq hname).trans hsteps)
  refine ⟨hshape, fun c hc => ?_⟩
  rw [Context.quantity, hvalue, hshape]
  dsimp only
  cases t.isBracketed
  all_goals
    change (symbolKey c.scope t >>= _) = _
    rw [ht.symbolKey_eq hname, hc]
    rfl

/-- In that case it is a pointer. -/
theorem Writes.shape_of_stepsHL (hsteps : (t.isBracketed && stepsHL name) = true) :
    ∃ p, t.shape = .ok (.via p) := by
  rw [Bool.and_eq_true] at hsteps
  obtain ⟨hkind, -, htext | htext⟩ := ht.cases
  · rw [isBracketed_of_text hname.1 htext] at hsteps
    cases hsteps.1
  · obtain ⟨h8, h16⟩ := hname.register_bracketed htext
    have hpointer := hname.pointer_bracketed htext
    rw [hsteps.2, Option.isSome_iff_exists] at hpointer
    obtain ⟨p, hp⟩ := hpointer
    refine ⟨p, ?_⟩
    rw [shape, hkind]
    dsimp only
    rw [Shape.ofName, h8, h16, hp]

end Token

/-! ### Instructions -/

namespace Context

variable {c : Context} {table : SymbolTable} {t : Token} {key : String} {v : Int}

theorem checked_of_looksUp {α : Type} [OfNat α 0] (hc : c.symbols = some table)
    (ht : t.LooksUp table key) (hv : table.value? key = some v) (rule : Int → Except Cause α) :
    ∃ origin, c.checked t rule = match rule v with
      | .ok a => .ok a
      | .error cause => .error (.referring t cause origin) := by
  obtain ⟨x, hx, -⟩ := Option.bind_eq_some_iff.1 hv
  have hresolve := (SymbolTable.resolve_eq_ok_iff (t := t)).2 ⟨⟨x, hx, rfl⟩, hv⟩
  refine ⟨some x.token, ?_⟩
  rw [checked, ht.quantity c hc, hresolve]
  rfl

/-- The address of a symbol is its value. -/
theorem addressWord_of_looksUp (hc : c.symbols = some table) (ht : t.LooksUp table key)
    (hv : table.value? key = some v) (hrange : 0 ≤ v ∧ v ≤ 0xFFFF) :
    c.addressWord t = .ok (UInt16.ofInt v) := by
  obtain ⟨origin, hchecked⟩ := checked_of_looksUp hc ht hv Width.unsigned16.check
  have hcheck : Width.unsigned16.check v = .ok v := if_pos hrange
  rw [addressWord, number, hchecked, hcheck]
  rfl

theorem toNat_of_addressWord (hc : c.symbols = some table) (ht : t.LooksUp table key)
    (hv : table.value? key = some v) {nn : UInt16} (h : c.addressWord t = .ok nn) :
    (nn.toNat : Int) = v := by
  obtain ⟨origin, hchecked⟩ := checked_of_looksUp hc ht hv Width.unsigned16.check
  rw [addressWord, number, hchecked, Width.check] at h
  split at h
  · rename_i w hw
    split at hw
    · rename_i haccepts
      cases hw
      cases h
      exact toNat_ofInt_word haccepts
    · cases hw
  · cases h

end Context

/-! ### Instructions that use a symbol -/

namespace Context

variable {c : Context} {name dst comma src t : Token} {table : SymbolTable} {key : String}

theorem select_jp : c.select .jp name [t] = c.jumpTo none t :=
  c.select_eq_of_front name rfl

/-- The load of A from the memory that a symbol names. -/
theorem load_of_looksUp (hA : dst.word = .name "A") (ht : t.LooksUp table key)
    (hbracketed : t.isBracketed = true) : c.load dst t = (c.addressWord t).map .loadAt := by
  have hshapeA : dst.shape = .ok (.reg8 .a) := by
    obtain ⟨pos, rfl⟩ := Word.exists_token hA
    exact shape_reg8 pos .a
  have hexpect : dst.expectA = .ok () := by
    rw [Token.expectA, hshapeA]
    rfl
  rw [load, hshapeA, ht.shape, hbracketed]
  simp only [ok_bind, if_true, hexpect]
  rfl

/-- The jump to a symbol. -/
theorem jumpTo_of_looksUp (ht : t.LooksUp table key) (hbracketed : t.isBracketed = false) :
    c.jumpTo none t = (c.addressWord t).map (.jump none) := by
  rw [jumpTo, ht.shape, hbracketed]
  rfl

end Context

/-! ### One more instruction -/

/-- An instruction below lines that are assembled. -/
theorem exists_assembleLines_snoc {lines : List Line} {line : Line} {base : UInt16} {p : Program}
    {mnemonic : Mnemonic} {name : Token} {operands : List Token} {i : Instruction}
    (h : assembleLines lines base = .ok p)
    (hline : line.statement = ⟨none, .ok (.instruction mnemonic name operands)⟩)
    (hselect : ∀ c : Context, c.symbols = some p.symbols → c.select mnemonic name operands = .ok i)
    (hroom : base.toNat + p.image.length + i.bytes.length ≤ addressSpace) :
    ∃ q, assembleLines (lines ++ [line]) base = .ok q ∧ q.symbols = p.symbols ∧
      q.instructions = p.instructions ++ [⟨UInt16.ofNat (base.toNat + p.image.length), i⟩] := by
  obtain ⟨l, hl, has, hsymbols⟩ := assembleLines_eq_ok_iff.1 h
  have haddress : l.address = base.toNat + p.image.length := Layout.address_of_untilError hl has
  rw [← haddress] at hroom ⊢
  obtain ⟨q, hq⟩ : ∃ q : Pending,
      q = ⟨mnemonic, name, operands, UInt16.ofNat l.address, l.scope⟩ := ⟨_, rfl⟩
  have hbuild : q.build (some l.symbols) = .ok i := by
    rw [hq, ← hsymbols]
    exact hselect _ rfl
  obtain ⟨j, hj, -⟩ := q.exists_build_none l.symbols hbuild
  have hlength := q.length_build l.symbols hj hbuild
  rw [hlength] at hroom
  have hadd : l.add line.statement
      = ({ l with pending := l.pending.push q, address := l.address + j.bytes.length }, none) := by
    have hfits : ¬ addressSpace < l.address + instructionLength j.opcode.firstByte := by
      rw [← j.length_bytes]
      omega
    rw [hline]
    change l.place mnemonic name operands = _
    rw [Layout.place, ← hq]
    simp only [hj, if_neg hfits, j.length_bytes]
  have hrun : (Layout.start base).untilError (lines ++ [line])
      = .ok { l with pending := l.pending.push q, address := l.address + j.bytes.length } := by
    rw [Layout.untilError_append, hl]
    change l.untilError [line] = _
    rw [Layout.untilError_cons, hadd]
    rfl
  have hresolve : q.resolve l.symbols = .ok ⟨UInt16.ofNat l.address, i⟩ := by
    rw [Pending.resolve, hbuild, hq]
    rfl
  refine ⟨⟨p.instructions ++ [⟨UInt16.ofNat l.address, i⟩], p.symbols⟩,
    assembleLines_eq_ok_iff.2 ⟨_, hrun, ?_, hsymbols⟩, rfl, rfl⟩
  rw [Array.toList_push]
  exact List.rel_append has (.cons hresolve .nil)

/-- An instruction below a source that is assembled. -/
theorem exists_assemble_snoc {source text : String} {base : UInt16} {p : Program}
    {mnemonic : Mnemonic} {name : Token} {operands : List Token} {i : Instruction}
    (h : assemble source base = .ok p) (hfeed : '\n' ∉ text.toList)
    (htext : tokenize text = (name :: operands).map .ok)
    (hline : (Line.alone ((name :: operands).map .ok)).statement
      = ⟨none, .ok (.instruction mnemonic name operands)⟩)
    (hselect : ∀ (table : SymbolTable) (c : Context), SymbolTable.Same p.symbols table →
      c.symbols = some table → c.select mnemonic name operands = .ok i)
    (hroom : base.toNat + p.image.length + i.bytes.length ≤ addressSpace) :
    ∃ q, assemble (source ++ "\n" ++ text) base = .ok q ∧
      q.instructions = p.instructions ++ [⟨UInt16.ofNat (base.toNat + p.image.length), i⟩] := by
  obtain ⟨r, hr, hpr⟩ := (agrees_assemble_readLines source base).succeedAlike.1 p h
  have himage : r.image = p.image := by
    rw [Program.image, Program.image, hpr.instructions]
  rw [← himage] at hroom ⊢
  obtain ⟨s, hs, -, hinstructions⟩ := exists_assembleLines_snoc hr hline
    (fun c hc => hselect r.symbols c hpr.symbols hc) hroom
  have hlines : readLines (source ++ "\n" ++ text).toList
      = readLines source.toList ++ [(name :: operands).map .ok] := by
    rw [← htext, ← readLines_of_tokenize hfeed (by rw [htext]; exact List.cons_ne_nil _ _),
      ← readLines_append]
    simp
  have hjoined : (readLines source.toList).map Line.alone
        ++ [Line.alone ((name :: operands).map .ok)]
      = (readLines (source ++ "\n" ++ text).toList).map Line.alone := by
    rw [hlines, List.map_append]
    rfl
  rw [hjoined] at hs
  obtain ⟨q, hq, hqs⟩ := (agrees_assemble_readLines _ base).succeedAlike.2 s hs
  exact ⟨q, hq, by rw [hqs.instructions, hinstructions, hpr.instructions]⟩

/-- A text of spaced words is read as these words. -/
theorem exists_tokenize_spaced {text : String} {w : Word} {ws : List Word} (hw : w.IsRead)
    (hws : ∀ w ∈ ws, w.IsRead) (htext : text.toList = w.text.toList ++ spaced ws) :
    ∃ t ts, t.word = w ∧ ts.map Token.word = ws ∧ tokenize text = (t :: ts).map .ok := by
  have hend : Delimited [] := by
    intro c hc
    cases hc
  have hrest : (Cursor.ofSource text).rest = [] ++ (w.text.toList ++ (spaced ws ++ [])) := by
    rw [List.append_nil, List.nil_append]
    exact htext
  obtain ⟨t, c, ht, hc, hitems⟩ :=
    Cursor.items_word hw (by simp) (hend.spaced_append ws) hrest
  obtain ⟨ts, d, hts, hd, hitems'⟩ := Cursor.items_spaced hws hend hc
  refine ⟨t, ts, ht, hts, ?_⟩
  obtain ⟨stop, hstop⟩ : ∃ stop, d.items = [stop] := by
    obtain ⟨rest, pos⟩ := d
    obtain rfl : rest = [] := hd
    exact ⟨_, Cursor.items_nil _⟩
  rw [tokenize, hitems, hitems', hstop, ← List.cons_append, List.dropLast_concat]
  rfl

theorem Line.statement_alone {name : Token} {ts : List Token} {mnemonic : Mnemonic}
    (hkind : name.kind = .identifier) (hname : Mnemonic.ofName? name.text = some mnemonic)
    (hequ : ∀ t ∈ ts, Statement.isEqu t = false) :
    (Line.alone ((name :: ts).map .ok)).statement
      = ⟨none, .ok (.instruction mnemonic name ts)⟩ := by
  rw [statement, alone, List.map_cons]
  simp only [Token.isLabel, hkind, Statement.readBody_ok hname ts hkind hequ]
  rfl

section Symbols

variable {name : String}

theorem IsPlainName.isRead (h : IsPlainName name) :
    (Word.name name).IsRead ∧ (Word.name ("(" ++ name ++ ")")).IsRead := by
  obtain ⟨c, cs, hname, hc, hcs⟩ := h
  refine ⟨Word.isRead_name hname hc hcs, Word.isRead_bracketed c cs ?_ hc ?_⟩
  · rw [String.toList_append, String.toList_append, hname]
    rfl
  · rw [List.all_eq_true] at hcs ⊢
    intro d hd
    rw [isBracketedChar, hcs d hd]
    rfl

theorem IsPlainName.notMem_lineFeed (h : IsPlainName name) : '\n' ∉ name.toList := by
  intro hmem
  have hchar := h.chars _ hmem
  cases hchar

/-- An instruction that was made from an address that a symbol names. -/
theorem exists_of_map_addressWord {c : Context} {table : SymbolTable} {t : Token} {v : Int}
    {i : Instruction} {f : UInt16 → Instruction} (hc : c.symbols = some table)
    (ht : t.LooksUp table name) (hv : table.value? name = some v)
    (h : (c.addressWord t).map f = .ok i) : ∃ nn, i = f nn ∧ (nn.toNat : Int) = v := by
  cases hword : c.addressWord t with
  | error e => rw [hword] at h; cases h
  | ok nn =>
      rw [hword] at h
      cases h
      exact ⟨nn, rfl, Context.toNat_of_addressWord hc ht hv hword⟩

/-- A load of A from a symbol, wherever it stands. -/
theorem Pending.loadAt_of_build (hname : IsSymbolName name) (hsteps : stepsHL name = false)
    {q : Pending} {table : SymbolTable} {i : Instruction} {v : Int}
    (hv : table.value? name = some v) (hbuild : q.build (some table) = .ok i)
    (hmnemonic : q.mnemonic = .ld)
    (hoperands : q.operands.map Token.word = [.name "A", .comma, .name ("(" ++ name ++ ")")]) :
    ∃ nn, i = .loadAt nn ∧ (nn.toNat : Int) = v := by
  obtain ⟨dst, ts, hq, hdst, hts⟩ := List.map_eq_cons_iff.1 hoperands
  obtain ⟨comma, ts, rfl, hcomma, hts⟩ := List.map_eq_cons_iff.1 hts
  obtain ⟨src, ts, rfl, hsrc, hts⟩ := List.map_eq_cons_iff.1 hts
  obtain rfl := List.map_eq_nil_iff.1 hts
  have hbracketed := Token.isBracketed_of_inBrackets (Token.inBrackets_of_word hsrc)
  have hlooksUp := Token.Writes.looksUp hname (Or.inr (Or.inl hsrc)) (by rw [hsteps, Bool.and_false])
    table
  have hisComma : comma.isComma = true := by
    obtain ⟨pos, rfl⟩ := Word.exists_token hcomma
    rfl
  rw [Pending.build, hmnemonic, hq, Context.select_ld _ _ hisComma,
    Context.load_of_looksUp hdst hlooksUp hbracketed] at hbuild
  exact exists_of_map_addressWord rfl hlooksUp hv hbuild

/-- A jump to a symbol, wherever it stands. -/
theorem Pending.jump_of_build (hname : IsSymbolName name) {q : Pending} {table : SymbolTable}
    {i : Instruction} {v : Int} (hv : table.value? name = some v)
    (hbuild : q.build (some table) = .ok i) (hmnemonic : q.mnemonic = .jp)
    (hoperands : q.operands.map Token.word = [.name name]) :
    ∃ nn, i = .jump none nn ∧ (nn.toNat : Int) = v := by
  obtain ⟨target, ts, hq, htarget, hts⟩ := List.map_eq_cons_iff.1 hoperands
  obtain rfl := List.map_eq_nil_iff.1 hts
  have hplain := Token.isBracketed_of_text hname.1 (congrArg Word.text htarget)
  have hlooksUp := Token.Writes.looksUp hname (Or.inl htarget) (by rw [hplain, Bool.false_and]) table
  rw [Pending.build, hmnemonic, hq, Context.select_jp, Context.jumpTo_of_looksUp hlooksUp hplain]
    at hbuild
  exact exists_of_map_addressWord rfl hlooksUp hv hbuild

/-- The load of A from a symbol, below a source. -/
theorem exists_assemble_load (hname : IsSymbolName name) (hsteps : stepsHL name = false)
    {source : String} {base : UInt16} {p : Program} (h : assemble source base = .ok p) {v : Int}
    (hv : p.symbols.value? name = some v) (hrange : 0 ≤ v ∧ v ≤ 0xFFFF)
    (hroom : base.toNat + p.image.length + 3 ≤ addressSpace) :
    ∃ q, assemble (source ++ "\n" ++ ("LD A, (" ++ name ++ ")")) base = .ok q ∧
      q.instructions = p.instructions
        ++ [⟨UInt16.ofNat (base.toNat + p.image.length), .loadAt (UInt16.ofInt v)⟩] := by
  have hspaced : ("LD A, (" ++ name ++ ")").toList = (Word.name "LD").text.toList
      ++ spaced [.name "A", .comma, .name ("(" ++ name ++ ")")] := by
    simp [spaced, Word.spacedText, Word.name, Word.comma]
  have hwords : ∀ w ∈ [.name "A", .comma, .name ("(" ++ name ++ ")")], Word.IsRead w := by
    refine List.forall_mem_cons.2 ⟨Word.isRead_name rfl rfl rfl, ?_⟩
    exact List.forall_mem_cons.2 ⟨Word.isRead_comma, List.forall_mem_singleton.2 hname.1.isRead.2⟩
  obtain ⟨t, ts, ht, hts, htext⟩ := exists_tokenize_spaced (Word.isRead_name rfl rfl rfl) hwords hspaced
  obtain ⟨dst, ts, rfl, hdst, hts⟩ := List.map_eq_cons_iff.1 hts
  obtain ⟨comma, ts, rfl, hcomma, hts⟩ := List.map_eq_cons_iff.1 hts
  obtain ⟨src, ts, rfl, hsrc, hts⟩ := List.map_eq_cons_iff.1 hts
  obtain rfl := List.map_eq_nil_iff.1 hts
  have hbrackets := Token.inBrackets_of_word hsrc
  have hbracketed := Token.isBracketed_of_inBrackets hbrackets
  have hlooksUp := Token.Writes.looksUp hname (Or.inr (Or.inl hsrc)) (by rw [hsteps, Bool.and_false])
  have hisComma : comma.isComma = true := by
    obtain ⟨pos, rfl⟩ := Word.exists_token hcomma
    rfl
  have hequ : ∀ u ∈ [dst, comma, src], Statement.isEqu u = false := by
    refine List.forall_mem_cons.2 ⟨?_, List.forall_mem_cons.2 ⟨?_, List.forall_mem_singleton.2 ?_⟩⟩
    · rw [Statement.isEqu, show dst.text = "A" from congrArg Word.text hdst,
        show sameLetters "A" "EQU" = false by decide, Bool.and_false]
    · obtain ⟨pos, rfl⟩ := Word.exists_token hcomma
      rfl
    · rw [Statement.isEqu, sameLetters_comm, sameLetters_inBrackets (by decide) hbrackets,
        Bool.and_false]
  have hmnemonic : Mnemonic.ofName? t.text = some .ld := by
    rw [show t.text = "LD" from congrArg Word.text ht]
    rfl
  refine exists_assemble_snoc h ?_ htext
    (Line.statement_alone (congrArg Word.kind ht) hmnemonic hequ) ?_ hroom
  · have hfeed := hname.1.notMem_lineFeed
    simp [hfeed]
  · intro table c hsame hc
    rw [Context.select_ld _ _ hisComma, Context.load_of_looksUp hdst (hlooksUp table) hbracketed,
      Context.addressWord_of_looksUp hc (hlooksUp table) (hsame.value?_eq name ▸ hv) hrange]
    rfl

/-- The jump to a symbol, below a source. -/
theorem exists_assemble_jump (hname : IsSymbolName name) (hequ : sameLetters name "EQU" = false)
    {source : String} {base : UInt16} {p : Program} (h : assemble source base = .ok p) {v : Int}
    (hv : p.symbols.value? name = some v) (hrange : 0 ≤ v ∧ v ≤ 0xFFFF)
    (hroom : base.toNat + p.image.length + 3 ≤ addressSpace) :
    ∃ q, assemble (source ++ "\n" ++ ("JP " ++ name)) base = .ok q ∧
      q.instructions = p.instructions
        ++ [⟨UInt16.ofNat (base.toNat + p.image.length), .jump none (UInt16.ofInt v)⟩] := by
  have hspaced : ("JP " ++ name).toList
      = (Word.name "JP").text.toList ++ spaced [.name name] := by
    simp [spaced, Word.spacedText, Word.name, Word.comma]
  obtain ⟨t, ts, ht, hts, htext⟩ := exists_tokenize_spaced (Word.isRead_name rfl rfl rfl)
    (List.forall_mem_singleton.2 hname.1.isRead.1) hspaced
  obtain ⟨target, ts, rfl, htarget, hts⟩ := List.map_eq_cons_iff.1 hts
  obtain rfl := List.map_eq_nil_iff.1 hts
  have htargetText : target.text = name := congrArg Word.text htarget
  have hplain := Token.isBracketed_of_text hname.1 (congrArg Word.text htarget)
  have hlooksUp := Token.Writes.looksUp hname (Or.inl htarget) (by rw [hplain, Bool.false_and])
  have hmnemonic : Mnemonic.ofName? t.text = some .jp := by
    rw [show t.text = "JP" from congrArg Word.text ht]
    rfl
  have hnotEqu : ∀ u ∈ [target], Statement.isEqu u = false := by
    refine List.forall_mem_singleton.2 ?_
    rw [Statement.isEqu, htargetText, hequ, Bool.and_false]
  refine exists_assemble_snoc h ?_ htext
    (Line.statement_alone (congrArg Word.kind ht) hmnemonic hnotEqu) ?_ hroom
  · have hfeed := hname.1.notMem_lineFeed
    simp [hfeed]
  · intro table c hsame hc
    rw [Context.select_jp, Context.jumpTo_of_looksUp (hlooksUp table) hplain,
      Context.addressWord_of_looksUp hc (hlooksUp table) (hsame.value?_eq name ▸ hv) hrange]
    rfl

end Symbols

/-! ### Symbols and their names -/

/-- **A symbol is found by its name.**  Let the first pass over a source bind a name as a constant or
as a global label.  Every operand that is written as this name, alone or in brackets, is looked up
under it, and is no register; only a name with the letters of HLI or HLD, in brackets, is read as HL
with a step instead.  So wherever a program loads A from the name in brackets or jumps to the name,
it uses the value of the symbol.  Below any program with room for it the load can be written, if the
name has other letters than HLI and HLD, and the jump, if it has other letters than EQU. -/
theorem symbol_found_by_name {source : String} {base : UInt16} {name : String} {x : Symbol}
    (hbound : ((Layout.start base).keepGoing (Line.ofSource source)).1.symbols[name]? = some x)
    (hglobal : x.kind = .constant ∨ x.token.kind = .globalLabel) :
    (∀ t : Token, t.Writes name → (t.isBracketed && stepsHL name) = false →
      t.LooksUp ((Layout.start base).keepGoing (Line.ofSource source)).1.symbols name) ∧
    (∀ t : Token, t.Writes name → (t.isBracketed && stepsHL name) = true →
      ∃ p, t.shape = .ok (.via p)) ∧
    ∀ p v, assemble source base = .ok p → p.symbols.value? name = some v →
      (∀ w a, (w, a) ∈ (Written.ofSource source).zip p.instructions →
        (w.mnemonic = .ld →
          w.operands.map Token.word = [.name "A", .comma, .name ("(" ++ name ++ ")")] →
          stepsHL name = false → ∃ nn, a.instruction = .loadAt nn ∧ (nn.toNat : Int) = v) ∧
        (w.mnemonic = .jp → w.operands.map Token.word = [.name name] →
          ∃ nn, a.instruction = .jump none nn ∧ (nn.toNat : Int) = v)) ∧
      (0 ≤ v ∧ v ≤ 0xFFFF → base.toNat + p.image.length + 3 ≤ 0x10000 →
        (stepsHL name = false →
          ∃ q, assemble (source ++ "\n" ++ ("LD A, (" ++ name ++ ")")) base = .ok q ∧
            q.instructions = p.instructions
              ++ [⟨UInt16.ofNat (base.toNat + p.image.length), .loadAt (UInt16.ofInt v)⟩]) ∧
        (sameLetters name "EQU" = false →
          ∃ q, assemble (source ++ "\n" ++ ("JP " ++ name)) base = .ok q ∧
            q.instructions = p.instructions
              ++ [⟨UInt16.ofNat (base.toNat + p.image.length), .jump none (UInt16.ofInt v)⟩])) := by
  have hname := isNamed_layout source base name x hbound hglobal
  refine ⟨fun t ht hsteps => ht.looksUp hname hsteps _, fun t ht => ht.shape_of_stepsHL hname, ?_⟩
  intro p v hp hv
  refine ⟨?_, fun hrange hroom => ⟨fun hsteps => ?_, fun hequ => ?_⟩⟩
  · obtain ⟨l, hl, hresolve, hsymbols⟩ := assemble_eq_ok_iff.1 hp
    rw [hsymbols] at hv
    rintro w a hmem
    rw [show Written.ofSource source = l.pending.toList.map Pending.written from
      (Layout.written_keepGoing hl).symm, List.zip_map_left] at hmem
    obtain ⟨⟨q, b⟩, hqb, heq⟩ := List.mem_map.1 hmem
    cases heq
    obtain ⟨hbuild, -⟩ := Pending.resolve_eq_ok (List.forall₂_zip hresolve hqb)
    constructor
    · intro hmnemonic hoperands hsteps
      exact Pending.loadAt_of_build hname hsteps hv hbuild hmnemonic hoperands
    · intro hmnemonic hoperands
      exact Pending.jump_of_build hname hv hbuild hmnemonic hoperands
  · exact exists_assemble_load hname hsteps hp hv hrange hroom
  · exact exists_assemble_jump hname hequ hp hv hrange hroom

/-- A constant and a label in a program that loads from the one and jumps to the other, and one more
load and jump below it.  The constant is named like a condition, the label like a mnemonic. -/
theorem symbol_found_by_name_below :
    let source := "NZ EQU 0xC000\nld: LD A, (NZ)"
    (∃ q, assemble (source ++ "\n" ++ ("LD A, (" ++ "NZ" ++ ")")) 0x150 = .ok q ∧
      q.instructions = [⟨0x150, .loadAt 0xC000⟩, ⟨0x153, .loadAt 0xC000⟩]) ∧
    ∃ q, assemble (source ++ "\n" ++ ("JP " ++ "ld")) 0x150 = .ok q ∧
      q.instructions = [⟨0x150, .loadAt 0xC000⟩, ⟨0x153, .jump none 0x150⟩] := by
  intro source
  have hbound (name : String) (h : name = "NZ" ∨ name = "ld") :
      ∃ x, ((Layout.start 0x150).keepGoing (Line.ofSource source)).1.symbols[name]? = some x ∧
        (x.kind = .constant ∨ x.token.kind = .globalLabel) := by
    have hany : (((Layout.start 0x150).keepGoing (Line.ofSource source)).1.symbols[name]?.any
        fun x => x.kind = .constant ∨ x.token.kind = .globalLabel) = true := by
      rcases h with rfl | rfl <;> decide +kernel
    cases hx : ((Layout.start 0x150).keepGoing (Line.ofSource source)).1.symbols[name]? with
    | none => rw [hx] at hany; cases hany
    | some x =>
        rw [hx] at hany
        exact ⟨x, rfl, of_decide_eq_true hany⟩
  have hrun : (assemble source 0x150).toOption.map (fun p => (p.instructions,
        p.symbols.value? "NZ", p.symbols.value? "ld"))
      = some ([⟨0x150, .loadAt 0xC000⟩], some 0xC000, some 0x150) := by decide +kernel
  cases hp : assemble source 0x150 with
  | error e => rw [hp] at hrun; cases hrun
  | ok p =>
      rw [hp] at hrun
      obtain ⟨hinstructions, hvalues⟩ := Prod.mk.inj (Option.some.inj hrun)
      obtain ⟨hnz, hld⟩ := Prod.mk.inj hvalues
      have himage : p.image.length = 3 := by
        rw [Program.image, hinstructions]
        rfl
      have hroom : (0x150 : UInt16).toNat + p.image.length + 3 ≤ 0x10000 := by
        rw [himage]
        decide
      constructor
      · obtain ⟨x, hx, hglobal⟩ := hbound "NZ" (Or.inl rfl)
        have hfound := (symbol_found_by_name hx hglobal).2.2 p _ hp hnz
        obtain ⟨q, hq, hload⟩ := (hfound.2 (by decide) hroom).1 (by decide)
        refine ⟨q, hq, ?_⟩
        rw [hload, hinstructions, himage]
        rfl
      · obtain ⟨x, hx, hglobal⟩ := hbound "ld" (Or.inr rfl)
        have hfound := (symbol_found_by_name hx hglobal).2.2 p _ hp hld
        obtain ⟨q, hq, hjump⟩ := (hfound.2 (by decide) hroom).2 (by decide)
        refine ⟨q, hq, ?_⟩
        rw [hjump, hinstructions, himage]
        rfl

/-- **Not every symbol is found by its name.**  The first pass binds HLI, but in brackets it is read as
HL with a step.  It binds EQU, but behind JP the line is read as a constant without a value. -/
theorem symbol_hidden_by_its_name :
    (∃ p, assemble "HLI EQU 0x1234\nLD A, (HLI)" 0 = .ok p ∧
      p.symbols.value? "HLI" = some 0x1234 ∧ p.instructions = [⟨0, .loadVia .hlInc⟩]) ∧
    ((Layout.start 0).keepGoing (Line.ofSource "EQU: JP EQU")).1.symbols.value? "EQU" = some 0 ∧
      ∃ e, assemble "EQU: JP EQU" 0 = .error e := by
  have hpointer : (assemble "HLI EQU 0x1234\nLD A, (HLI)" 0).toOption.map
      (fun p => (p.symbols.value? "HLI", p.instructions))
      = some (some 0x1234, [⟨0, .loadVia .hlInc⟩]) := by decide +kernel
  have hconstant : (assemble "EQU: JP EQU" 0).toOption.isNone = true := by decide +kernel
  refine ⟨?_, by decide +kernel, ?_⟩
  · cases hp : assemble "HLI EQU 0x1234\nLD A, (HLI)" 0 with
    | error e => rw [hp] at hpointer; cases hpointer
    | ok p =>
        rw [hp] at hpointer
        obtain ⟨hvalue, hinstructions⟩ := Prod.mk.inj (Option.some.inj hpointer)
        exact ⟨p, rfl, hvalue, hinstructions⟩
  · cases hp : assemble "EQU: JP EQU" 0 with
    | error e => exact ⟨e, rfl⟩
    | ok p => rw [hp] at hconstant; cases hconstant

end GameBoyAssembler
