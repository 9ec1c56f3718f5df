import GameBoyAssembler.Proofs.Bindings
import GameBoyAssembler.Proofs.Names
import GameBoyAssembler.Proofs.NumberWindows

/-!
# Scopes

A local label is bound under the name of the global label above it, a dot, and its own name.  No name
that is written has a dot in it.  So the last dot of a key tells where the scope ends, a local label is
never taken for a global one, and the same local name may be used below every global label.

Main definitions:

* `Token.IsCalled` — the name of a token, as it is written;
* `Line.headed` — the lines of a source, each with the global label in force;
* `Layout.IsScoped` — a layout in which every key is a name or a local name in a bound scope;
* `IsLocalTarget` — the label that a local name stands for below a global label.

Main results:

* `Cursor.exists_isCalled` — every label and every name that is read has a name;
* `Token.IsCalled.key_eq_iff` — **which tokens have the same key**;
* `Context.readsLabel_select` — a local label among the operands is read as a number;
* `Layout.isScoped_keepGoing` — all lines keep the layout scoped, errors or not;
* `scoped_names_never_collide` — **local names never leave their scope**.
-/

set_option relaxedAutoImplicit false
set_option autoImplicit false

namespace GameBoyAssembler

/-! ### The name of a token -/

/-- A run of letters, digits and underscores, as it stands behind the dot of a local label. -/
def IsLocalName (name : String) : Prop :=
  name.toList ≠ [] ∧ ∀ c ∈ name.toList, isNameChar c = true

/-- The name that a token defines or refers to, without the dot and the colon of a label and without
brackets. -/
inductive Token.IsCalled (t : Token) (name : String) : Prop
  | localLabel {colon : List Char} (hkind : t.kind = .localLabel) (hname : IsLocalName name)
      (hcolon : colon = [] ∨ colon = [':']) (htext : t.text.toList = '.' :: (name.toList ++ colon))
  | globalLabel (hkind : t.kind = .globalLabel) (hname : IsPlainName name)
      (htext : t.text.toList = name.toList ++ [':'])
  | plain (hkind : t.kind = .identifier) (hname : IsPlainName name) (htext : t.text = name)
  | bracketed (hkind : t.kind = .identifier)
      (hname : ∀ c ∈ name.toList, isBracketedChar c = true)
      (htext : InBrackets name.toList t.text.toList)

section Lexemes

variable {c : Char} {cs : List Char}

/-- Only a dot starts a local label. -/
theorem eq_dot_of_localLabel (h : (lexeme (c :: cs)).outcome = .ok .localLabel) : c = '.' := by
  by_contra hdot
  by_cases hopening : isOpening c = true
  · rw [lexeme_of_isOpening hopening] at h
    rcases (bracketLexeme_inBrackets hopening h).1 with hkind | hkind <;> cases hkind
  · by_cases hstart : isNameStart c = true
    · rw [lexeme_of_isNameStart _ hstart] at h
      rcases nameLexeme_cases (runLength isNameChar (c :: cs)) (c :: cs) with
        hname | ⟨hname, -⟩ | hname <;> rw [hname] at h <;> cases h
    · have hbracket : (decide (c = '(') || decide (c = '[')) = false := Bool.eq_false_iff.2 hopening
      simp only [lexeme, hbracket, hdot, hstart] at h
      grind

/-- A local label is a dot and a name, perhaps with a colon. -/
theorem exists_localName_of_localLabel (h : (lexeme cs).outcome = .ok .localLabel) :
    ∃ name colon, IsLocalName name ∧ (colon = [] ∨ colon = [':']) ∧
      cs.take (lexeme cs).length = '.' :: (name.toList ++ colon) := by
  cases cs with
  | nil => cases h
  | cons c cs =>
      obtain rfl := eq_dot_of_localLabel h
      have hlexeme : lexeme ('.' :: cs) =
          if runLength isNameChar cs = 0 then ⟨.error (.noLabelName cs.head?), 1⟩
          else if (cs.drop (runLength isNameChar cs)).head? = some ':' then
            ⟨.ok .localLabel, runLength isNameChar cs + 2⟩
          else ⟨.ok .localLabel, runLength isNameChar cs + 1⟩ := rfl
      have hrun (hn : runLength isNameChar cs ≠ 0) :
          IsLocalName (.ofList (cs.take (runLength isNameChar cs))) := by
        rw [IsLocalName, String.toList_ofList, take_runLength]
        exact ⟨List.ne_nil_of_length_pos (Nat.pos_of_ne_zero hn), List.all_eq_true.1 List.all_takeWhile⟩
      rw [hlexeme] at h ⊢
      split at h
      · cases h
      · rename_i hn
        rw [if_neg hn]
        split
        · rename_i hcolon
          refine ⟨_, [':'], hrun hn, Or.inr rfl, ?_⟩
          obtain ⟨rest, hrest⟩ := List.head?_eq_some_iff.1 hcolon
          rw [String.toList_ofList, List.take_succ_cons, List.take_add, hrest]
          rfl
        · refine ⟨_, [], hrun hn, Or.inl rfl, ?_⟩
          rw [String.toList_ofList, List.append_nil]
          rfl

/-- A name in brackets is made of the characters that may stand there. -/
theorem exists_bracketedName (hc : isOpening c = true)
    (h : (lexeme (c :: cs)).outcome = .ok .identifier) :
    ∃ name : String, (∀ d ∈ name.toList, isBracketedChar d = true) ∧
      InBrackets name.toList ((c :: cs).take (lexeme (c :: cs)).length) := by
  rw [lexeme_of_isOpening hc] at h ⊢
  cases cs with
  | nil => cases h
  | cons d cs =>
      cases hstart : isNameStart d with
      | true =>
          rw [(BracketContent.name hstart).bracketLexeme_eq] at h ⊢
          unfold closedLexeme at h ⊢
          split at h
          · rename_i hclosed
            rw [if_pos hclosed]
            refine ⟨.ofList ((d :: cs).take (runLength isBracketedChar (d :: cs))), ?_, ?_⟩
            · rw [String.toList_ofList, take_runLength]
              exact List.all_eq_true.1 List.all_takeWhile
            · rw [String.toList_ofList]
              exact inBrackets_take hc hclosed
          · cases h
      | false =>
          cases hdigit : d.isDigit with
          | true =>
              rw [(BracketContent.number hdigit).bracketLexeme_eq] at h
              unfold closedLexeme at h
              split at h <;> cases h
          | false =>
              have hnone : bracketLexeme c (d :: cs) = ⟨.error (.badBracketContent c (some d)), 1⟩ :=
                bracketLexeme_of_no_content c ⟨hstart, hdigit⟩
              rw [hnone] at h
              cases h

end Lexemes

/-- **Every name and every label that is read has a name.** -/
theorem Cursor.exists_isCalled {c : Cursor} {t : Token} (h : c.next.1 = .ok t)
    (hkind : t.kind = .identifier ∨ t.kind = .globalLabel ∨ t.kind = .localLabel) :
    ∃ name, t.IsCalled name := by
  have hnamed := isNamed_of_next h
  by_cases hfeed : c.skipBlanks.rest.head? = some '\n'
  · rw [next_of_lineFeed hfeed] at h
    obtain ⟨hbreak, -⟩ := Token.eq_of_ofText h
    rw [hbreak] at hkind
    split at hkind <;> simp at hkind
  rw [next_of_word hfeed] at h
  cases hl : (lexeme c.skipBlanks.rest).outcome with
  | error cause =>
      rw [word_of_fault hl] at h
      cases h
  | ok kind =>
      by_cases hinvalid : kind = .invalid
      · subst hinvalid
        rw [word_of_stray hl] at h
        cases h
      · rw [word_of_ok hl hinvalid] at h
        obtain ⟨rfl, htext⟩ := Token.eq_of_ofText h
        have hchars : t.text.toList
            = c.skipBlanks.rest.take (lexeme c.skipBlanks.rest).length := by
          rw [htext, String.toList_ofList]
        generalize c.skipBlanks.rest = cs at hl hchars
        rcases hkind with hkind | hkind | hkind
        · rw [hkind] at hl
          cases hbracket : t.isBracketed with
          | false => exact ⟨t.text, .plain hkind (hnamed.identifier hkind hbracket) rfl⟩
          | true =>
              cases cs with
              | nil => cases hl
              | cons d cs =>
                  obtain ⟨n, hn⟩ := Nat.exists_eq_succ_of_ne_zero
                    (Nat.ne_of_gt (length_lexeme_pos (List.cons_ne_nil d cs)))
                  have hd : isOpening d = true := by
                    rw [Token.isBracketed, hchars, hn, List.take_succ_cons] at hbracket
                    exact hbracket
                  obtain ⟨name, hname, hin⟩ := exists_bracketedName hd hl
                  rw [← hchars] at hin
                  exact ⟨name, .bracketed hkind hname hin⟩
        · obtain ⟨name, hname, hglobal⟩ := hnamed.globalLabel hkind
          exact ⟨name, .globalLabel hkind hname hglobal⟩
        · rw [hkind] at hl
          obtain ⟨name, colon, hname, hcolon, hlocal⟩ := exists_localName_of_localLabel hl
          exact ⟨name, .localLabel hkind hname hcolon (hchars.trans hlocal)⟩

theorem Line.exists_isCalled {source : String} {l : Line} (hl : l ∈ ofSource source) {t : Token}
    (ht : .ok t ∈ l.items)
    (hkind : t.kind = .identifier ∨ t.kind = .globalLabel ∨ t.kind = .localLabel) :
    ∃ name, t.IsCalled name := by
  obtain ⟨hmem, -⟩ := mem_of_mem_ofItems hl ht
  obtain ⟨c, -, hc⟩ := Cursor.exists_next_of_mem (I := fun _ => True) (fun _ _ => trivial) trivial hmem
  exact Cursor.exists_isCalled hc hkind

/-! ### Keys -/

/-- The key of a local name in a scope. -/
def scopedKey (scope name : String) : String :=
  scope ++ "." ++ name

theorem toList_scopedKey (scope name : String) :
    (scopedKey scope name).toList = scope.toList ++ '.' :: name.toList := by
  simp [scopedKey]

/-- The last dot of a key tells where its scope ends. -/
theorem scopedKey_inj {scope scope' name name' : String} (hname : '.' ∉ name.toList)
    (hname' : '.' ∉ name'.toList) :
    scopedKey scope name = scopedKey scope' name' ↔ scope = scope' ∧ name = name' := by
  constructor
  · intro h
    have hlist := congrArg String.toList h
    rw [toList_scopedKey, toList_scopedKey] at hlist
    -- one of the scopes goes on behind the other, and then there is a dot in a name
    have hcut {bs ns ms : List Char} (hns : '.' ∉ ns) (hbs : bs ++ '.' :: ms = '.' :: ns) :
        bs = [] := by
      cases bs with
      | nil => rfl
      | cons b bs =>
          obtain ⟨-, hrest⟩ := List.cons.inj hbs
          exact absurd (hrest ▸ by simp) hns
    rcases List.append_eq_append_iff.1 hlist with ⟨bs, hscope, hrest⟩ | ⟨bs, hscope, hrest⟩
    · obtain rfl := hcut hname hrest.symm
      rw [List.append_nil] at hscope
      exact ⟨String.toList_inj.1 hscope.symm, String.toList_inj.1 (List.cons.inj hrest).2⟩
    · obtain rfl := hcut hname' hrest.symm
      rw [List.append_nil] at hscope
      exact ⟨String.toList_inj.1 hscope, String.toList_inj.1 (List.cons.inj hrest).2.symm⟩
  · rintro ⟨rfl, rfl⟩
    rfl

theorem IsLocalName.dot_notMem {name : String} (h : IsLocalName name) : '.' ∉ name.toList := by
  intro hdot
  cases h.2 '.' hdot

theorem IsPlainName.dot_notMem {name : String} (h : IsPlainName name) : '.' ∉ name.toList := by
  intro hdot
  cases h.chars '.' hdot

namespace Token.IsCalled

variable {t t' : Token} {name name' : String}

theorem dot_notMem (h : t.IsCalled name) : '.' ∉ name.toList := by
  cases h with
  | localLabel _ hname _ _ => exact hname.dot_notMem
  | globalLabel _ hname _ => exact hname.dot_notMem
  | plain _ hname _ => exact hname.dot_notMem
  | bracketed _ hname _ =>
      intro hdot
      cases hname '.' hdot

/-- A local label has the key of its name in the scope. -/
theorem symbolKey_local (h : t.IsCalled name) (hkind : t.kind = .localLabel) (scope : String) :
    symbolKey (some scope) t = .ok (scopedKey scope name) := by
  cases h with
  | localLabel _ hname hcolon htext =>
      have hword : withoutColons t.text = "." ++ name := by
        refine withoutColons_of_chars ?_ ?_ (htext.trans (by rw [String.toList_append]; rfl))
        · intro c hc
          rw [String.toList_append, List.mem_append] at hc
          rcases hc with hc | hc
          · obtain rfl : c = '.' := by simpa using hc
            decide
          · exact ne_of_class (hname.2 c hc) rfl
        · rcases hcolon with rfl | rfl <;> simp
      rw [symbolKey, hkind, hword]
      simp [scopedKey, String.append_assoc]
  | globalLabel h _ _ | plain h _ _ | bracketed h _ _ =>
      rw [h] at hkind
      cases hkind

theorem scope_of_symbolKey (h : t.IsCalled name) (hkind : t.kind = .localLabel)
    {scope : Option String} {key : String} (hkey : symbolKey scope t = .ok key) :
    ∃ g, scope = some g ∧ key = scopedKey g name := by
  cases scope with
  | none =>
      simp only [symbolKey, hkind] at hkey
      cases hkey
  | some g =>
      rw [h.symbolKey_local hkind] at hkey
      cases hkey
      exact ⟨g, rfl, rfl⟩

/-- Any other token has its name for a key. -/
theorem symbolKey_global (h : t.IsCalled name) (hkind : t.kind ≠ .localLabel)
    (scope : Option String) : symbolKey scope t = .ok name := by
  have hkey : symbolKey scope t = .ok (withoutColons t.unbracketed) := by
    unfold symbolKey
    split
    · contradiction
    · rfl
  rw [hkey]
  refine congrArg Except.ok ?_
  cases h with
  | localLabel h _ _ _ => exact absurd h hkind
  | globalLabel _ hname htext =>
      rw [Token.unbracketed, isBracketed_of_isPlainName hname htext]
      exact withoutColons_of_isPlainName hname (by simp) htext
  | plain _ hname htext =>
      rw [Token.unbracketed, isBracketed_of_text hname htext, htext]
      exact withoutColons_of_isPlainName hname (List.forall_mem_nil _) (List.append_nil _).symm
  | bracketed _ hname htext =>
      rw [Token.unbracketed, if_pos (isBracketed_of_inBrackets htext), withoutEnds?_inBrackets htext,
        Option.getD_some, String.ofList_toList]
      refine withoutColons_of_chars ?_ (List.forall_mem_nil _) (List.append_nil _).symm
      intro c hc
      exact ne_of_class (hname c hc) rfl

/-- **Two tokens have the same key** only if both are local, with the same name in the same scope, or
both are not local and have the same name. -/
theorem key_eq_iff (h : t.IsCalled name) (h' : t'.IsCalled name') {scope scope' : Option String}
    {key key' : String} (hkey : symbolKey scope t = .ok key) (hkey' : symbolKey scope' t' = .ok key') :
    key = key' ↔
      t.kind = .localLabel ∧ t'.kind = .localLabel ∧ scope = scope' ∧ name = name' ∨
        t.kind ≠ .localLabel ∧ t'.kind ≠ .localLabel ∧ name = name' := by
  have hne {g n m : String} (hm : '.' ∉ m.toList) : scopedKey g n ≠ m := by
    rintro rfl
    rw [toList_scopedKey] at hm
    simp at hm
  by_cases hkind : t.kind = .localLabel <;> by_cases hkind' : t'.kind = .localLabel
  · obtain ⟨g, rfl, rfl⟩ := h.scope_of_symbolKey hkind hkey
    obtain ⟨g', rfl, rfl⟩ := h'.scope_of_symbolKey hkind' hkey'
    rw [scopedKey_inj h.dot_notMem h'.dot_notMem]
    simp [hkind, hkind']
  · obtain ⟨g, rfl, rfl⟩ := h.scope_of_symbolKey hkind hkey
    rw [h'.symbolKey_global hkind'] at hkey'
    cases hkey'
    simp [hkind, hkind', hne h'.dot_notMem]
  · obtain ⟨g, rfl, rfl⟩ := h'.scope_of_symbolKey hkind' hkey'
    rw [h.symbolKey_global hkind] at hkey
    cases hkey
    simp [hkind, hkind', (hne h.dot_notMem).symm]
  · rw [h.symbolKey_global hkind] at hkey
    rw [h'.symbolKey_global hkind'] at hkey'
    cases hkey
    cases hkey'
    simp [hkind, hkind']

end Token.IsCalled

/-! ### Local labels as operands -/

theorem Token.shape_of_localLabel {t : Token} (h : t.kind = .localLabel) :
    t.shape = .ok .immediate := by
  rw [shape, h]

namespace Context

variable {c : Context} {t dst src name : Token} {tokens : List Token} {i : Instruction}

/-- If the operand is a local label then it can be read as a number. -/
def ReadsLabel (c : Context) (t : Token) : Prop :=
  t.kind = .localLabel → c.HasQuantity t

theorem HasQuantity.readsLabel (h : c.HasQuantity t) : c.ReadsLabel t :=
  fun _ => h

/-- A local label has the shape of a number. -/
theorem readsLabel_of_shape {shape : Shape} (h : t.shape = .ok shape) (hshape : shape ≠ .immediate) :
    c.ReadsLabel t := by
  intro hkind
  rw [Token.shape_of_localLabel hkind] at h
  exact absurd (Except.ok.inj h).symm hshape

theorem readsLabel_of_isComma (h : t.isComma = true) : c.ReadsLabel t := by
  intro hkind
  rw [Token.isComma, hkind] at h
  cases h

variable (c)

theorem readsLabel_expectA (t : Token) : Gives t.expectA fun _ => c.ReadsLabel t := by
  intro _ h
  exact readsLabel_of_shape (Token.expectA_eq_ok_iff.1 h) (by decide)

theorem readsLabel_reg8 (t : Token) : Gives t.reg8 fun _ => c.ReadsLabel t := by
  intro r h
  exact readsLabel_of_shape (Token.reg8_eq_ok_iff.1 h) (by simp)

theorem readsLabel_reg16 (t : Token) : Gives t.reg16 fun _ => c.ReadsLabel t := by
  intro rr h
  obtain ⟨shape, hshape, h⟩ := bind_eq_ok_iff.1 h
  refine readsLabel_of_shape hshape ?_
  rintro rfl
  cases h

theorem readsLabel_condition (t : Token) : Gives t.condition fun _ => c.ReadsLabel t := by
  intro cc h hkind
  simp only [Token.condition, hkind] at h
  cases h

theorem readsLabel_stackPair (t : Token) : Gives t.stackPair fun _ => c.ReadsLabel t := by
  intro q h hkind
  simp only [Token.stackPair, hkind] at h
  obtain ⟨shape, -, h⟩ := bind_eq_ok_iff.1 h
  cases h

theorem readsLabel_arithSource (op : Arith) (src : Token) :
    Gives (c.arithSource op src) fun _ => c.ReadsLabel src := by
  refine (Gives.self src.shape).bind fun shape hshape => ?_
  cases shape with
  | reg8 r => exact Gives.pure (readsLabel_of_shape hshape (by simp))
  | immediate => exact (hasQuantity_field _ _).bind fun _ h => Gives.pure h.readsLabel
  | _ => exact Gives.throw _

theorem readsLabel_arithTo (op : Arith) (dst src : Token) :
    Gives (c.arithTo op dst src) fun _ => c.ReadsLabel dst ∧ c.ReadsLabel src := by
  refine (Gives.self dst.shape).bind fun shape hdst => ?_
  split
  · exact (c.readsLabel_reg16 src).bind fun _ h =>
      Gives.pure ⟨readsLabel_of_shape hdst (by simp), h⟩
  · exact (hasQuantity_field _ _).bind fun _ h =>
      Gives.pure ⟨readsLabel_of_shape hdst (by simp), h.readsLabel⟩
  · refine (c.readsLabel_expectA dst).bind fun _ hA => ?_
    intro i hi
    exact ⟨hA, c.readsLabel_arithSource op src i hi⟩

theorem readsLabel_load (dst src : Token) :
    Gives (c.load dst src) fun _ => c.ReadsLabel dst ∧ c.ReadsLabel src := by
  refine (Gives.self dst.shape).bind fun shape hdst => ?_
  refine (Gives.self src.shape).bind fun shape' hsrc => ?_
  have hA := c.readsLabel_expectA
  have hother {t : Token} {s : Shape} (h : t.shape = .ok s) (hs : s ≠ .immediate) :
      c.ReadsLabel t := readsLabel_of_shape h hs
  split
  case h_1 | h_14 => exact Gives.throw _
  case h_2 | h_5 => exact Gives.pure ⟨hother hdst (by simp), hother hsrc (by simp)⟩
  case h_3 | h_4 | h_6 =>
    exact (hasQuantity_field _ _).bind fun _ h => Gives.pure ⟨hother hdst (by simp), h.readsLabel⟩
  case h_7 => exact Gives.bind_any fun _ => Gives.pure ⟨hother hdst (by simp), hother hsrc (by simp)⟩
  case h_8 | h_12 => exact (hA src).bind fun _ h => Gives.pure ⟨hother hdst (by simp), h⟩
  case h_9 | h_13 => exact (hA dst).bind fun _ h => Gives.pure ⟨h, hother hsrc (by simp)⟩
  case h_10 =>
    exact (hA src).bind fun _ h => Gives.bind_any fun _ => Gives.pure ⟨hother hdst (by simp), h⟩
  case h_11 =>
    exact (hA dst).bind fun _ h => Gives.bind_any fun _ => Gives.pure ⟨h, hother hsrc (by simp)⟩

theorem readsLabel_loadHighPage (dst src : Token) :
    Gives (c.loadHighPage dst src) fun _ => c.ReadsLabel dst ∧ c.ReadsLabel src := by
  refine (Gives.self dst.shape).bind fun shape hdst => ?_
  refine (Gives.self src.shape).bind fun shape' hsrc => ?_
  have hA := c.readsLabel_expectA
  split
  · exact (hA src).bind fun _ h => Gives.pure ⟨readsLabel_of_shape hdst (by simp), h⟩
  · exact (hA dst).bind fun _ h => Gives.pure ⟨h, readsLabel_of_shape hsrc (by simp)⟩
  · exact (hA src).bind fun _ h => Gives.bind_any fun _ =>
      Gives.pure ⟨readsLabel_of_shape hdst (by simp), h⟩
  · exact (hA dst).bind fun _ h => Gives.bind_any fun _ =>
      Gives.pure ⟨h, readsLabel_of_shape hsrc (by simp)⟩
  · exact Gives.throw _

theorem readsLabel_loadStep (p : Pointer) (dst src : Token) :
    Gives (loadStep p dst src) fun _ => c.ReadsLabel dst ∧ c.ReadsLabel src := by
  refine (Gives.self dst.shape).bind fun shape hdst => ?_
  refine (Gives.self src.shape).bind fun shape' hsrc => ?_
  have hA := c.readsLabel_expectA
  split
  · exact (hA src).bind fun _ h => Gives.pure ⟨readsLabel_of_shape hdst (by simp), h⟩
  · exact (hA dst).bind fun _ h => Gives.pure ⟨h, readsLabel_of_shape hsrc (by simp)⟩
  · exact Gives.throw _

theorem readsLabel_step (byte : Reg8 → Instruction) (pair : Reg16 → Instruction) (t : Token) :
    Gives (step byte pair t) fun _ => c.ReadsLabel t := by
  refine (Gives.self t.shape).bind fun shape hshape => ?_
  cases shape with
  | reg8 r => exact Gives.pure (readsLabel_of_shape hshape (by simp))
  | reg16 rr => exact Gives.pure (readsLabel_of_shape hshape (by simp))
  | _ => exact Gives.throw _

theorem readsLabel_jumpTo (cc : Option Condition) (t : Token) :
    Gives (c.jumpTo cc t) fun _ => c.ReadsLabel t := by
  refine (Gives.self t.shape).bind fun shape hshape => ?_
  split
  case h_1 | h_2 => exact Gives.pure (readsLabel_of_shape hshape (by simp))
  case h_3 => exact (hasQuantity_field _ _).bind fun _ h => Gives.pure h.readsLabel

variable {c}

/-- What holds of the operand holds of all tokens. -/
theorem readsLabel_of_one (h : takeOne name tokens = .ok (t, [])) (ht : c.ReadsLabel t) :
    ∀ u ∈ tokens, c.ReadsLabel u := by
  rw [eq_of_takeOne h]
  exact List.forall_mem_singleton.2 ht

theorem readsLabel_of_two (h : takeTwo name tokens = .ok (dst, src, []))
    (hboth : c.ReadsLabel dst ∧ c.ReadsLabel src) : ∀ u ∈ tokens, c.ReadsLabel u := by
  obtain ⟨comma, hcomma, rfl⟩ := eq_of_takeTwo h
  simp [hboth, readsLabel_of_isComma hcomma]

theorem readsLabel_of_branch {cc : Option Condition} (h : takeBranch name tokens = .ok (cc, t, []))
    (ht : c.ReadsLabel t) : ∀ u ∈ tokens, c.ReadsLabel u := by
  rcases eq_of_takeBranch h with ⟨-, rfl⟩ | ⟨first, comma, cond, hcond, hcomma, -, rfl⟩
  · exact List.forall_mem_singleton.2 ht
  · simp [ht, c.readsLabel_condition first cond hcond, readsLabel_of_isComma hcomma]

/-- **A local label among the operands is read as a number.** -/
theorem readsLabel_select {m : Mnemonic} (hselect : c.select m name tokens = .ok i) :
    ∀ t ∈ tokens, c.ReadsLabel t := by
  have h := selectFront_of_select hselect
  cases m with
  | implied op =>
      cases h
      exact List.forall_mem_nil _
  | arith op =>
      simp only [selectFront] at h
      split at h
      · obtain ⟨⟨dst, src, rest⟩, htake, h⟩ := bind_eq_ok_iff.1 h
        obtain ⟨j, hj, h⟩ := bind_eq_ok_iff.1 h
        cases h
        exact readsLabel_of_two htake (c.readsLabel_arithTo op dst src i hj)
      · obtain ⟨⟨src, rest⟩, htake, h⟩ := bind_eq_ok_iff.1 h
        obtain ⟨j, hj, h⟩ := bind_eq_ok_iff.1 h
        cases h
        exact readsLabel_of_one htake (c.readsLabel_arithSource op src i hj)
  | inc | dec =>
      obtain ⟨⟨t, rest⟩, htake, h⟩ := bind_eq_ok_iff.1 h
      obtain ⟨j, hj, h⟩ := bind_eq_ok_iff.1 h
      cases h
      exact readsLabel_of_one htake (c.readsLabel_step _ _ t i hj)
  | bit op =>
      obtain ⟨⟨index, reg, rest⟩, htake, h⟩ := bind_eq_ok_iff.1 h
      obtain ⟨r, hr, h⟩ := bind_eq_ok_iff.1 h
      obtain ⟨b, hb, h⟩ := bind_eq_ok_iff.1 h
      cases h
      exact readsLabel_of_two htake
        ⟨(hasQuantity_field _ _ b hb).readsLabel, c.readsLabel_reg8 reg r hr⟩
  | rotate op =>
      obtain ⟨⟨t, rest⟩, htake, h⟩ := bind_eq_ok_iff.1 h
      obtain ⟨r, hr, h⟩ := bind_eq_ok_iff.1 h
      cases h
      exact readsLabel_of_one htake (c.readsLabel_reg8 t r hr)
  | push | pop =>
      obtain ⟨⟨t, rest⟩, htake, h⟩ := bind_eq_ok_iff.1 h
      obtain ⟨q, hq, h⟩ := bind_eq_ok_iff.1 h
      cases h
      exact readsLabel_of_one htake (c.readsLabel_stackPair t q hq)
  | rst =>
      obtain ⟨⟨t, rest⟩, htake, h⟩ := bind_eq_ok_iff.1 h
      obtain ⟨v, hv, h⟩ := bind_eq_ok_iff.1 h
      cases h
      exact readsLabel_of_one htake (hasQuantity_checked _ v hv).readsLabel
  | ret =>
      cases tokens with
      | nil => exact List.forall_mem_nil _
      | cons t rest =>
          obtain ⟨cc, hcc, h⟩ := bind_eq_ok_iff.1 h
          cases h
          exact List.forall_mem_singleton.2 (c.readsLabel_condition t cc hcc)
  | jp =>
      obtain ⟨⟨cc, target, rest⟩, htake, h⟩ := bind_eq_ok_iff.1 h
      obtain ⟨j, hj, h⟩ := bind_eq_ok_iff.1 h
      cases h
      exact readsLabel_of_branch htake (c.readsLabel_jumpTo cc target i hj)
  | jr =>
      obtain ⟨⟨cc, target, rest⟩, htake, h⟩ := bind_eq_ok_iff.1 h
      obtain ⟨d, hd, h⟩ := bind_eq_ok_iff.1 h
      cases h
      exact readsLabel_of_branch htake (hasQuantity_displacement d hd).readsLabel
  | call =>
      obtain ⟨⟨cc, target, rest⟩, htake, h⟩ := bind_eq_ok_iff.1 h
      obtain ⟨nn, hnn, h⟩ := bind_eq_ok_iff.1 h
      cases h
      exact readsLabel_of_branch htake (hasQuantity_field _ _ nn hnn).readsLabel
  | ld =>
      obtain ⟨⟨dst, src, rest⟩, htake, h⟩ := bind_eq_ok_iff.1 h
      obtain ⟨j, hj, h⟩ := bind_eq_ok_iff.1 h
      cases h
      exact readsLabel_of_two htake (c.readsLabel_load dst src i hj)
  | ldh =>
      obtain ⟨⟨dst, src, rest⟩, htake, h⟩ := bind_eq_ok_iff.1 h
      obtain ⟨j, hj, h⟩ := bind_eq_ok_iff.1 h
      cases h
      exact readsLabel_of_two htake (c.readsLabel_loadHighPage dst src i hj)
  | ldi | ldd =>
      obtain ⟨⟨dst, src, rest⟩, htake, h⟩ := bind_eq_ok_iff.1 h
      obtain ⟨j, hj, h⟩ := bind_eq_ok_iff.1 h
      cases h
      exact readsLabel_of_two htake (c.readsLabel_loadStep _ dst src i hj)

end Context

/-! ### Lines below a global label -/

/-- The scope that a global label opens. -/
def Token.scopeName (t : Token) : String :=
  withoutColons t.text

/-- The global label in force behind the label of a line. -/
def headingBehind (g : Option Token) : Option Token → Option Token
  | none => g
  | some t => if t.opensScope then some t else g

/-- Each line with the global label that is in force behind its own label. -/
def Line.headed (g : Option Token) : List Line → List (Line × Option Token)
  | [] => []
  | line :: lines =>
      (line, headingBehind g line.statement.label)
        :: headed (headingBehind g line.statement.label) lines

theorem Line.fst_mem_of_mem_headed {g : Option Token} {lines : List Line} {p : Line × Option Token}
    (h : p ∈ headed g lines) : p.1 ∈ lines := by
  induction lines generalizing g with
  | nil => cases h
  | cons line lines ih =>
      rcases List.mem_cons.1 h with rfl | h
      · exact List.mem_cons_self
      · exact List.mem_cons_of_mem _ (ih h)

theorem scopeBehind_scopeName (g label : Option Token) :
    Layout.scopeBehind (g.map Token.scopeName) label
      = (headingBehind g label).map Token.scopeName := by
  cases label with
  | none => rfl
  | some t =>
      simp only [Layout.scopeBehind, headingBehind]
      split <;> rfl

/-- A heading is in force from the start, or it is the label of one of the lines. -/
theorem Line.heading_of_mem {g : Option Token} {lines : List Line} {p : Line × Option Token} {t : Token}
    (hp : p ∈ headed g lines) (ht : p.2 = some t) :
    g = some t ∨ ∃ line, (line, some t) ∈ headed g lines ∧ line.statement.label = some t ∧
      t.opensScope = true := by
  induction lines generalizing g with
  | nil => cases hp
  | cons line lines ih =>
      -- what is in force behind the first line stood before it, or is its own label
      have hfirst (hg : headingBehind g line.statement.label = some t) : g = some t ∨
          ∃ line', (line', some t) ∈ headed g (line :: lines) ∧ line'.statement.label = some t ∧
            t.opensScope = true := by
        rw [headed, hg]
        cases hlabel : line.statement.label with
        | none =>
            rw [hlabel] at hg
            exact Or.inl hg
        | some u =>
            rw [hlabel, headingBehind] at hg
            split at hg
            · rename_i hopens
              cases hg
              exact Or.inr ⟨line, List.mem_cons_self, hlabel, hopens⟩
            · exact Or.inl hg
      rcases List.mem_cons.1 hp with rfl | hp
      · exact hfirst ht
      · rcases ih hp with hg | ⟨line', hline', hlabel⟩
        · exact hfirst hg
        · exact Or.inr ⟨line', List.mem_cons_of_mem _ hline', hlabel⟩

/-- A global label is called by the scope that it opens. -/
theorem Token.IsCalled.scopeName_eq {t : Token} {name : String} (h : t.IsCalled name)
    (hkind : t.kind = .globalLabel) : t.scopeName = name ∧ IsPlainName name := by
  cases h with
  | globalLabel _ hname htext => exact ⟨withoutColons_of_isPlainName hname (by simp) htext, hname⟩
  | localLabel h _ _ _ | plain h _ _ | bracketed h _ _ =>
      rw [h] at hkind
      cases hkind

theorem Token.opensScope_iff {t : Token} :
    t.opensScope = true ↔ t.kind = .globalLabel ∧ isRegisterName t.scopeName = false := by
  simp [opensScope, scopeName]

/-- All names and labels on the line have names. -/
def Line.IsCalled (line : Line) : Prop :=
  ∀ t, .ok t ∈ line.items → t.kind = .identifier ∨ t.kind = .globalLabel ∨ t.kind = .localLabel →
    ∃ name, t.IsCalled name

theorem Line.isCalled_label {line : Line} (h : line.IsCalled) {t : Token}
    (ht : line.statement.label = some t) :
    (t.kind = .globalLabel ∨ t.kind = .localLabel) ∧ ∃ name, t.IsCalled name := by
  obtain ⟨items, -, hlabel, -⟩ := line.exists_says
  have hkind : t.kind = .globalLabel ∨ t.kind = .localLabel := by
    simpa [Token.isLabel] using hlabel t ht
  exact ⟨hkind, h t (mem_items_of_label ht) (Or.inr hkind)⟩

/-! ### Layouts with scopes -/

/-- The symbol is a local label below a global one, and its key is its name in this scope. -/
structure IsLocalSymbol (lines : List (Line × Option Token)) (key : String) (x : Symbol) (g : Token) :
    Prop where
  label : x.kind = .label
  token : x.token.kind = .localLabel
  line : ∃ line, (line, some g) ∈ lines ∧ line.statement.label = some x.token
  name : ∃ name, x.token.IsCalled name ∧ key = scopedKey g.scopeName name

namespace Layout

/-- The scope is that of the global label in force, and all local labels are bound in the scopes of
such labels. -/
structure IsScoped (lines : List (Line × Option Token)) (g : Option Token) (l : Layout) : Prop where
  scope_eq : l.scope = g.map Token.scopeName
  heading : ∀ t ∈ g, IsSymbolName t.scopeName ∧ t.scopeName ∈ l.symbols
  symbols : ∀ (key : String) (x : Symbol), l.symbols[key]? = some x →
    x.kind = .constant ∨ x.token.kind = .globalLabel ∨
      ∃ g, IsLocalSymbol lines key x g ∧ IsSymbolName g.scopeName ∧ g.scopeName ∈ l.symbols

theorem isScoped_start (lines : List (Line × Option Token)) (base : UInt16) :
    (start base).IsScoped lines none where
  scope_eq := rfl
  heading := by
    intro t ht
    cases ht
  symbols := by
    intro key x hx
    rw [start, Std.TreeMap.getElem?_emptyc] at hx
    cases hx

section Scoped

variable {all : List (Line × Option Token)} {g : Option Token} {l : Layout} {line : Line}

/-- The name of the global label in force is bound behind a line. -/
theorem IsScoped.heading_add (h : l.IsScoped all g) (hcalled : line.IsCalled) {t : Token}
    (ht : t ∈ headingBehind g line.statement.label) :
    IsSymbolName t.scopeName ∧ t.scopeName ∈ (l.add line.statement).1.symbols := by
  have hold (ht : t ∈ g) : IsSymbolName t.scopeName ∧ t.scopeName ∈ (l.add line.statement).1.symbols :=
    ⟨(h.heading t ht).1, (l.grows_add line.statement).kept.mem (h.heading t ht).2⟩
  cases hlabel : line.statement.label with
  | none =>
      rw [hlabel] at ht
      exact hold ht
  | some u =>
      rw [hlabel, headingBehind] at ht
      split at ht
      · rename_i hopens
        obtain rfl : u = t := Option.some.inj ht
        obtain ⟨hkind, hname⟩ := Token.opensScope_iff.1 hopens
        obtain ⟨-, name, hu⟩ := Line.isCalled_label hcalled hlabel
        obtain ⟨hscope, hplain⟩ := hu.scopeName_eq hkind
        have hkey := hu.symbolKey_global (by simp [hkind]) (scopeBehind l.scope line.statement.label)
        rw [← hscope] at hplain hkey
        exact ⟨⟨hplain, hname⟩, mem_of_opensScope hlabel hopens hkey⟩
      · exact hold ht

/-- **A line keeps the layout scoped**, whether it has an error or not. -/
theorem IsScoped.add (h : l.IsScoped all g) (hcalled : line.IsCalled)
    (hmem : (line, headingBehind g line.statement.label) ∈ all) :
    (l.add line.statement).1.IsScoped all (headingBehind g line.statement.label) := by
  have hgrows := l.grows_add line.statement
  have hscope : scopeBehind l.scope line.statement.label
      = (headingBehind g line.statement.label).map Token.scopeName := by
    rw [h.scope_eq, scopeBehind_scopeName]
  refine ⟨(l.scope_add line.statement).trans hscope, fun t ht => h.heading_add hcalled ht, ?_⟩
  intro key x hx
  rcases hgrows.added key x hx with hold | hnew
  · rcases h.symbols key x hold with hconst | hglobal | ⟨g', hlocal, hname, hbound⟩
    · exact Or.inl hconst
    · exact Or.inr (Or.inl hglobal)
    · exact Or.inr (Or.inr ⟨g', hlocal, hname, hgrows.kept.mem hbound⟩)
  · cases hnew with
    | constant _ _ => exact Or.inl rfl
    | @label t key ht hopens hkey =>
        obtain ⟨hkind, name, ht'⟩ := Line.isCalled_label hcalled ht
        rcases hkind with hkind | hkind
        · exact Or.inr (Or.inl hkind)
        · rw [hscope] at hkey
          obtain ⟨_, hmap, rfl⟩ := ht'.scope_of_symbolKey hkind hkey
          obtain ⟨g', hg', rfl⟩ := Option.map_eq_some_iff.1 hmap
          obtain ⟨hname, hbound⟩ := h.heading_add hcalled hg'
          rw [hg'] at hmem
          exact Or.inr (Or.inr ⟨g', ⟨rfl, hkind, ⟨line, hmem, ht⟩, name, ht', rfl⟩, hname, hbound⟩)

theorem IsScoped.keepGoing (h : l.IsScoped all g) {lines : List Line}
    (hcalled : ∀ line ∈ lines, line.IsCalled) (hsub : Line.headed g lines ⊆ all) :
    ∃ g', (l.keepGoing lines).1.IsScoped all g' := by
  induction lines generalizing l g with
  | nil => exact ⟨g, h⟩
  | cons line lines ih =>
      obtain ⟨hline, hlines⟩ := List.forall_mem_cons.1 hcalled
      obtain ⟨hmem, hsub⟩ := List.cons_subset.1 hsub
      exact ih (h.add hline hmem) hlines hsub

/-- **All lines keep the layout scoped**, with their errors. -/
theorem isScoped_keepGoing {lines : List Line} (base : UInt16)
    (hcalled : ∀ line ∈ lines, line.IsCalled) :
    ∃ g, ((start base).keepGoing lines).1.IsScoped (Line.headed none lines) g :=
  (isScoped_start _ base).keepGoing hcalled (List.Subset.refl _)

end Scoped

/-! ### Lines without errors -/

theorem extends_keepGoing (l : Layout) (lines : List Line) :
    l.symbols.Extends (l.keepGoing lines).1.symbols := by
  induction lines generalizing l with
  | nil => exact fun _ _ hx => hx
  | cons line lines ih => exact (l.grows_add line.statement).kept.trans (ih _)

variable {l l' : Layout} {g : Option Token} {lines : List Line} {p : Line × Option Token}

/-- Where a line stands in a run without errors. -/
theorem exists_add_of_mem_headed (h : l.keepGoing lines = (l', []))
    (hscope : l.scope = g.map Token.scopeName) (hp : p ∈ Line.headed g lines) :
    ∃ (l₀ l₁ : Layout) (rest : List Line), l₀.add p.1.statement = (l₁, none) ∧
      l₁.scope = p.2.map Token.scopeName ∧
      l₁.keepGoing rest = (l', []) := by
  induction lines generalizing l g with
  | nil => cases hp
  | cons line lines ih =>
      obtain ⟨l₁, hadd, hrest⟩ := keepGoing_cons_ok h
      have hscope₁ : l₁.scope = (headingBehind g line.statement.label).map Token.scopeName := by
        have hbehind := l.scope_add line.statement
        rwa [hadd, hscope, scopeBehind_scopeName] at hbehind
      rcases List.mem_cons.1 hp with rfl | hp
      · exact ⟨l, l₁, lines, hadd, hscope₁, hrest⟩
      · exact ih hrest hscope₁ hp

/-- The instruction of a line is laid out in the scope of the line. -/
theorem written_of_mem_headed (h : l.keepGoing lines = (l', []))
    (hscope : l.scope = g.map Token.scopeName) (hp : p ∈ Line.headed g lines) {mnemonic : Mnemonic}
    {name : Token} {operands : List Token}
    (hbody : p.1.statement.body = .ok (.instruction mnemonic name operands)) :
    ∃ q ∈ l'.pending.toList,
      q.written = ⟨mnemonic, name, operands, p.2.map Token.scopeName⟩ := by
  obtain ⟨l₀, l₁, rest, hadd, hscope₁, hrest⟩ := exists_add_of_mem_headed h hscope hp
  obtain ⟨qs, hqs, hwritten⟩ := (effect_add hadd).pending
  rw [hbody, hscope₁] at hwritten
  have hmem : (⟨mnemonic, name, operands, p.2.map Token.scopeName⟩ : Written)
      ∈ l'.pending.toList.map Pending.written := by
    rw [written_keepGoing hrest, hqs, List.map_append, hwritten]
    simp [Written.ofBody]
  exact List.mem_map.1 hmem

/-- The constant of a line is bound in the scope of the line. -/
theorem constant_of_mem_headed (h : l.keepGoing lines = (l', []))
    (hscope : l.scope = g.map Token.scopeName) (hp : p ∈ Line.headed g lines) {name : Token}
    {value : ConstantValue} {trailing : Option Error}
    (hbody : p.1.statement.body = .ok (.constant name value trailing)) :
    ∃ meaning, value.meaning (p.2.map Token.scopeName) = .ok meaning ∧
      l'.symbols[name.text]? = some ⟨.constant, meaning, name⟩ := by
  obtain ⟨l₀, l₁, rest, hadd, hscope₁, hrest⟩ := exists_add_of_mem_headed h hscope hp
  obtain ⟨meaning, hmeaning, hbound⟩ := constant_bound hadd hbody
  rw [hscope₁] at hmeaning
  have hkept := l₁.extends_keepGoing rest
  rw [hrest] at hkept
  exact ⟨meaning, hmeaning, hkept _ _ hbound⟩

/-- Every global label in force is bound to its own token: no other one has its name. -/
theorem heading_bound {base : UInt16} (h : (start base).keepGoing lines = (l', []))
    (hcalled : ∀ line ∈ lines, line.IsCalled) {line : Line} {t : Token}
    (hp : (line, some t) ∈ Line.headed none lines) :
    ∃ x, l'.symbols[t.scopeName]? = some x ∧ x.token = t := by
  rcases Line.heading_of_mem hp rfl with hnone | ⟨line', hline', hlabel, hopens⟩
  · cases hnone
  obtain ⟨l₀, l₁, rest, hadd, -, hrest⟩ := exists_add_of_mem_headed h rfl hline'
  obtain ⟨key, hkey, hbound, -⟩ := label_bound hadd hlabel
  obtain ⟨-, name, ht⟩ := Line.isCalled_label
    (hcalled line' (Line.fst_mem_of_mem_headed hline')) hlabel
  have hkind := (Token.opensScope_iff.1 hopens).1
  rw [ht.symbolKey_global (by simp [hkind]), ← (ht.scopeName_eq hkind).1] at hkey
  cases hkey
  have hkept := l₁.extends_keepGoing rest
  rw [hrest] at hkept
  exact ⟨_, hkept _ _ hbound, rfl⟩

/-- **A key in the scope of a global label is bound by a local label below it.** -/
theorem isLocalSymbol_of_scopedKey {base : UInt16} (h : (start base).keepGoing lines = (l', []))
    (hcalled : ∀ line ∈ lines, line.IsCalled)
    (hnamed : l'.symbols.IsNamed) {line : Line} {t : Token} (hp : (line, some t) ∈ Line.headed none lines)
    {name : String} (hname : '.' ∉ name.toList) {x : Symbol}
    (hx : l'.symbols[scopedKey t.scopeName name]? = some x) :
    IsLocalSymbol (Line.headed none lines) (scopedKey t.scopeName name) x t ∧
      x.token.IsCalled name := by
  obtain ⟨g, hscoped⟩ := isScoped_keepGoing base hcalled
  rw [h] at hscoped
  -- no constant and no global label has a dot in its key
  have hplain (hx' : x.kind = .constant ∨ x.token.kind = .globalLabel) : False := by
    have hdot := (hnamed _ x hx hx').1.dot_notMem
    rw [toList_scopedKey] at hdot
    simp at hdot
  rcases hscoped.symbols _ x hx with hconst | hglobal | ⟨t', hlocal, -, -⟩
  · exact (hplain (Or.inl hconst)).elim
  · exact (hplain (Or.inr hglobal)).elim
  · obtain ⟨name', hname', hkey⟩ := hlocal.name
    obtain ⟨hscope, rfl⟩ := (scopedKey_inj hname hname'.dot_notMem).1 hkey
    -- the two scopes have one name, and this name is bound to one token
    obtain ⟨line', hline', -⟩ := hlocal.line
    obtain ⟨y, hy, rfl⟩ := heading_bound h hcalled hp
    obtain ⟨y', hy', rfl⟩ := heading_bound h hcalled hline'
    rw [hscope, hy'] at hy
    cases hy
    exact ⟨hlocal, hname'⟩

end Layout

/-! ### Local labels of a program -/

/-- The token is a name or a label: it binds a symbol or refers to one. -/
def Token.NamesSymbol (t : Token) : Prop :=
  t.kind = .identifier ∨ t.kind = .globalLabel ∨ t.kind = .localLabel

/-- The label `d` is the local label that `t` means below the global label `g`: it has the same name and
heads a line below `g`. -/
structure IsLocalTarget (source : String) (g t d : Token) : Prop where
  kind : d.kind = .localLabel
  name : ∃ name, t.IsCalled name ∧ d.IsCalled name
  line : ∃ line, (line, some g) ∈ Line.headed none (Line.ofSource source) ∧
    line.statement.label = some d

section Program

variable {source : String} {base : UInt16} {line : Line} {g : Option Token} {t : Token}

theorem Line.isCalled_of_mem (h : line ∈ ofSource source) : line.IsCalled :=
  fun _ ht hkind => exists_isCalled h ht hkind

/-- What a local label refers to in a source without errors. -/
theorem isLocalTarget_of_key {l : Layout}
    (h : (Layout.start base).keepGoing (Line.ofSource source) = (l, []))
    (hp : (line, g) ∈ Line.headed none (Line.ofSource source)) (ht : .ok t ∈ line.items)
    (hkind : t.kind = .localLabel) {key : String}
    (hkey : symbolKey (g.map Token.scopeName) t = .ok key) :
    ∃ g', g = some g' ∧ symbolKey (some g'.scopeName) t = .ok key ∧
      ∀ x, l.symbols[key]? = some x → x.kind = .label ∧ IsLocalTarget source g' t x.token := by
  have hline := Line.fst_mem_of_mem_headed hp
  obtain ⟨name, hname⟩ := Line.exists_isCalled hline ht (Or.inr (Or.inr hkind))
  obtain ⟨_, hmap, rfl⟩ := hname.scope_of_symbolKey hkind hkey
  obtain ⟨g', rfl, rfl⟩ := Option.map_eq_some_iff.1 hmap
  refine ⟨g', rfl, hkey, ?_⟩
  intro x hx
  have hnamed := isNamed_layout source base
  rw [h] at hnamed
  obtain ⟨hlocal, hcalled⟩ := Layout.isLocalSymbol_of_scopedKey h
    (fun _ hline => Line.isCalled_of_mem hline) hnamed hp hname.dot_notMem hx
  exact ⟨hlocal.label, hlocal.token, ⟨name, hname, hcalled⟩, hlocal.line⟩

theorem exists_resolve_of_mem {table : SymbolTable} {qs : List Pending} {as : List Assembled}
    (h : List.Forall₂ (fun q a => q.resolve table = .ok a) qs as) {q : Pending} (hq : q ∈ qs) :
    ∃ a, q.resolve table = .ok a := by
  induction h with
  | nil => cases hq
  | cons hqa _ ih =>
      rcases List.mem_cons.1 hq with rfl | hq
      · exact ⟨_, hqa⟩
      · exact ih hq

variable {p : Program} (h : assemble source base = .ok p)
  (hp : (line, g) ∈ Line.headed none (Line.ofSource source)) (hkind : t.kind = .localLabel)

include h hp hkind

/-- **A local label among the operands of an instruction resolves below the same global label.** -/
theorem operand_resolves_in_scope {mnemonic : Mnemonic} {name : Token} {operands : List Token}
    (hbody : line.statement.body = .ok (.instruction mnemonic name operands)) (ht : t ∈ operands) :
    ∃ g' key v d, g = some g' ∧ symbolKey (some g'.scopeName) t = .ok key ∧
      p.symbols.resolve key t = .ok (v, d) ∧ IsLocalTarget source g' t d := by
  obtain ⟨l, hl, hresolve, hsymbols⟩ := assemble_eq_ok_iff.1 h
  have hitem : .ok t ∈ line.items := by
    rw [Line.items_of_instruction hbody]
    exact List.mem_map_of_mem (by simp [ht])
  obtain ⟨q, hq, hwritten⟩ := Layout.written_of_mem_headed hl rfl hp hbody
  obtain ⟨a, ha⟩ := exists_resolve_of_mem hresolve hq
  obtain ⟨hbuild, -⟩ := Pending.resolve_eq_ok ha
  have hoperands : q.operands = operands := congrArg Written.operands hwritten
  have hscope : q.scope = g.map Token.scopeName := congrArg Written.scope hwritten
  obtain ⟨r, hr⟩ := Context.readsLabel_select hbuild t (by rwa [hoperands]) hkind
  obtain ⟨_, hnumber⟩ := Context.exists_standsForNumber rfl hr
  cases hnumber with
  | literal hvalue =>
      rw [Line.value_of_mem (Line.fst_mem_of_mem_headed hp) hitem (Or.inl hkind)] at hvalue
      cases hvalue
  | @symbol key x v _ _ hkey hx hv =>
      replace hkey : symbolKey q.scope t = .ok key := hkey
      rw [hscope] at hkey
      obtain ⟨g', hg, hkey', htarget⟩ := isLocalTarget_of_key hl hp hitem hkind hkey
      rw [hsymbols]
      exact ⟨g', key, v, x.token, hg, hkey', SymbolTable.resolve_eq_ok_iff.2 ⟨⟨x, hx, rfl⟩, hv⟩,
        (htarget x hx).2⟩

/-- A constant that stands for a local label is an alias of one below the same global label. -/
theorem constant_resolves_in_scope {name : Token} {trailing : Option Error}
    (hbody : line.statement.body = .ok (.constant name (.symbol t) trailing)) :
    ∃ g' key, g = some g' ∧ symbolKey (some g'.scopeName) t = .ok key ∧
      p.symbols[name.text]? = some ⟨.constant, .sameAs key t, name⟩ ∧
      ∀ x, p.symbols[key]? = some x → x.kind = .label ∧ IsLocalTarget source g' t x.token := by
  obtain ⟨l, hl, -, hsymbols⟩ := assemble_eq_ok_iff.1 h
  have hitem : .ok t ∈ line.items := by
    obtain ⟨items, hitems, -, hline⟩ := line.exists_says
    rw [hbody] at hline
    cases hline with
    | constant _ _ _ hvalue =>
        rw [hitems, Statement.eq_of_constantValue hvalue]
        simp
  obtain ⟨meaning, hmeaning, hbound⟩ := Layout.constant_of_mem_headed hl rfl hp hbody
  cases hkey : symbolKey (g.map Token.scopeName) t with
  | error e =>
      rw [ConstantValue.meaning, hkey] at hmeaning
      cases hmeaning
  | ok key =>
      rw [ConstantValue.meaning, hkey] at hmeaning
      cases hmeaning
      obtain ⟨g', hg, hkey', htarget⟩ := isLocalTarget_of_key hl hp hitem hkind hkey
      rw [hsymbols]
      exact ⟨g', key, hg, hkey', hbound, htarget⟩

end Program

/-- **Local names never leave their scope.**  After any number of lines, with or without errors, every
key is a name that is not reserved, or a local name in a scope that is bound itself.  Two tokens that
name a symbol have the same key only if both are local labels with the same name in the same scope, or
neither is local and they have the same name.  So in a program a local label among the operands of an
instruction, or behind EQU, refers to a local label of its own name below the same global label. -/
theorem scoped_names_never_collide :
    (∀ (source : String) (base : UInt16) (n : Nat) (key : String),
      key ∈ ((Layout.start base).keepGoing ((Line.ofSource source).take n)).1.symbols →
      IsSymbolName key ∨ ∃ scope name, IsSymbolName scope ∧
        scope ∈ ((Layout.start base).keepGoing ((Line.ofSource source).take n)).1.symbols ∧
        IsLocalName name ∧ key = scope ++ "." ++ name) ∧
    (∀ (c c' : Cursor) (t t' : Token), c.next.1 = .ok t → c'.next.1 = .ok t' →
      t.NamesSymbol → t'.NamesSymbol →
      ∃ name name', t.IsCalled name ∧ t'.IsCalled name' ∧
        ∀ scope scope' key key', symbolKey scope t = .ok key → symbolKey scope' t' = .ok key' →
          (key = key' ↔
            t.kind = .localLabel ∧ t'.kind = .localLabel ∧ scope = scope' ∧ name = name' ∨
              t.kind ≠ .localLabel ∧ t'.kind ≠ .localLabel ∧ name = name')) ∧
    ∀ (source : String) (base : UInt16) (p : Program), assemble source base = .ok p →
      ∀ line g t, (line, g) ∈ Line.headed none (Line.ofSource source) → t.kind = .localLabel →
        (∀ mnemonic name operands,
          line.statement.body = .ok (.instruction mnemonic name operands) → t ∈ operands →
          ∃ g' key v d, g = some g' ∧ symbolKey (some g'.scopeName) t = .ok key ∧
            p.symbols.resolve key t = .ok (v, d) ∧ IsLocalTarget source g' t d) ∧
        ∀ name trailing, line.statement.body = .ok (.constant name (.symbol t) trailing) →
          ∃ g' key, g = some g' ∧ symbolKey (some g'.scopeName) t = .ok key ∧
            p.symbols[name.text]? = some ⟨.constant, .sameAs key t, name⟩ ∧
            ∀ x, p.symbols[key]? = some x → x.kind = .label ∧ IsLocalTarget source g' t x.token := by
  refine ⟨?_, ?_, ?_⟩
  · intro source base n key hkey
    have hmem : ∀ line ∈ (Line.ofSource source).take n, line ∈ Line.ofSource source :=
      fun _ hline => List.mem_of_mem_take hline
    obtain ⟨x, hx⟩ := Option.isSome_iff_exists.1 (Std.TreeMap.mem_iff_isSome_getElem?.1 hkey)
    obtain ⟨g, hscoped⟩ := Layout.isScoped_keepGoing base
      fun line hline => Line.isCalled_of_mem (hmem line hline)
    have hnamed := Layout.isNamed_keepGoing (Layout.isNamed_start base)
      fun line hline t ht => Line.isNamed_of_mem (hmem line hline) ht
    rcases hscoped.symbols key x hx with hconst | hglobal | ⟨g', hlocal, hscope, hbound⟩
    · exact Or.inl (hnamed key x hx (Or.inl hconst))
    · exact Or.inl (hnamed key x hx (Or.inr hglobal))
    · obtain ⟨name, hname, hkey⟩ := hlocal.name
      refine Or.inr ⟨g'.scopeName, name, hscope, hbound, ?_, hkey⟩
      cases hname with
      | localLabel _ hname _ _ => exact hname
      | globalLabel hkind _ _ | plain hkind _ _ | bracketed hkind _ _ =>
          rw [hlocal.token] at hkind
          cases hkind
  · intro c c' t t' hc hc' ht ht'
    obtain ⟨name, hname⟩ := Cursor.exists_isCalled hc ht
    obtain ⟨name', hname'⟩ := Cursor.exists_isCalled hc' ht'
    exact ⟨name, name', hname, hname', fun _ _ _ _ hkey hkey' => hname.key_eq_iff hname' hkey hkey'⟩
  · intro source base p h line g t hp hkind
    exact ⟨fun _ _ _ hbody ht => operand_resolves_in_scope h hp hkind hbody ht,
      fun _ _ hbody => constant_resolves_in_scope h hp hkind hbody⟩

/-- A local name in two scopes, and a jump and a constant that use the second one. -/
def twoScopes : String :=
  "ONE:\n.L NOP\nTWO:\n.L: JR .L\nBACK EQU .L"

/-- The local name below a label that is defined twice, on a line with an error; the one name of a
definition and of a reference; and the jump in the second of two scopes. -/
theorem scoped_names_never_collide_twoScopes :
    (∃ scope name, IsSymbolName scope ∧
      scope ∈ ((Layout.start 0).keepGoing ((Line.ofSource "ONE: NOP\nONE:\n.L FOO").take 3)).1.symbols ∧
      IsLocalName name ∧ "ONE.L" = scope ++ "." ++ name) ∧
    (∃ name, Token.IsCalled ⟨.localLabel, ".L:", ⟨1, 1⟩, none⟩ name ∧
      Token.IsCalled ⟨.localLabel, ".L", ⟨1, 1⟩, none⟩ name) ∧
    ∃ p v d, assemble twoScopes 0 = .ok p ∧
      p.symbols.resolve "TWO.L" ⟨.localLabel, ".L", ⟨4, 8⟩, none⟩ = .ok (v, d) ∧
      IsLocalTarget twoScopes ⟨.globalLabel, "TWO:", ⟨3, 1⟩, none⟩
        ⟨.localLabel, ".L", ⟨4, 8⟩, none⟩ d := by
  obtain ⟨hkeys, htokens, hprograms⟩ := scoped_names_never_collide
  refine ⟨?_, ?_, ?_⟩
  · rcases hkeys "ONE: NOP\nONE:\n.L FOO" 0 3 "ONE.L" (by decide +kernel) with hplain | hlocal
    · exact absurd (by decide) hplain.1.dot_notMem
    · exact hlocal
  · obtain ⟨name, name', hname, hname', hkey⟩ := htokens (.ofSource ".L:") (.ofSource ".L")
      ⟨.localLabel, ".L:", ⟨1, 1⟩, none⟩ ⟨.localLabel, ".L", ⟨1, 1⟩, none⟩
      (by decide +kernel) (by decide +kernel) (Or.inr (Or.inr rfl)) (Or.inr (Or.inr rfl))
    rcases (hkey (some "ONE") (some "ONE") "ONE.L" "ONE.L" (by decide +kernel)
      (by decide +kernel)).1 rfl with ⟨-, -, -, rfl⟩ | ⟨hkind, -, -⟩
    · exact ⟨name, hname, hname'⟩
    · exact absurd rfl hkind
  · have hline : (Line.headed none (Line.ofSource twoScopes)).any (fun p =>
        decide (p.2 = some ⟨.globalLabel, "TWO:", ⟨3, 1⟩, none⟩ ∧
          p.1.statement.body = .ok (.instruction .jr ⟨.identifier, "JR", ⟨4, 5⟩, none⟩
            [⟨.localLabel, ".L", ⟨4, 8⟩, none⟩]))) = true := by decide +kernel
    obtain ⟨⟨line, g⟩, hp, hline⟩ := List.any_eq_true.1 hline
    obtain ⟨rfl, hbody⟩ := of_decide_eq_true hline
    have hrun : (assemble twoScopes 0).toOption.isSome = true := by decide +kernel
    cases h : assemble twoScopes 0 with
    | error e =>
        rw [h] at hrun
        cases hrun
    | ok p =>
        obtain ⟨g', key, v, d, hg, hkey, hresolve, htarget⟩ :=
          (hprograms twoScopes 0 p h line _ ⟨.localLabel, ".L", ⟨4, 8⟩, none⟩ hp rfl).1 _ _ _ hbody
            List.mem_cons_self
        cases hg
        have hkey' : symbolKey (some "TWO") ⟨.localLabel, ".L", ⟨4, 8⟩, none⟩ = .ok "TWO.L" := by
          decide +kernel
        cases hkey'.symm.trans hkey
        exact ⟨p, v, d, rfl, hresolve, htarget⟩

end GameBoyAssembler
