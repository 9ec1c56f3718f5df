import GameBoyAssembler.Proofs.Coverage
import GameBoyAssembler.Proofs.ReadAlike
import GameBoyAssembler.Proofs.Spelling

/-!
# Reading a text in another spelling

The reader sorts characters into classes, and no class tells the case of a letter apart, or round
brackets from square ones.  The one exception is the bracket that closes a word: it must match the
opening one.  So if the words of a text are spelled in another way, each with matching brackets, the
text is cut into the same words at the same places.

Main definitions:

* `Alike` — characters that differ in letter case or in the kind of bracket only;
* `Item.word?` — the place and the text of the word that an item was made from;
* `Cursor.respell`, `respell` — a text with other spellings for its words;
* `Item.Respelled` — the item of a word in another spelling.

Main results:

* `lexeme_respelled` — a word in another spelling is a word of the same kind and length;
* `Cursor.respelled_next` — one reading of a text in another spelling;
* `Cursor.respelled_items` — **a text in another spelling is read as the same words**.
-/

set_option relaxedAutoImplicit false
set_option autoImplicit false

namespace GameBoyAssembler

/-! ### Characters -/

def isClosing (c : Char) : Bool :=
  c == ')' || c == ']'

/-- The characters differ in letter case at most, or both are opening or closing brackets. -/
def Alike (c d : Char) : Prop :=
  c.toUpper = d.toUpper ∨ (isOpening c = true ∧ isOpening d = true) ∨
    (isClosing c = true ∧ isClosing d = true)

theorem alike_refl (c : Char) : Alike c c :=
  Or.inl rfl

/-- The function tells neither letter case nor the kinds of brackets apart. -/
def IgnoresSpelling {α : Type} (p : Char → α) : Prop :=
  IgnoresCase p ∧ p '(' = p '[' ∧ p ')' = p ']'

instance {α : Type} [DecidableEq α] (p : Char → α) : Decidable (IgnoresSpelling p) :=
  inferInstanceAs (Decidable (_ ∧ _))

instance (p : Char → Prop) [DecidablePred p] : Decidable (IgnoresSpelling p) :=
  inferInstanceAs (Decidable (_ ∧ _))

theorem Alike.class_eq {α : Type} {p : Char → α} (hp : IgnoresSpelling p) {c d : Char}
    (h : Alike c d) : p c = p d := by
  obtain ⟨hletters, hopening, hclosing⟩ := hp
  rcases h with h | ⟨hc, hd⟩ | ⟨hc, hd⟩
  · exact class_recased hletters h
  · rcases isOpening_cases hc with rfl | rfl <;> rcases isOpening_cases hd with rfl | rfl
    · rfl
    · exact hopening
    · exact hopening.symm
    · rfl
  · simp only [isClosing, Bool.or_eq_true, beq_iff_eq] at hc hd
    rcases hc with rfl | rfl <;> rcases hd with rfl | rfl
    · rfl
    · exact hclosing
    · exact hclosing.symm
    · rfl

/-- The letters of names differ in case at most. -/
theorem Alike.toUpper_eq {c d : Char} (h : Alike c d) (hc : isNameChar c = true) :
    c.toUpper = d.toUpper := by
  rcases h with h | ⟨ho, -⟩ | ⟨ho, -⟩
  · exact h
  · rcases isOpening_cases ho with rfl | rfl <;> cases hc
  · simp only [isClosing, Bool.or_eq_true, beq_iff_eq] at ho
    rcases ho with rfl | rfl <;> cases hc

/-! ### Texts -/

/-- Texts that are alike, character by character. -/
abbrev AlikeTexts : List Char → List Char → Prop :=
  List.Forall₂ Alike

theorem alikeTexts_refl (cs : List Char) : AlikeTexts cs cs :=
  List.forall₂_same.2 fun c _ => alike_refl c

theorem Recased.alikeTexts {free : Bool} {cs ds : List Char} (h : Recased free cs ds) :
    AlikeTexts cs ds := by
  have hletters := h.map_eq
  rw [← List.forall₂_eq_eq_eq, List.forall₂_map_left_iff, List.forall₂_map_right_iff] at hletters
  exact hletters.imp fun _ _ => Or.inl

theorem Spelling.alikeTexts {free swap : Bool} {cs ds : List Char} (h : Spelling free swap cs ds) :
    AlikeTexts cs ds := by
  have hclosing {o : Char} (ho : isOpening o = true) : isClosing (closingBracket o) = true := by
    rcases isOpening_cases ho with rfl | rfl <;> rfl
  cases h with
  | letters h => exact h.alikeTexts
  | brackets _ ho ho' h =>
      refine .cons (Or.inr (Or.inl ⟨ho, ho'⟩)) (List.rel_append h.alikeTexts ?_)
      exact .cons (Or.inr (Or.inr ⟨hclosing ho, hclosing ho'⟩)) .nil

namespace AlikeTexts

variable {cs ds : List Char} (h : AlikeTexts cs ds)

include h

theorem runLength_eq {p : Char → Bool} (hp : IgnoresSpelling p) :
    runLength p cs = runLength p ds := by
  unfold runLength
  induction h with
  | nil => rfl
  | cons hcd _ ih =>
      rw [List.takeWhile_cons, List.takeWhile_cons, hcd.class_eq hp]
      split
      · rw [List.length_cons, List.length_cons, ih]
      · rfl

theorem any_head?_eq {p : Char → Bool} (hp : IgnoresSpelling p) :
    cs.head?.any p = ds.head?.any p := by
  cases h with
  | nil => rfl
  | cons hcd _ => exact hcd.class_eq hp

theorem head?_eq_some_iff {x : Char} (hx : IgnoresSpelling (· = x)) :
    cs.head? = some x ↔ ds.head? = some x := by
  cases h with
  | nil => exact Iff.rfl
  | cons hcd _ =>
      rw [List.head?_cons, List.head?_cons, Option.some_inj, Option.some_inj]
      exact iff_of_eq (hcd.class_eq hx)

theorem blankLength_eq : blankLength cs = blankLength ds := by
  have hrun : runLength isBlank cs = runLength isBlank ds := h.runLength_eq (by decide)
  have hrest := List.forall₂_drop (runLength isBlank ds) h
  unfold blankLength
  rw [hrun]
  dsimp only
  generalize cs.drop (runLength isBlank ds) = as at hrest
  generalize ds.drop (runLength isBlank ds) = bs at hrest
  cases hrest with
  | nil => rfl
  | @cons a b as bs hab hrest =>
      have hcomment : (a = ';') = (b = ';') := hab.class_eq (p := (· = ';')) (by decide)
      by_cases hb : b = ';'
      · obtain rfl : a = ';' := hcomment.mpr hb
        subst hb
        have hbehind := AlikeTexts.runLength_eq hrest (p := (· != '\n')) (by decide)
        exact congrArg (runLength isBlank ds + 1 + ·) hbehind
      · have ha : a ≠ ';' := mt hcomment.mp hb
        simp [ha, hb]

theorem breakLength_eq (comment : Bool) : breakLength comment cs = breakLength comment ds := by
  induction h generalizing comment with
  | nil => rfl
  | @cons c d cs ds hcd _ ih =>
      have hfeed : (c = '\n') = (d = '\n') := hcd.class_eq (p := (· = '\n')) (by decide)
      have hcomment : (c = ';') = (d = ';') := hcd.class_eq (p := (· = ';')) (by decide)
      have hblank : isBlank c = isBlank d := hcd.class_eq (by decide)
      simp only [breakLength, hfeed, hcomment, hblank, ih]

theorem after_eq (p : Position) : p.after cs = p.after ds := by
  induction h generalizing p with
  | nil => rfl
  | @cons c d cs ds hcd _ ih =>
      have hfeed : (c = '\n') = (d = '\n') := hcd.class_eq (p := (· = '\n')) (by decide)
      rw [Position.after_cons, Position.after_cons, ih, Position.step, Position.step]
      simp only [hfeed]

end AlikeTexts

/-! ### The word in front -/

theorem Lexeme.SameUnless.errors (cause cause' : Cause) (n : Nat)
    (h : cause.kind = cause'.kind) :
    Lexeme.SameUnless True ⟨.error cause, n⟩ ⟨.error cause', n⟩ :=
  ⟨rfl, Or.inr ⟨trivial, cause, cause', rfl, rfl, h⟩⟩

/-- Names of the same letters are cut off alike. -/
theorem AlikeTexts.nameLexeme_eq {cs ds : List Char} (h : AlikeTexts cs ds) :
    nameLexeme (runLength isNameChar cs) cs = nameLexeme (runLength isNameChar ds) ds := by
  have hrun : runLength isNameChar cs = runLength isNameChar ds := h.runLength_eq (by decide)
  have hletters : (cs.take (runLength isNameChar cs)).map Char.toUpper
      = (ds.take (runLength isNameChar ds)).map Char.toUpper := by
    rw [take_runLength, take_runLength]
    clear hrun
    induction h with
    | nil => rfl
    | @cons c d cs ds hcd _ ih =>
        have hname : isNameChar c = isNameChar d := hcd.class_eq (by decide)
        rw [List.takeWhile_cons, List.takeWhile_cons, ← hname]
        split
        · rename_i hc
          rw [List.map_cons, List.map_cons, hcd.toUpper_eq hc, ih]
        · rfl
  have hsp : sameLetters (String.ofList (cs.take (runLength isNameChar cs))) "SP"
      = sameLetters (String.ofList (ds.take (runLength isNameChar ds))) "SP" := by
    refine sameLetters_congr ?_ rfl
    rw [capitals, capitals, String.toList_ofList, String.toList_ofList, hletters]
  have hrest := List.forall₂_drop (runLength isNameChar cs) h
  rw [nameLexeme, nameLexeme, hsp, ← hrun]
  generalize cs.drop (runLength isNameChar cs) = as at hrest
  generalize ds.drop (runLength isNameChar cs) = bs at hrest
  cases hrest with
  | nil => rfl
  | @cons a b as bs hab hrest =>
      have hcolon : (a = ':') = (b = ':') := hab.class_eq (p := (· = ':')) (by decide)
      have hsign : isSign a = isSign b := hab.class_eq (by decide)
      cases hrest with
      | nil => simp only [hcolon]
      | @cons a' b' as bs hab' hrest =>
          have hdigit : a'.isDigit = b'.isDigit := hab'.class_eq (by decide)
          have hdigits : runLength isNameChar (a' :: as) = runLength isNameChar (b' :: bs) :=
            AlikeTexts.runLength_eq (.cons hab' hrest) (by decide)
          simp only [hcolon, hsign, hdigit, hdigits]

/-- Words that do not start with a bracket. -/
theorem lexeme_alike {c d : Char} {cs ds : List Char} (hcd : Alike c d) (h : AlikeTexts cs ds)
    (hc : isOpening c = false) : Lexeme.SameUnless True (lexeme (c :: cs)) (lexeme (d :: ds)) := by
  have hcomma : (c = ',') = (d = ',') := hcd.class_eq (p := (· = ',')) (by decide)
  have hdot : (c = '.') = (d = '.') := hcd.class_eq (p := (· = '.')) (by decide)
  have hdigit : c.isDigit = d.isDigit := hcd.class_eq (by decide)
  have hsign : isSign c = isSign d := hcd.class_eq (by decide)
  have hstart : isNameStart c = isNameStart d := hcd.class_eq (by decide)
  have hopen : isOpening c = isOpening d := hcd.class_eq (by decide)
  have hrun : runLength isNameChar cs = runLength isNameChar ds := h.runLength_eq (by decide)
  have hcolon : (cs.drop (runLength isNameChar ds)).head? = some ':' ↔
      (ds.drop (runLength isNameChar ds)).head? = some ':' :=
    AlikeTexts.head?_eq_some_iff (List.forall₂_drop _ h) (by decide)
  have hnext : cs.head?.any Char.isDigit = ds.head?.any Char.isDigit := h.any_head?_eq (by decide)
  have hname := AlikeTexts.nameLexeme_eq (.cons hcd h)
  have hbracket {x : Char} (hx : isOpening x = false) :
      (decide (x = '(') || decide (x = '[')) = false := hx
  simp only [lexeme, hbracket hc, hbracket (hopen ▸ hc), hcomma, hdot, hdigit, hsign, hstart, hrun,
    hcolon, hnext, hname]
  split
  · exact .refl _ _
  · split
    · split
      · exact .errors (.noLabelName cs.head?) (.noLabelName ds.head?) 1 rfl
      · exact .refl _ _
    · split
      next hfalse => cases hfalse
      · split
        · exact .refl _ _
        · split
          · split
            · exact .refl _ _
            · exact .errors (.signWithoutDigit c) (.signWithoutDigit d) 1 rfl
          · exact .refl _ _

/-- The two contents of brackets: a name, perhaps with signs in it, and a number. -/
inductive BracketContent : Char → TokenKind → (Char → Bool) → Prop
  | name {c : Char} (h : isNameStart c = true) : BracketContent c .identifier isBracketedChar
  | number {c : Char} (h : c.isDigit = true) : BracketContent c .address isNameChar

/-- Behind `n` characters in brackets stands the closing bracket, or there is a fault. -/
def closedLexeme (o : Char) (kind : TokenKind) (n : Nat) (behind : List Char) : Lexeme :=
  if behind.head? = some (closingBracket o) then ⟨.ok kind, n + 2⟩
  else ⟨.error (.unclosedBracket o behind.head?), n + 1⟩

/-- A word in brackets runs up to the closing bracket. -/
theorem BracketContent.bracketLexeme_eq {c : Char} {kind : TokenKind} {p : Char → Bool}
    (h : BracketContent c kind p) (o : Char) (cs : List Char) :
    bracketLexeme o (c :: cs)
      = closedLexeme o kind (runLength p (c :: cs)) ((c :: cs).drop (runLength p (c :: cs))) := by
  cases h with
  | name hc =>
      simp only [bracketLexeme, closedLexeme, hc, if_true]
      cases (c :: cs).drop (runLength isBracketedChar (c :: cs)) with
      | nil => rfl
      | cons x rest => simp only [List.head?_cons, Option.some_inj]
  | number hc =>
      have hname : isNameStart c = false := by
        rw [Bool.eq_false_iff]
        intro hstart
        rw [isDigit_of_isNameStart hstart] at hc
        cases hc
      simp only [bracketLexeme, closedLexeme, hname, hc, if_true, Bool.false_eq_true, if_false]
      cases (c :: cs).drop (runLength isNameChar (c :: cs)) with
      | nil => rfl
      | cons x rest => simp only [List.head?_cons, Option.some_inj]

/-- Brackets around anything else are a fault. -/
theorem bracketLexeme_of_no_content (o : Char) {cs : List Char}
    (h : cs.head?.any isNameStart = false ∧ cs.head?.any Char.isDigit = false) :
    bracketLexeme o cs = ⟨.error (.badBracketContent o cs.head?), 1⟩ := by
  cases cs with
  | nil => rfl
  | cons c cs =>
      rw [List.head?_cons, Option.any_some, Option.any_some] at h
      simp [bracketLexeme, h]

theorem BracketContent.of_alike {c d : Char} {kind : TokenKind} {p : Char → Bool}
    (h : BracketContent c kind p) (hcd : Alike c d) : BracketContent d kind p := by
  have hstart : isNameStart c = isNameStart d := hcd.class_eq (by decide)
  have hdigit : c.isDigit = d.isDigit := hcd.class_eq (by decide)
  cases h with
  | name hc => exact .name (hstart ▸ hc)
  | number hc => exact .number (hdigit ▸ hc)

theorem BracketContent.ignoresSpelling {c : Char} {kind : TokenKind} {p : Char → Bool}
    (h : BracketContent c kind p) : IgnoresSpelling p := by
  cases h with
  | name _ => decide
  | number _ => decide

theorem lexeme_of_isOpening {o : Char} (ho : isOpening o = true) (cs : List Char) :
    lexeme (o :: cs) = bracketLexeme o cs := by
  rcases isOpening_cases ho with rfl | rfl <;> rfl

theorem isClosing_closingBracket (o : Char) : isClosing (closingBracket o) = true := by
  unfold closingBracket
  split <;> rfl

/-- A word in brackets ends behind the closing bracket. -/
theorem inBrackets_take {o : Char} (ho : isOpening o = true) {as : List Char} {n : Nat}
    (hclosed : (as.drop n).head? = some (closingBracket o)) :
    InBrackets (as.take n) ((o :: as).take (n + 2)) := by
  obtain ⟨rest, hrest⟩ := List.head?_eq_some_iff.1 hclosed
  refine ⟨o, ho, ?_⟩
  rw [List.take_succ_cons, List.take_add, hrest]
  rfl

/-- The lexeme is a word: no fault and no stray character. -/
def Lexeme.isWord (l : Lexeme) : Bool :=
  match l.outcome with
  | .ok kind => kind != .invalid
  | .error _ => false

/-- A closing bracket in front of the second text stands in front of the first. -/
def ClosingKept (cs ds : List Char) : Prop :=
  ∀ x, isClosing x = true → ds.head? = some x → cs.head? = some x

/-- A word in brackets, and a bracket that is not closed. -/
theorem bracketLexeme_respelled {o o' c : Char} {cs ds ws behind : List Char} {kind : TokenKind}
    {p : Char → Bool} (ho : isOpening o = true) (ho' : isOpening o' = true)
    (hcontent : BracketContent c kind p) (halike : AlikeTexts (c :: cs) ds)
    (hds : ws ++ behind = o' :: ds)
    (hclosing : ClosingKept ((o :: c :: cs).drop (lexeme (o :: c :: cs)).length) behind)
    (hword : (lexeme (o :: c :: cs)).isWord = true →
      Spelling true true ((o :: c :: cs).take (lexeme (o :: c :: cs)).length) ws)
    (hfault : (lexeme (o :: c :: cs)).isWord = false →
      ws = (o :: c :: cs).take (lexeme (o :: c :: cs)).length) :
    Lexeme.SameUnless True (lexeme (o :: c :: cs)) (lexeme (o' :: ds)) := by
  have hrun := AlikeTexts.runLength_eq halike hcontent.ignoresSpelling
  have hlexeme := hcontent.bracketLexeme_eq o cs
  rw [← lexeme_of_isOpening ho] at hlexeme
  have hlexeme' : lexeme (o' :: ds)
      = closedLexeme o' kind (runLength p (c :: cs)) (ds.drop (runLength p (c :: cs))) := by
    cases halike with
    | cons hcd _ =>
        rw [lexeme_of_isOpening ho', hrun]
        exact (hcontent.of_alike hcd).bracketLexeme_eq o' _
  have hle : runLength p (c :: cs) ≤ (c :: cs).length := runLength_le p (c :: cs)
  generalize runLength p (c :: cs) = n at hlexeme hlexeme' hle
  generalize c :: cs = as at hlexeme hclosing hword hfault hle ⊢
  by_cases hclosed : (as.drop n).head? = some (closingBracket o)
  · -- a word in brackets: the other spelling has its closing bracket at the same place
    rw [closedLexeme, if_pos hclosed] at hlexeme
    rw [hlexeme] at hword ⊢
    have hisWord : Lexeme.isWord ⟨.ok kind, n + 2⟩ = true := by
      cases hcontent <;> rfl
    obtain ⟨inner, ⟨a, ha, hws⟩, hsame⟩ := (hword hisWord).inBrackets (inBrackets_take ho hclosed)
    have hlength : inner.length = n := by
      have := congrArg List.length hsame.map_eq
      rw [List.length_map, List.length_map, List.length_take, Nat.min_eq_left hle] at this
      exact this.symm
    rw [hws, List.cons_append, List.append_assoc, List.singleton_append] at hds
    obtain ⟨rfl, rfl⟩ := List.cons.inj hds
    rw [← hlength, List.drop_left, closedLexeme, List.head?_cons, if_pos rfl] at hlexeme'
    rw [hlexeme', hlength]
    exact .refl _ _
  · rw [closedLexeme, if_neg hclosed] at hlexeme
    rw [hlexeme] at hclosing hfault ⊢
    rw [hfault rfl, List.take_succ_cons, List.cons_append] at hds
    obtain ⟨rfl, rfl⟩ := List.cons.inj hds
    have hopen : behind.head? ≠ some (closingBracket o) := by
      intro hbehind
      exact hclosed (hclosing _ (isClosing_closingBracket o) hbehind)
    rw [List.drop_left' (by rw [List.length_take, Nat.min_eq_left hle]), closedLexeme,
      if_neg hopen] at hlexeme'
    rw [hlexeme']
    exact .errors _ _ (n + 1) rfl

/-- **A word in another spelling is a word of the same kind and length**, and what is no word is
none before the same text. -/
theorem lexeme_respelled {cs ws behind : List Char} (hne : cs ≠ [])
    (hbehind : AlikeTexts (cs.drop (lexeme cs).length) behind)
    (hclosing : ClosingKept (cs.drop (lexeme cs).length) behind)
    (hword : (lexeme cs).isWord = true → Spelling true true (cs.take (lexeme cs).length) ws)
    (hfault : (lexeme cs).isWord = false → ws = cs.take (lexeme cs).length) :
    Lexeme.SameUnless True (lexeme cs) (lexeme (ws ++ behind)) := by
  have hfront : AlikeTexts (cs.take (lexeme cs).length) ws := by
    cases hisWord : (lexeme cs).isWord with
    | true => exact (hword hisWord).alikeTexts
    | false => exact hfault hisWord ▸ alikeTexts_refl _
  have halike : AlikeTexts (cs.take (lexeme cs).length ++ cs.drop (lexeme cs).length)
      (ws ++ behind) := List.rel_append hfront hbehind
  rw [List.take_append_drop] at halike
  obtain ⟨o, rest, rfl⟩ := List.exists_cons_of_ne_nil hne
  obtain ⟨ds, hds⟩ : ∃ ds, ws ++ behind = ds := ⟨_, rfl⟩
  rw [hds] at halike ⊢
  cases halike with
  | @cons _ o' _ rest' hoo' hrest =>
      have hopen : isOpening o = isOpening o' := hoo'.class_eq (by decide)
      cases ho : isOpening o with
      | false => exact lexeme_alike hoo' hrest ho
      | true =>
          have ho' : isOpening o' = true := hopen ▸ ho
          -- neither a name nor a number behind the bracket, in either spelling
          have hnone (h : rest.head?.any isNameStart = false ∧ rest.head?.any Char.isDigit = false) :
              Lexeme.SameUnless True (lexeme (o :: rest)) (lexeme (o' :: rest')) := by
            have h' : rest'.head?.any isNameStart = false ∧ rest'.head?.any Char.isDigit = false := by
              rwa [← AlikeTexts.any_head?_eq hrest (by decide),
                ← AlikeTexts.any_head?_eq hrest (by decide)]
            rw [lexeme_of_isOpening ho, lexeme_of_isOpening ho', bracketLexeme_of_no_content o h,
              bracketLexeme_of_no_content o' h']
            exact .errors _ _ 1 rfl
          cases rest with
          | nil => exact hnone ⟨rfl, rfl⟩
          | cons c cs =>
              have hcontent {kind : TokenKind} {p : Char → Bool} (hc : BracketContent c kind p) :=
                bracketLexeme_respelled ho ho' hc hrest hds hclosing hword hfault
              cases hstart : isNameStart c with
              | true => exact hcontent (.name hstart)
              | false =>
                  cases hdigit : c.isDigit with
                  | true => exact hcontent (.number hdigit)
                  | false => exact hnone ⟨hstart, hdigit⟩

/-! ### Words of a text -/

/-- The place and the text of the word that an item was made from.  A line end is no word, and of the
faults only a malformed number is one. -/
def Item.word? : Item → Option (Position × String)
  | .ok t => if t.endsLine then none else some (t.pos, t.text)
  | .error e =>
      match e.cause with
      | .malformedNumber text => some (e.span.pos, text)
      | _ => none

/-- What is written for a word, or the text that was read if it is no word. -/
def Item.spelled (spell : Position → String → String) (item : Item) (text : List Char) :
    List Char :=
  match item.word? with
  | some (pos, word) => (spell pos word).toList
  | none => text

namespace Cursor

/-- The text that a reading takes behind blanks. -/
def stretch (c : Cursor) : List Char :=
  c.skipBlanks.rest.take (c.skipBlanks.rest.length - c.next.2.rest.length)

/-- The text from here on, with other spellings for its words. -/
def respell (spell : Position → String → String) (c : Cursor) : List Char :=
  if c.next.1.isEnd then c.rest
  else c.rest.take (blankLength c.rest)
    ++ (c.next.1.spelled spell c.stretch ++ c.next.2.respell spell)
termination_by c.rest.length
decreasing_by
  rename_i h
  exact length_next_lt (by simpa using h)

theorem stretch_of_advance {c : Cursor} {n : Nat} (h : c.next.2 = c.skipBlanks.advance n) :
    c.stretch = c.skipBlanks.rest.take n := by
  rw [stretch, h, rest_advance, List.length_drop, List.take_eq_take_iff]
  omega

theorem stretch_append (c : Cursor) : c.stretch ++ c.next.2.rest = c.skipBlanks.rest := by
  obtain ⟨n, hn⟩ := c.next_behind
  rw [stretch_of_advance hn, hn, rest_advance, List.take_append_drop]

theorem rest_eq_stretch (c : Cursor) :
    c.rest.take (blankLength c.rest) ++ (c.stretch ++ c.next.2.rest) = c.rest := by
  rw [stretch_append]
  exact List.take_append_drop _ _

end Cursor

/-- The source with other spellings for its words. -/
def respell (spell : Position → String → String) (source : String) : String :=
  String.ofList ((Cursor.ofSource source).respell spell)

/-- The word of an item has another spelling. -/
def Item.SpelledAlike (spell : Position → String → String) (item : Item) : Prop :=
  ∀ pos word, item.word? = some (pos, word) →
    Spelling true true word.toList (spell pos word).toList

/-- Errors of the same kind at the same place. -/
def SamePlace (e f : Error) : Prop :=
  e.kind = f.kind ∧ e.span = f.span

/-- The token with another spelling.  A line end is no word. -/
def Token.respell (spell : Position → String → String) (t : Token) : Token :=
  if t.endsLine then t else { t with text := spell t.pos t.text }

/-- The same token with its other spelling, or errors of the same kind at the same place. -/
def Item.Respelled (spell : Position → String → String) : Item → Item → Prop :=
  AgreesUpTo SamePlace fun t u => u = t.respell spell

/-! ### One word -/

theorem lexeme_ne_malformedNumber {cs : List Char} {text : String} :
    (lexeme cs).outcome ≠ .error (.malformedNumber text) := by
  cases cs with
  | nil => rintro ⟨⟩
  | cons c cs =>
      have hbracket : (bracketLexeme c cs).outcome ≠ .error (.malformedNumber text) := by
        cases cs with
        | nil => rintro ⟨⟩
        | cons d cs =>
            simp only [bracketLexeme]
            repeat' split
            all_goals rintro ⟨⟩
      have hname : (nameLexeme (runLength isNameChar (c :: cs)) (c :: cs)).outcome
          ≠ .error (.malformedNumber text) := by
        simp only [nameLexeme]
        repeat' split
        all_goals rintro ⟨⟩
      grind [lexeme]

/-- Tokens do not reach past the end of the text. -/
theorem length_lexeme_le {cs : List Char} (hne : cs ≠ []) (hfeed : cs.head? ≠ some '\n') :
    (lexeme cs).length ≤ cs.length := by
  have hline : cs.take (runLength (· != '\n') cs) ≠ [] := by
    obtain ⟨c, cs, rfl⟩ := List.exists_cons_of_ne_nil hne
    have hc : (c != '\n') = true := bne_iff_ne.2 fun h => hfeed (congrArg some h)
    simp [runLength, hc]
  have hle := (atLineEnd_drop_runLength cs).separated.length_lexeme_append_le hline
    (notMem_run rfl cs)
  rw [List.take_append_drop] at hle
  exact Nat.le_trans hle (List.length_take_le' _ _)

/-- A word that does not start with a bracket is no address. -/
theorem lexeme_ne_address {c : Char} (hc : isOpening c = false) (cs : List Char) :
    (lexeme (c :: cs)).outcome ≠ .ok .address := by
  have hbracket : (decide (c = '(') || decide (c = '[')) = false := hc
  have hname : (nameLexeme (runLength isNameChar (c :: cs)) (c :: cs)).outcome ≠ .ok .address := by
    simp only [nameLexeme]
    repeat' split
    all_goals rintro ⟨⟩
  grind [lexeme]

theorem bracketLexeme_inBrackets {o : Char} (ho : isOpening o = true) {cs : List Char}
    {kind : TokenKind} (h : (bracketLexeme o cs).outcome = .ok kind) :
    (kind = .identifier ∨ kind = .address) ∧
      ∃ inner, InBrackets inner ((o :: cs).take (bracketLexeme o cs).length) := by
  cases cs with
  | nil => cases h
  | cons c cs =>
      have hcontent {kind' : TokenKind} {p : Char → Bool} (hc : BracketContent c kind' p) :
          (kind = .identifier ∨ kind = .address) ∧
            ∃ inner, InBrackets inner ((o :: c :: cs).take (bracketLexeme o (c :: cs)).length) := by
        rw [hc.bracketLexeme_eq] at h ⊢
        unfold closedLexeme at h ⊢
        split at h
        · rename_i hclosed
          rw [if_pos hclosed]
          obtain rfl : kind' = kind := Except.ok.inj h
          refine ⟨?_, _, inBrackets_take ho hclosed⟩
          cases hc with
          | name _ => exact Or.inl rfl
          | number _ => exact Or.inr rfl
        · cases h
      cases hstart : isNameStart c with
      | true => exact hcontent (.name hstart)
      | false =>
          cases hdigit : c.isDigit with
          | true => exact hcontent (.number hdigit)
          | false =>
              have hnone : bracketLexeme o (c :: cs) = ⟨.error (.badBracketContent o (some c)), 1⟩ :=
                bracketLexeme_of_no_content o ⟨hstart, hdigit⟩
              rw [hnone] at h
              cases h

/-- A word in brackets is a name or an address, and no other word is an address. -/
theorem lexeme_inBrackets {cs : List Char} {kind : TokenKind}
    (h : (lexeme cs).outcome = .ok kind) :
    ((kind = .identifier ∨ kind = .address) ∧
        ∃ inner, InBrackets inner (cs.take (lexeme cs).length)) ∨
      kind ≠ .address ∧ ∀ inner, ¬ InBrackets inner (cs.take (lexeme cs).length) := by
  cases cs with
  | nil =>
      cases h
      refine Or.inr ⟨by decide, ?_⟩
      rintro inner ⟨o, -, htext⟩
      cases htext
  | cons c cs =>
      cases hc : isOpening c with
      | true =>
          rw [lexeme_of_isOpening hc] at h ⊢
          exact Or.inl (bracketLexeme_inBrackets hc h)
      | false =>
          refine Or.inr ⟨?_, ?_⟩
          · rintro rfl
            exact lexeme_ne_address hc cs h
          · rintro inner ⟨o, ho, htext⟩
            have hpos := length_lexeme_pos (List.cons_ne_nil c cs)
            obtain ⟨n, hn⟩ := Nat.exists_eq_succ_of_ne_zero (Nat.ne_of_gt hpos)
            rw [hn, List.take_succ_cons] at htext
            rw [(List.cons.inj htext).1, ho] at hc
            cases hc

theorem Token.word?_ofText {kind : TokenKind} (hkind : kind ≠ .endOfLine ∧ kind ≠ .endOfFile)
    (text : String) (pos : Position) :
    Item.word? (Token.ofText kind text pos) = some (pos, text) := by
  have hends : (kind == .endOfLine || kind == .endOfFile) = false := by
    simp [hkind]
  unfold Token.ofText
  split
  · split
    · exact if_neg (Bool.eq_false_iff.1 hends)
    · rfl
  · exact if_neg (Bool.eq_false_iff.1 hends)

namespace Cursor

theorem word_of_fault {c : Cursor} {cause : Cause} (h : (lexeme c.rest).outcome = .error cause) :
    c.word.1 = .error (.atPosition (c.advance (lexeme c.rest).length).pos cause) := by
  simp only [word]
  rw [h]

theorem word_of_stray {c : Cursor} (h : (lexeme c.rest).outcome = .ok .invalid) :
    let text := String.ofList (c.rest.take (lexeme c.rest).length)
    c.word.1 = .error ⟨.strayCharacter text, Token.spanOf c.pos text, none⟩ := by
  simp only [word]
  rw [h]

theorem word_of_ok {c : Cursor} {kind : TokenKind} (h : (lexeme c.rest).outcome = .ok kind)
    (hkind : kind ≠ .invalid) :
    c.word.1 = Token.ofText kind (String.ofList (c.rest.take (lexeme c.rest).length)) c.pos := by
  have hlexeme : lexeme c.rest = ⟨.ok kind, (lexeme c.rest).length⟩ := by
    rw [← h]
  exact congrArg Prod.fst (word_of_lexeme hlexeme hkind)

/-- A word with its text, or a fault. -/
theorem word_cases {b : Cursor} (hne : b.rest ≠ []) :
    ((lexeme b.rest).isWord = true ∧
        b.word.1.word? = some (b.pos, String.ofList (b.rest.take (lexeme b.rest).length)) ∧
        ∃ kind, (lexeme b.rest).outcome = .ok kind ∧ kind ≠ .invalid) ∨
      (lexeme b.rest).isWord = false ∧ b.word.1.word? = none := by
  cases hl : (lexeme b.rest).outcome with
  | error cause =>
      refine Or.inr ⟨by rw [Lexeme.isWord, hl], ?_⟩
      rw [word_of_fault hl]
      cases cause with
      | malformedNumber text => exact absurd hl lexeme_ne_malformedNumber
      | _ => rfl
  | ok kind =>
      by_cases hinvalid : kind = .invalid
      · subst hinvalid
        refine Or.inr ⟨by rw [Lexeme.isWord, hl]; rfl, ?_⟩
        rw [word_of_stray hl]
        rfl
      · refine Or.inl ⟨?_, ?_, kind, rfl, hinvalid⟩
        · rw [Lexeme.isWord, hl]
          exact bne_iff_ne.2 hinvalid
        · rw [word_of_ok hl hinvalid]
          exact Token.word?_ofText (lexeme_not_endsLine hne hl) _ b.pos

theorem next_of_lineFeed {c : Cursor} (h : c.skipBlanks.rest.head? = some '\n') :
    c.next = c.skipBlanks.lineBreak :=
  if_pos h

theorem next_of_word {c : Cursor} (h : c.skipBlanks.rest.head? ≠ some '\n') :
    c.next = c.skipBlanks.word :=
  if_neg h

theorem stretch_of_lineFeed {c : Cursor} (h : c.skipBlanks.rest.head? = some '\n') :
    c.stretch = c.skipBlanks.rest.take (breakLength false c.skipBlanks.rest) := by
  refine stretch_of_advance ?_
  rw [next_of_lineFeed h]
  rfl

theorem stretch_of_word {c : Cursor} (h : c.skipBlanks.rest.head? ≠ some '\n') :
    c.stretch = c.skipBlanks.rest.take (lexeme c.skipBlanks.rest).length := by
  refine stretch_of_advance ?_
  rw [next_of_word h, word_behind]

/-- A token that ends the source or a line is no word. -/
theorem word?_of_lineFeed {c : Cursor} (h : c.skipBlanks.rest.head? = some '\n') :
    c.next.1.word? = none := by
  rw [next_of_lineFeed h]
  simp only [lineBreak]
  split <;> rfl

theorem skipBlanks_ne_nil {c : Cursor} (h : c.next.1.isEnd = false) : c.skipBlanks.rest ≠ [] := by
  by_cases hfeed : c.skipBlanks.rest.head? = some '\n'
  · intro hnil
    rw [hnil] at hfeed
    cases hfeed
  · rw [next_of_word hfeed] at h
    exact word_end h

/-- The word of a reading is the text that it takes. -/
theorem word?_stretch {c : Cursor} (h : c.next.1.isEnd = false) {pos : Position} {word : String}
    (hword : c.next.1.word? = some (pos, word)) :
    pos = c.skipBlanks.pos ∧ word.toList = c.stretch := by
  by_cases hfeed : c.skipBlanks.rest.head? = some '\n'
  · rw [word?_of_lineFeed hfeed] at hword
    cases hword
  · have hne := skipBlanks_ne_nil h
    rw [stretch_of_word hfeed]
    rw [next_of_word hfeed] at hword
    rcases word_cases hne with ⟨-, hsome, -⟩ | ⟨-, hnone⟩
    · rw [hsome] at hword
      cases hword
      exact ⟨rfl, String.toList_ofList⟩
    · rw [hnone] at hword
      cases hword

end Cursor

/-! ### The text in another spelling -/

section Respell

variable {spell : Position → String → String}

/-- A word and its other spelling are alike, and so is the text that stays. -/
theorem Cursor.alikeTexts_spelled {c : Cursor} (hend : c.next.1.isEnd = false)
    (h : c.next.1.SpelledAlike spell) :
    AlikeTexts c.stretch (c.next.1.spelled spell c.stretch) := by
  unfold Item.spelled
  split
  · rename_i pos word hword
    rw [← (word?_stretch hend hword).2]
    exact (h pos word hword).alikeTexts
  · exact alikeTexts_refl _

theorem Cursor.items_of_not_end {c : Cursor} (hend : c.next.1.isEnd = false) :
    c.items = c.next.1 :: c.next.2.items := by
  rw [items, hend]
  rfl

theorem Cursor.respell_of_not_end {c : Cursor} (hend : c.next.1.isEnd = false) :
    c.respell spell = c.rest.take (blankLength c.rest)
      ++ (c.next.1.spelled spell c.stretch ++ c.next.2.respell spell) := by
  rw [respell, hend]
  rfl

/-- **Texts in two spellings are alike.** -/
theorem Cursor.alikeTexts_respell {c : Cursor} (h : ∀ x ∈ c.items, Item.SpelledAlike spell x) :
    AlikeTexts c.rest (c.respell spell) := by
  induction c using Cursor.items.induct with
  | case1 c hend =>
      rw [respell, if_pos hend]
      exact alikeTexts_refl _
  | case2 c hend ih =>
      rw [Bool.not_eq_true] at hend
      rw [items_of_not_end hend] at h
      obtain ⟨hfirst, hrest⟩ := List.forall_mem_cons.1 h
      rw [respell_of_not_end hend]
      have happend : AlikeTexts (c.rest.take (blankLength c.rest) ++ (c.stretch ++ c.next.2.rest))
          (c.rest.take (blankLength c.rest)
            ++ (c.next.1.spelled spell c.stretch ++ c.next.2.respell spell)) :=
        List.rel_append (alikeTexts_refl _)
          (List.rel_append (alikeTexts_spelled hend hfirst) (ih hrest))
      rwa [rest_eq_stretch] at happend

theorem closingKept_refl (cs : List Char) : ClosingKept cs cs :=
  fun _ _ h => h

theorem ClosingKept.append {cs ds : List Char} (h : ClosingKept cs ds) (gap : List Char) :
    ClosingKept (gap ++ cs) (gap ++ ds) := by
  cases gap with
  | nil => exact h
  | cons c gap => exact fun _ _ hx => hx

/-- No spelling of a word starts with a closing bracket that is not there. -/
theorem Spelling.closingKept {free swap : Bool} {cs ds behind behind' : List Char}
    (h : Spelling free swap cs ds) (hbehind : ClosingKept behind behind') :
    ClosingKept (cs ++ behind) (ds ++ behind') := by
  cases h with
  | letters h =>
      cases cs with
      | nil =>
          obtain rfl := List.map_eq_nil_iff.1 h.map_eq.symm
          exact hbehind
      | cons c cs =>
          obtain ⟨d, ds, rfl, hcd, -⟩ := List.map_eq_cons_iff.1 h.map_eq.symm
          intro x hx hd
          obtain rfl : d = x := Option.some.inj hd
          simp only [isClosing, Bool.or_eq_true, beq_iff_eq] at hx
          rcases hx with rfl | rfl
          · rw [eq_of_toUpper_eq (d := ')') (by decide) hcd.symm]
            rfl
          · rw [eq_of_toUpper_eq (d := ']') (by decide) hcd.symm]
            rfl
  | brackets _ _ ho' _ =>
      intro x hx hd
      obtain rfl := Option.some.inj hd
      rcases isOpening_cases ho' with rfl | rfl <;> cases hx

theorem Cursor.closingKept_respell {c : Cursor} (h : ∀ x ∈ c.items, Item.SpelledAlike spell x) :
    ClosingKept c.rest (c.respell spell) := by
  induction c using Cursor.items.induct with
  | case1 c hend =>
      rw [respell, if_pos hend]
      exact closingKept_refl _
  | case2 c hend ih =>
      rw [Bool.not_eq_true] at hend
      rw [items_of_not_end hend] at h
      obtain ⟨hfirst, hrest⟩ := List.forall_mem_cons.1 h
      have hword : ClosingKept (c.stretch ++ c.next.2.rest)
          (c.next.1.spelled spell c.stretch ++ c.next.2.respell spell) := by
        unfold Item.spelled
        split
        · rename_i pos word hword
          rw [← (word?_stretch hend hword).2]
          exact (hfirst pos word hword).closingKept (ih hrest)
        · exact (ih hrest).append _
      have hgap := hword.append (c.rest.take (blankLength c.rest))
      rw [rest_eq_stretch] at hgap
      rwa [respell_of_not_end hend]

/-! ### Reading the text in another spelling -/

/-- A token made from another spelling of its text. -/
theorem Token.respelled_ofText {kind : TokenKind} (hkind : kind ≠ .endOfLine ∧ kind ≠ .endOfFile)
    {text : String} {pos : Position}
    (h : Spelling true true text.toList (spell pos text).toList)
    (hbrackets : (kind = .identifier ∨ kind = .address) ∧ (∃ inner, InBrackets inner text.toList) ∨
      kind ≠ .address ∧ ∀ inner, ¬ InBrackets inner text.toList) :
    Item.Respelled spell (Token.ofText kind text pos) (Token.ofText kind (spell pos text) pos) := by
  have hends : (kind == .endOfLine || kind == .endOfFile) = false := by
    simp [hkind]
  have htoken (value : Option Int) : (⟨kind, spell pos text, pos, value⟩ : Token)
      = Token.respell spell ⟨kind, text, pos, value⟩ :=
    (if_neg (Bool.eq_false_iff.1 hends)).symm
  have hlength : text.length = (spell pos text).length := by
    rw [← String.length_toList, ← String.length_toList, h.length_eq]
  unfold Token.ofText
  rw [h.literal_eq hbrackets]
  split
  · split
    · exact htoken _
    · refine ⟨rfl, ?_⟩
      rw [Token.spanOf, Token.spanOf, hlength]
  · exact htoken _

namespace Cursor

/-- The cursor behind a text that is alike. -/
theorem advance_alike {cs ds : List Char} (h : AlikeTexts cs ds) (behind : List Char)
    (pos : Position) :
    (⟨ds ++ behind, pos⟩ : Cursor).advance cs.length = ⟨behind, pos.after cs⟩ := by
  rw [advance, h.length_eq, List.drop_left, List.take_left, h.after_eq]

/-- The text of a word is written in its other spelling. -/
theorem spelled_of_isWord {b : Cursor} (hne : b.rest ≠ [])
    (hspell : b.word.1.SpelledAlike spell) (hword : (lexeme b.rest).isWord = true) :
    let text := b.rest.take (lexeme b.rest).length
    b.word.1.spelled spell text = (spell b.pos (String.ofList text)).toList ∧
      Spelling true true text (b.word.1.spelled spell text) := by
  intro text
  rcases word_cases hne with ⟨-, hsome, -⟩ | ⟨hnot, -⟩
  · have hspelled : b.word.1.spelled spell text = (spell b.pos (String.ofList text)).toList := by
      rw [Item.spelled, hsome]
    have hspelling := hspell _ _ hsome
    rw [String.toList_ofList] at hspelling
    exact ⟨hspelled, hspelled ▸ hspelling⟩
  · rw [hnot] at hword
    cases hword

/-- What is no word is written as it was. -/
theorem spelled_of_not_isWord {b : Cursor} (hne : b.rest ≠ [])
    (hword : (lexeme b.rest).isWord = false) (text : List Char) :
    b.word.1.spelled spell text = text := by
  rcases word_cases hne with ⟨his, -⟩ | ⟨-, hnone⟩
  · rw [his] at hword
    cases hword
  · rw [Item.spelled, hnone]

/-- One word in another spelling, with another text behind it. -/
theorem respelled_word {b : Cursor} (hne : b.rest ≠ []) (hfeed : b.rest.head? ≠ some '\n')
    (hspell : b.word.1.SpelledAlike spell) {behind : List Char}
    (hbehind : AlikeTexts (b.rest.drop (lexeme b.rest).length) behind)
    (hclosing : ClosingKept (b.rest.drop (lexeme b.rest).length) behind) :
    let text := b.rest.take (lexeme b.rest).length
    let d : Cursor := ⟨b.word.1.spelled spell text ++ behind, b.pos⟩
    Item.Respelled spell b.word.1 d.word.1 ∧ d.word.2 = ⟨behind, b.word.2.pos⟩ := by
  intro text d
  obtain ⟨ws, hws⟩ : ∃ ws, b.word.1.spelled spell text = ws := ⟨_, rfl⟩
  have hd : d = ⟨ws ++ behind, b.pos⟩ := by rw [← hws]
  have hword (hisWord : (lexeme b.rest).isWord = true) :
      ws = (spell b.pos (String.ofList text)).toList ∧ Spelling true true text ws :=
    hws ▸ spelled_of_isWord hne hspell hisWord
  have hfault (hisWord : (lexeme b.rest).isWord = false) : ws = text :=
    hws ▸ spelled_of_not_isWord hne hisWord text
  have halike : AlikeTexts text ws := by
    cases hisWord : (lexeme b.rest).isWord with
    | true => exact (hword hisWord).2.alikeTexts
    | false => exact hfault hisWord ▸ alikeTexts_refl _
  have hwidth : text.length = (lexeme b.rest).length := by
    rw [List.length_take, Nat.min_eq_left (length_lexeme_le hne hfeed)]
  obtain ⟨hlength, houtcome⟩ : Lexeme.SameUnless True (lexeme b.rest) (lexeme d.rest) := by
    rw [hd]
    exact lexeme_respelled hne hbehind hclosing (fun h => (hword h).2) hfault
  have htake : d.rest.take (lexeme d.rest).length = ws := by
    rw [← hlength, ← hwidth, halike.length_eq, hd, List.take_left]
  have hadvance : d.advance (lexeme d.rest).length = ⟨behind, b.word.2.pos⟩ := by
    rw [← hlength, ← hwidth, hd, advance_alike halike, word_behind]
    rfl
  refine ⟨?_, by rw [word_behind, hadvance]⟩
  have herrors {e f : Cause} (he : (lexeme b.rest).outcome = .error e)
      (hf : (lexeme d.rest).outcome = .error f) (hkind : e.kind = f.kind) :
      Item.Respelled spell b.word.1 d.word.1 := by
    rw [word_of_fault he, word_of_fault hf, hadvance, word_behind]
    exact ⟨hkind, rfl⟩
  rcases houtcome with hsame | ⟨-, e, f, he, hf, hkind⟩
  · cases hl : (lexeme b.rest).outcome with
    | error cause => exact herrors hl (hsame ▸ hl) rfl
    | ok kind =>
        by_cases hinvalid : kind = .invalid
        · subst hinvalid
          have hisWord : (lexeme b.rest).isWord = false := by
            rw [Lexeme.isWord, hl]
            rfl
          rw [word_of_stray hl, word_of_stray (hsame ▸ hl), htake, hfault hisWord, hd]
          exact ⟨rfl, rfl⟩
        · have hisWord : (lexeme b.rest).isWord = true := by
            rw [Lexeme.isWord, hl]
            exact bne_iff_ne.2 hinvalid
          obtain ⟨hspelled, hspelling⟩ := hword hisWord
          rw [word_of_ok hl hinvalid, word_of_ok (hsame ▸ hl) hinvalid, htake, hspelled,
            String.ofList_toList, hd]
          refine Token.respelled_ofText (lexeme_not_endsLine hne hl) ?_ ?_
          · rw [String.toList_ofList, ← hspelled]
            exact hspelling
          · rw [String.toList_ofList]
            exact lexeme_inBrackets hl
  · exact herrors he hf hkind

theorem respelled_of_endsLine {t : Token} (h : t.endsLine = true) :
    Item.Respelled spell (.ok t) (.ok t) :=
  (if_pos h).symm

/-- A line break with another text behind it. -/
theorem respelled_lineBreak {b : Cursor} (hend : b.lineBreak.1.isEnd = false) {behind : List Char}
    (hbehind : AlikeTexts b.lineBreak.2.rest behind) :
    let text := b.rest.take (breakLength false b.rest)
    let d : Cursor := ⟨text ++ behind, b.pos⟩
    Item.Respelled spell b.lineBreak.1 d.lineBreak.1 ∧
      d.lineBreak.2 = ⟨behind, b.lineBreak.2.pos⟩ := by
  intro text d
  have hrest : b.rest.drop (breakLength false b.rest) ≠ [] := by
    intro hnil
    have hlast : b.lineBreak.1 = Token.ofText .endOfFile "\n" b.pos := by
      simp only [lineBreak]
      rw [if_pos (show (b.advance _).rest = [] from hnil)]
    rw [hlast] at hend
    cases hend
  have hwidth : text.length = breakLength false b.rest := by
    have hlt := mt List.drop_eq_nil_iff.2 hrest
    rw [List.length_take, Nat.min_eq_left (by omega)]
  have halike : AlikeTexts b.rest d.rest := by
    have : AlikeTexts (text ++ b.rest.drop (breakLength false b.rest)) (text ++ behind) :=
      List.rel_append (alikeTexts_refl text) hbehind
    rwa [List.take_append_drop] at this
  have hadvance : d.advance (breakLength false d.rest) = ⟨behind, b.lineBreak.2.pos⟩ := by
    rw [← halike.breakLength_eq, ← hwidth, advance_alike (alikeTexts_refl text)]
    rfl
  have hbehind' : behind ≠ [] := by
    rintro rfl
    exact hrest (List.forall₂_nil_right_iff.1 hbehind)
  refine ⟨?_, hadvance⟩
  simp only [lineBreak]
  rw [hadvance, if_neg hbehind', if_neg (show (b.advance _).rest ≠ [] from hrest)]
  exact respelled_of_endsLine rfl

/-- **One reading of a text in another spelling.** -/
theorem respelled_next {c : Cursor} (hend : c.next.1.isEnd = false)
    (hspell : c.next.1.SpelledAlike spell) {behind : List Char}
    (hbehind : AlikeTexts c.next.2.rest behind) (hclosing : ClosingKept c.next.2.rest behind) :
    let d : Cursor := ⟨c.rest.take (blankLength c.rest)
      ++ (c.next.1.spelled spell c.stretch ++ behind), c.pos⟩
    Item.Respelled spell c.next.1 d.next.1 ∧ d.next.2 = ⟨behind, c.next.2.pos⟩ := by
  intro d
  obtain ⟨gap, hgap⟩ : ∃ gap, c.rest.take (blankLength c.rest) = gap := ⟨_, rfl⟩
  have hwidth : gap.length = blankLength c.rest := by
    rw [← hgap, List.length_take, Nat.min_eq_left (blankLength_le c.rest)]
  have htail : AlikeTexts (c.stretch ++ c.next.2.rest)
      (c.next.1.spelled spell c.stretch ++ behind) :=
    List.rel_append (alikeTexts_spelled hend hspell) hbehind
  have halike : AlikeTexts c.rest d.rest := by
    have : AlikeTexts (c.rest.take (blankLength c.rest) ++ (c.stretch ++ c.next.2.rest)) d.rest :=
      List.rel_append (alikeTexts_refl _) htail
    rwa [rest_eq_stretch] at this
  have hskip : d.skipBlanks
      = ⟨c.next.1.spelled spell c.stretch ++ behind, c.skipBlanks.pos⟩ := by
    rw [skipBlanks, ← halike.blankLength_eq, ← hwidth]
    change (⟨c.rest.take (blankLength c.rest) ++ _, c.pos⟩ : Cursor).advance _ = _
    rw [hgap, advance_alike (alikeTexts_refl gap), ← hgap]
    rfl
  rw [stretch_append] at htail
  have hfeeds := AlikeTexts.head?_eq_some_iff htail (x := '\n') (by decide)
  by_cases hfeed : c.skipBlanks.rest.head? = some '\n'
  · have hfeed' : d.skipBlanks.rest.head? = some '\n' := by
      rw [hskip]
      exact hfeeds.1 hfeed
    have hspelled : c.next.1.spelled spell c.stretch = c.stretch := by
      rw [Item.spelled, word?_of_lineFeed hfeed]
    rw [next_of_lineFeed hfeed', hskip, hspelled, stretch_of_lineFeed hfeed]
    rw [next_of_lineFeed hfeed] at hend hbehind ⊢
    exact respelled_lineBreak hend hbehind
  · have hne := skipBlanks_ne_nil hend
    have hfeed' : d.skipBlanks.rest.head? ≠ some '\n' := by
      rw [hskip]
      exact mt hfeeds.2 hfeed
    rw [next_of_word hfeed', hskip, stretch_of_word hfeed]
    rw [next_of_word hfeed] at hspell hbehind hclosing ⊢
    rw [word_behind] at hbehind hclosing
    exact respelled_word hne hfeed hspell hbehind hclosing

theorem respelled_of_isEnd {item : Item} (h : item.isEnd = true) :
    Item.Respelled spell item item := by
  cases item with
  | error e => cases h
  | ok t =>
      refine respelled_of_endsLine ?_
      rw [Token.endsLine, Bool.or_eq_true]
      exact Or.inr h

theorem respelled_isEnd {item item' : Item} (h : Item.Respelled spell item item') :
    item'.isEnd = item.isEnd := by
  rcases h.cases with ⟨t, u, rfl, rfl, rfl⟩ | ⟨e, f, rfl, rfl, -⟩
  · unfold Token.respell
    split <;> rfl
  · rfl

/-- **A text in another spelling is read as the same words**: each has the other spelling for its
text and is at the same place, and what is no word is the same fault at the same place. -/
theorem respelled_items {c : Cursor} (h : ∀ x ∈ c.items, Item.SpelledAlike spell x) :
    List.Forall₂ (Item.Respelled spell) c.items (⟨c.respell spell, c.pos⟩ : Cursor).items := by
  induction c using Cursor.items.induct with
  | case1 c hend =>
      rw [respell, if_pos hend, items, if_pos hend]
      exact .cons (respelled_of_isEnd hend) .nil
  | case2 c hend ih =>
      rw [Bool.not_eq_true] at hend
      rw [items_of_not_end hend] at h
      obtain ⟨hfirst, hrest⟩ := List.forall_mem_cons.1 h
      obtain ⟨hitem, hbehind⟩ := respelled_next hend hfirst (alikeTexts_respell hrest)
        (closingKept_respell hrest)
      rw [← respell_of_not_end hend] at hitem hbehind
      have hend' : (⟨c.respell spell, c.pos⟩ : Cursor).next.1.isEnd = false := by
        rw [respelled_isEnd hitem, hend]
      rw [items_of_not_end hend, items_of_not_end hend', hbehind]
      exact .cons hitem (ih hrest)

end Cursor

end Respell

end GameBoyAssembler
