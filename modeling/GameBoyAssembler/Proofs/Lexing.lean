import Mathlib.Data.List.Forall2
import GameBoyAssembler.Token.Line
import GameBoyAssembler.Proofs.Numerals

/-!
# Text that is read as given tokens

A token ends where a character follows that cannot be part of it.  A space, a comma and a line feed
are such characters for every token, so a text made of tokens with these between them is read as
those tokens, whatever stands behind it.

Main definitions:

* `Delimited` — a text in front of which every token ends;
* `Word`, `Token.word` — a token without its place;
* `Word.IsRead` — the text of the word is read as the word;
* `Line.textOf`, `Line.Holds` — the text of a line of words, and a line that holds words.

Main results:

* `Word.isRead_name`, `Word.isRead_number`, `Word.isRead_address` and the like — the texts that are
  read as one token;
* `Cursor.items_spaced` — reading words up to the end of their line;
* `Line.holds_of_text` — a text of lines of words is read as these lines.
-/

set_option relaxedAutoImplicit false
set_option autoImplicit false

namespace GameBoyAssembler

/-! ### Where a token ends -/

/-- A text that is empty or starts with a space, a comma or a line feed. -/
def Delimited (rest : List Char) : Prop :=
  ∀ c, rest.head? = some c → c = ' ' ∨ c = ',' ∨ c = '\n'

/-- No character of a class stands in front, if no delimiter is in the class. -/
theorem Delimited.head_not {rest : List Char} (h : Delimited rest) {p : Char → Bool}
    (hp : p ' ' = false ∧ p ',' = false ∧ p '\n' = false) :
    ∀ c, rest.head? = some c → p c = false := by
  intro c hc
  rcases h c hc with rfl | rfl | rfl
  · exact hp.1
  · exact hp.2.1
  · exact hp.2.2

/-- A run ends in front of the first character outside of its class. -/
theorem runLength_append {p : Char → Bool} {cs rest : List Char} (hcs : ∀ c ∈ cs, p c = true)
    (hrest : ∀ c, rest.head? = some c → p c = false) : runLength p (cs ++ rest) = cs.length := by
  have htake : rest.takeWhile p = [] := by
    cases rest with
    | nil => rfl
    | cons c rest => rw [List.takeWhile_cons, hrest c rfl]; rfl
  rw [runLength, List.takeWhile_append_of_pos hcs, htake, List.append_nil]

theorem Delimited.runLength_isNameChar {rest : List Char} (h : Delimited rest) {cs : List Char}
    (hcs : ∀ c ∈ cs, isNameChar c = true) : runLength isNameChar (cs ++ rest) = cs.length :=
  runLength_append hcs (h.head_not (by decide))

theorem Delimited.runLength_cons {rest : List Char} (h : Delimited rest) {c : Char} {cs : List Char}
    (hc : isNameChar c = true) (hcs : ∀ d ∈ cs, isNameChar d = true) :
    runLength isNameChar (c :: (cs ++ rest)) = cs.length + 1 :=
  h.runLength_isNameChar (List.forall_mem_cons.2 ⟨hc, hcs⟩)

/-! ### Classes of characters -/

theorem isDigit_iff {c : Char} : c.isDigit = true ↔ 48 ≤ c.toNat ∧ c.toNat ≤ 57 := by
  simp [Char.isDigit, UInt32.le_iff_toNat_le]

theorem isNameStart_iff {c : Char} : isNameStart c = true ↔
    (65 ≤ c.toNat ∧ c.toNat ≤ 90) ∨ (97 ≤ c.toNat ∧ c.toNat ≤ 122) ∨ c = '_' := by
  have halpha : c.isAlpha = (c.isUpper || c.isLower) := rfl
  have hupper : c.isUpper = decide (c.val ≥ 'A'.val ∧ c.val ≤ 'Z'.val) := rfl
  have hlower : c.isLower = (decide (c.val ≥ 'a'.val) && decide (c.val ≤ 'z'.val)) := rfl
  simp [isNameStart, halpha, hupper, hlower, UInt32.le_iff_toNat_le, or_assoc]

theorem isNameChar_of_isNameStart {c : Char} (h : isNameStart c = true) : isNameChar c = true := by
  simp only [isNameStart, isNameChar, Char.isAlphanum, Bool.or_eq_true] at h ⊢
  exact h.imp_left Or.inl

theorem isNameChar_of_isDigit {c : Char} (h : c.isDigit = true) : isNameChar c = true := by
  simp [isNameChar, Char.isAlphanum, h]

theorem isDigit_of_isNameStart {c : Char} (h : isNameStart c = true) : c.isDigit = false := by
  rw [Bool.eq_false_iff]
  intro hd
  rcases isNameStart_iff.1 h with h | h | rfl
  · have := isDigit_iff.1 hd
    omega
  · have := isDigit_iff.1 hd
    omega
  · cases hd

/-- The digits of every base are characters of names. -/
theorem isNameChar_of_digitValue? {radix : Nat} {c : Char} (h : (digitValue? radix c).isSome) :
    isNameChar c = true := by
  have hc : ('0' ≤ c ∧ c ≤ '9') ∨ ('a' ≤ c ∧ c ≤ 'f') ∨ ('A' ≤ c ∧ c ≤ 'F') := by
    by_cases h₁ : '0' ≤ c ∧ c ≤ '9'
    · exact Or.inl h₁
    by_cases h₂ : 'a' ≤ c ∧ c ≤ 'f'
    · exact Or.inr (Or.inl h₂)
    by_cases h₃ : 'A' ≤ c ∧ c ≤ 'F'
    · exact Or.inr (Or.inr h₃)
    simp [digitValue?, h₁, h₂, h₃] at h
  simp only [Char.le_def, UInt32.le_iff_toNat_le] at hc
  rcases hc with hc | hc | hc
  · exact isNameChar_of_isDigit (isDigit_iff.2 hc)
  · refine isNameChar_of_isNameStart (isNameStart_iff.2 (Or.inr (Or.inl ⟨hc.1, ?_⟩)))
    exact Nat.le_trans hc.2 (by decide)
  · refine isNameChar_of_isNameStart (isNameStart_iff.2 (Or.inl ⟨hc.1, ?_⟩))
    exact Nat.le_trans hc.2 (by decide)

/-! ### The first character decides -/

theorem ne_of_class {p : Char → Bool} {c d : Char} (hc : p c = true) (hd : p d = false) :
    c ≠ d := by
  rintro rfl
  rw [hc] at hd
  cases hd

section FirstCharacter

variable {c : Char} (cs : List Char)

theorem lexeme_of_isDigit (hc : c.isDigit = true) :
    lexeme (c :: cs) = ⟨.ok .number, runLength isNameChar cs + 1⟩ := by
  have hne (d : Char) (hd : d.isDigit = false) : c ≠ d := ne_of_class hc hd
  simp [lexeme, hne ',' rfl, hne '.' rfl, hne '(' rfl, hne '[' rfl, hc]

theorem lexeme_of_isSign (hc : isSign c = true) {d : Char} (hd : d.isDigit = true) :
    lexeme (c :: d :: cs) = ⟨.ok .number, runLength isNameChar (d :: cs) + 1⟩ := by
  have hne (d : Char) (hd : isSign d = false) : c ≠ d := ne_of_class hc hd
  have hdigit : c.isDigit = false := by
    rw [isSign, Bool.or_eq_true, beq_iff_eq, beq_iff_eq] at hc
    rcases hc with rfl | rfl
    · rfl
    · rfl
  simp [lexeme, hne ',' rfl, hne '.' rfl, hne '(' rfl, hne '[' rfl, hdigit, hc, hd]

theorem lexeme_of_isNameStart (hc : isNameStart c = true) :
    lexeme (c :: cs) = nameLexeme (runLength isNameChar (c :: cs)) (c :: cs) := by
  have hne (d : Char) (hd : isNameStart d = false) : c ≠ d := ne_of_class hc hd
  simp [lexeme, hne ',' rfl, hne '.' rfl, hne '(' rfl, hne '[' rfl, hne '+' rfl, hne '-' rfl,
    isSign, isDigit_of_isNameStart hc, hc]

end FirstCharacter

/-! ### The lexeme of a text in front of a delimiter -/

section Words

variable {rest : List Char} (hrest : Delimited rest) {c : Char} {cs : List Char}
include hrest

theorem lexeme_name (hc : isNameStart c = true) (hcs : ∀ d ∈ cs, isNameChar d = true) :
    lexeme (c :: cs ++ rest) = ⟨.ok .identifier, (c :: cs).length⟩ := by
  have hrun : runLength isNameChar (c :: (cs ++ rest)) = (c :: cs).length :=
    hrest.runLength_cons (isNameChar_of_isNameStart hc) hcs
  rw [List.cons_append, lexeme_of_isNameStart _ hc, hrun]
  have hdrop : (c :: (cs ++ rest)).drop (c :: cs).length = rest := by
    rw [← List.cons_append, List.drop_left]
  -- a delimiter is neither the sign of an offset nor the colon of a label
  have hsign := hrest.head_not (p := isSign) (by decide)
  have hcolon := hrest.head_not (p := (· == ':')) (by decide)
  rw [nameLexeme, hdrop]
  cases rest with
  | nil => rfl
  | cons r rest =>
      have hs : isSign r = false := hsign r rfl
      have hr : r ≠ ':' := by simpa using hcolon r rfl
      cases rest with
      | nil => simp [hr]
      | cons d rest => simp [hs, hr]

theorem lexeme_number (hc : c.isDigit = true) (hcs : ∀ d ∈ cs, isNameChar d = true) :
    lexeme (c :: cs ++ rest) = ⟨.ok .number, (c :: cs).length⟩ := by
  rw [List.cons_append, lexeme_of_isDigit _ hc, hrest.runLength_isNameChar hcs, List.length_cons]

theorem lexeme_signed {sign : Char} (hsign : isSign sign = true) (hc : c.isDigit = true)
    (hcs : ∀ d ∈ cs, isNameChar d = true) :
    lexeme (sign :: c :: cs ++ rest) = ⟨.ok .number, (sign :: c :: cs).length⟩ := by
  have hrun : runLength isNameChar (c :: (cs ++ rest)) = (c :: cs).length :=
    hrest.runLength_cons (isNameChar_of_isDigit hc) hcs
  rw [List.cons_append, List.cons_append, lexeme_of_isSign _ hsign hc, hrun]
  rfl

omit hrest in
/-- Behind an opening bracket, a run of characters up to the closing one is a single token. -/
theorem lexeme_bracketed (hc : isNameStart c = true) (hcs : ∀ d ∈ cs, isBracketedChar d = true) :
    lexeme ('(' :: c :: cs ++ ')' :: rest) = ⟨.ok .identifier, (c :: cs).length + 2⟩ := by
  have hall : ∀ d ∈ c :: cs, isBracketedChar d = true := by
    refine List.forall_mem_cons.2 ⟨?_, hcs⟩
    simp [isBracketedChar, isNameChar_of_isNameStart hc]
  have hrun : runLength isBracketedChar (c :: (cs ++ ')' :: rest)) = (c :: cs).length :=
    runLength_append hall (by simp; decide)
  simp [lexeme, bracketLexeme, hc, hrun, closingBracket]

omit hrest in
theorem lexeme_address (hc : c.isDigit = true) (hcs : ∀ d ∈ cs, isNameChar d = true) :
    lexeme ('(' :: c :: cs ++ ')' :: rest) = ⟨.ok .address, (c :: cs).length + 2⟩ := by
  have hall : ∀ d ∈ c :: cs, isNameChar d = true :=
    List.forall_mem_cons.2 ⟨isNameChar_of_isDigit hc, hcs⟩
  have hstart : isNameStart c = false := by
    rw [Bool.eq_false_iff]
    intro h
    rw [isDigit_of_isNameStart h] at hc
    cases hc
  have hrun : runLength isNameChar (c :: (cs ++ ')' :: rest)) = (c :: cs).length :=
    runLength_append hall (by simp; decide)
  simp [lexeme, bracketLexeme, hstart, hc, hrun, closingBracket]

theorem lexeme_spShifted {sign : Char} (hsign : isSign sign = true) (hc : c.isDigit = true)
    (hcs : ∀ d ∈ cs, isNameChar d = true) :
    lexeme ('S' :: 'P' :: sign :: c :: cs ++ rest)
      = ⟨.ok .spShifted, ('S' :: 'P' :: sign :: c :: cs).length⟩ := by
  have hrun : runLength isNameChar (c :: (cs ++ rest)) = (c :: cs).length :=
    hrest.runLength_cons (isNameChar_of_isDigit hc) hcs
  have hname : runLength isNameChar (['S', 'P'] ++ sign :: c :: (cs ++ rest)) = 2 := by
    refine runLength_append (List.all_eq_true.1 rfl) ?_
    rw [isSign, Bool.or_eq_true, beq_iff_eq, beq_iff_eq] at hsign
    rcases hsign with rfl | rfl
    · simp; decide
    · simp; decide
  rw [List.cons_append, lexeme_of_isNameStart _ (by decide)]
  simp only [List.cons_append, List.nil_append] at hname ⊢
  rw [hname]
  simp [nameLexeme, hsign, hc, hrun]
  omega

end Words

/-! ### Cutting brackets off -/

theorem byteSize_append (cs ds : List Char) :
    byteSize (cs ++ ds) = byteSize cs + byteSize ds := by
  induction cs with
  | nil => simp [byteSize]
  | cons c cs ih => simp [byteSize, ih, Nat.add_assoc]

theorem takeBytes?_append (cs ds : List Char) : takeBytes? (byteSize cs) (cs ++ ds) = some cs := by
  induction cs with
  | nil => rw [byteSize, takeBytes?]
  | cons c cs ih =>
      have hpos : 0 < c.utf8Size := c.utf8Size_pos
      obtain ⟨n, hn⟩ : ∃ n, byteSize (c :: cs) = n + 1 := ⟨c.utf8Size + byteSize cs - 1, by
        rw [byteSize]; omega⟩
      have hrest : n + 1 - c.utf8Size = byteSize cs := by
        rw [← hn, byteSize]; omega
      have hle : c.utf8Size ≤ n + 1 := by
        rw [← hn, byteSize]; omega
      rw [hn, List.cons_append, takeBytes?, if_pos hle, hrest, ih]
      rfl

theorem withoutEnds?_ends {a z : Char} (ha : a.utf8Size = 1) (hz : z.utf8Size = 1)
    (cs : List Char) : withoutEnds? (a :: (cs ++ [z])) = some cs := by
  have hsize : byteSize (a :: (cs ++ [z])) = byteSize cs + 2 := by
    rw [byteSize, byteSize_append, byteSize, byteSize, ha, hz]
    omega
  have hdrop : dropBytes? 1 (a :: (cs ++ [z])) = some (cs ++ [z]) := by
    rw [dropBytes?, if_pos (Nat.le_of_eq ha), ha]
    exact dropBytes?.eq_1 _
  rw [withoutEnds?, hsize, if_neg (by omega), hdrop]
  exact takeBytes?_append cs [z]

/-! ### Words -/

/-- A token without its place. -/
structure Word where
  kind : TokenKind
  text : String
  value : Option Int
  deriving DecidableEq, Repr

/-- The word of a token. -/
def Token.word (t : Token) : Word :=
  ⟨t.kind, t.text, t.value⟩

namespace Word

/-- The token of the word at a place. -/
def token (w : Word) (pos : Position) : Token :=
  ⟨w.kind, w.text, pos, w.value⟩

theorem exists_token {w : Word} {t : Token} (h : t.word = w) : ∃ pos, t = w.token pos := by
  subst h
  exact ⟨t.pos, rfl⟩

end Word

/-- The kinds of the tokens that stand inside a line. -/
def TokenKind.isWord : TokenKind → Bool
  | invalid | endOfLine | endOfFile => false
  | _ => true

/-- A character that is none of blank, comment mark and line end. -/
def startsToken (c : Char) : Bool :=
  !isBlank c && c != ';' && c != '\n'

namespace Word

/-- The text of the word, in front of a delimiter, is read as the word. -/
structure IsRead (w : Word) : Prop where
  starts : w.text.toList.head?.any startsToken = true
  isWord : w.kind.isWord = true
  lexeme_append : ∀ rest, Delimited rest →
    lexeme (w.text.toList ++ rest) = ⟨.ok w.kind, w.text.toList.length⟩
  ofText : ∀ pos, Token.ofText w.kind w.text pos = .ok (w.token pos)

theorem IsRead.kind_ne {w : Word} (hw : w.IsRead) {kind : TokenKind}
    (hkind : kind.isWord = false) : w.kind ≠ kind := by
  rintro rfl
  rw [hw.isWord] at hkind
  cases hkind

theorem IsRead.exists_cons {w : Word} (hw : w.IsRead) :
    ∃ a as, w.text.toList = a :: as ∧ startsToken a = true := by
  have hstarts := hw.starts
  cases h : w.text.toList with
  | nil =>
      rw [h] at hstarts
      cases hstarts
  | cons a as =>
      rw [h] at hstarts
      exact ⟨a, as, rfl, hstarts⟩

/-- A name. -/
def name (s : String) : Word := ⟨.identifier, s, none⟩

def comma : Word := ⟨.comma, ",", none⟩

def number (s : String) (v : Int) : Word := ⟨.number, s, some v⟩

/-- A number in brackets. -/
def address (s : String) (v : Int) : Word := ⟨.address, "(" ++ s ++ ")", some v⟩

/-- A signed number behind SP. -/
def spShifted (s : String) (v : Int) : Word := ⟨.spShifted, "SP" ++ s, some v⟩

/-- A character of a class without blanks, comment mark and line end starts a token. -/
theorem startsToken_of_class {p : Char → Bool}
    (hp : [' ', '\t', '\r', ';', '\n'].any p = false) {c : Char} (hc : p c = true) :
    startsToken c = true := by
  have hne : ∀ d ∈ [' ', '\t', '\r', ';', '\n'], c ≠ d := by
    intro d hd
    refine ne_of_class hc ?_
    simpa using List.any_eq_false.1 hp d hd
  simp only [List.mem_cons, List.not_mem_nil, or_false, forall_eq_or_imp, forall_eq] at hne
  simp [startsToken, isBlank, hne]

section IsRead

variable {s : String} {c : Char} {cs : List Char}

theorem isRead_name (hs : s.toList = c :: cs) (hc : isNameStart c = true)
    (hcs : cs.all isNameChar = true) : (name s).IsRead where
  starts := by simp [name, hs, startsToken_of_class (p := isNameStart) rfl hc]
  isWord := rfl
  lexeme_append rest hrest := by
    rw [name, hs]
    exact lexeme_name hrest hc (List.all_eq_true.1 hcs)
  ofText _ := rfl

/-- A name in brackets, which may hold signs. -/
theorem isRead_bracketed (c : Char) (cs : List Char) (hs : s.toList = '(' :: c :: cs ++ [')'])
    (hc : isNameStart c = true) (hcs : cs.all isBracketedChar = true) : (name s).IsRead where
  starts := by simp [name, hs]; decide
  isWord := rfl
  lexeme_append rest hrest := by
    have h : s.toList ++ rest = '(' :: c :: cs ++ ')' :: rest := by simp [hs]
    rw [name, h, lexeme_bracketed hc (List.all_eq_true.1 hcs)]
    simp [hs]
  ofText _ := rfl

theorem isRead_comma : comma.IsRead where
  starts := by decide
  isWord := rfl
  lexeme_append rest _ := by simp [comma, lexeme]
  ofText _ := rfl

/-- A token of a number kind is made if its text holds a numeral. -/
theorem ofText_numeric {kind : TokenKind} (hkind : kind.isNumeric = true) {ds : List Char}
    (hds : literalPart? kind s.toList = some ds) {v : Int} (hv : numeral? ds = some v)
    (pos : Position) : Token.ofText kind s pos = .ok (token ⟨kind, s, some v⟩ pos) := by
  simp [Token.ofText, hkind, hds, hv, token]

theorem isRead_number (hs : s.toList = c :: cs) (hc : c.isDigit = true)
    (hcs : cs.all isNameChar = true) {v : Int} (hv : numeral? (c :: cs) = some v) :
    (number s v).IsRead where
  starts := by simp [number, hs, startsToken_of_class (p := Char.isDigit) rfl hc]
  isWord := rfl
  lexeme_append rest hrest := by
    rw [number, hs]
    exact lexeme_number hrest hc (List.all_eq_true.1 hcs)
  ofText := ofText_numeric rfl (hs ▸ rfl) hv

theorem isRead_signed {sign : Char} (hs : s.toList = sign :: c :: cs) (hsign : isSign sign = true)
    (hc : c.isDigit = true) (hcs : cs.all isNameChar = true) {v : Int}
    (hv : numeral? (sign :: c :: cs) = some v) : (number s v).IsRead where
  starts := by simp [number, hs, startsToken_of_class (p := isSign) rfl hsign]
  isWord := rfl
  lexeme_append rest hrest := by
    rw [number, hs]
    exact lexeme_signed hrest hsign hc (List.all_eq_true.1 hcs)
  ofText := ofText_numeric rfl (hs ▸ rfl) hv

theorem isRead_address (hs : s.toList = c :: cs) (hc : c.isDigit = true)
    (hcs : cs.all isNameChar = true) {v : Int} (hv : numeral? (c :: cs) = some v) :
    (address s v).IsRead where
  starts := by simp [address]; decide
  isWord := rfl
  lexeme_append rest hrest := by
    have h : ("(" ++ s ++ ")").toList ++ rest = '(' :: c :: cs ++ ')' :: rest := by simp [hs]
    rw [address, h, lexeme_address hc (List.all_eq_true.1 hcs)]
    simp [hs]
  ofText := by
    refine ofText_numeric rfl ?_ hv
    have h : ("(" ++ s ++ ")").toList = '(' :: (c :: cs ++ [')']) := by simp [hs]
    rw [address, h]
    exact withoutEnds?_ends rfl rfl (c :: cs)

theorem isRead_spShifted {sign : Char} (hs : s.toList = sign :: c :: cs)
    (hsign : isSign sign = true) (hc : c.isDigit = true) (hcs : cs.all isNameChar = true)
    {v : Int} (hv : numeral? (sign :: c :: cs) = some v) : (spShifted s v).IsRead where
  starts := by simp [spShifted]; decide
  isWord := rfl
  lexeme_append rest hrest := by
    have h : ("SP" ++ s).toList = 'S' :: 'P' :: sign :: c :: cs := by simp [hs]
    rw [spShifted, h]
    exact lexeme_spShifted hrest hsign hc (List.all_eq_true.1 hcs)
  ofText := by
    refine ofText_numeric rfl ?_ hv
    have h : ("SP" ++ s).toList = 'S' :: 'P' :: sign :: c :: cs := by simp [hs]
    rw [spShifted, h]
    rfl

end IsRead

end Word

/-! ### Reading a word -/

theorem blankLength_append {blanks cs : List Char} (hblanks : ∀ b ∈ blanks, isBlank b = true)
    (hcs : cs.head?.any startsToken = true) : blankLength (blanks ++ cs) = blanks.length := by
  cases cs with
  | nil => cases hcs
  | cons a cs =>
      have ha : startsToken a = true := hcs
      simp only [startsToken, Bool.and_eq_true, Bool.not_eq_true', bne_iff_ne] at ha
      have hrun : runLength isBlank (blanks ++ a :: cs) = blanks.length :=
        runLength_append hblanks (by simp [ha.1.1])
      rw [blankLength, hrun, List.drop_left]
      split
      · rename_i heq
        exact absurd (List.cons.inj heq).1 ha.1.2
      · rfl

namespace Cursor

theorem word_of_lexeme {c : Cursor} {kind : TokenKind} {n : Nat}
    (h : lexeme c.rest = ⟨.ok kind, n⟩) (hkind : kind ≠ .invalid) :
    c.word = (Token.ofText kind (String.ofList (c.rest.take n)) c.pos, c.advance n) := by
  rw [word, h]
  cases kind <;> first | rfl | exact absurd rfl hkind

/-- Reading a word behind blanks. -/
theorem next_word {w : Word} (hw : w.IsRead) {c : Cursor} {blanks rest : List Char}
    (hblanks : ∀ b ∈ blanks, isBlank b = true) (hrest : Delimited rest)
    (hc : c.rest = blanks ++ (w.text.toList ++ rest)) :
    ∃ t : Token, t.word = w ∧ c.next.1 = .ok t ∧ c.next.2.rest = rest := by
  have hstarts : (w.text.toList ++ rest).head?.any startsToken = true := by
    obtain ⟨a, as, hs, ha⟩ := hw.exists_cons
    rw [hs]
    exact ha
  have hskip : c.skipBlanks.rest = w.text.toList ++ rest := by
    rw [skipBlanks, rest_advance, hc, blankLength_append hblanks hstarts, List.drop_left]
  have hnl : c.skipBlanks.rest.head? ≠ some '\n' := by
    intro h
    rw [← hskip, h] at hstarts
    cases hstarts
  have hword : c.skipBlanks.word = (.ok (w.token c.skipBlanks.pos),
      c.skipBlanks.advance w.text.toList.length) := by
    have hlexeme := hw.lexeme_append rest hrest
    rw [← hskip] at hlexeme
    rw [word_of_lexeme hlexeme (hw.kind_ne rfl), hskip, List.take_left, String.ofList_toList,
      hw.ofText]
  refine ⟨w.token c.skipBlanks.pos, rfl, ?_, ?_⟩
  · rw [next, if_neg hnl, hword]
  · rw [next, if_neg hnl, hword, rest_advance, hskip, List.drop_left]

theorem items_of_next {c : Cursor} {t : Token} (h : c.next.1 = .ok t)
    (ht : t.kind ≠ .endOfFile) : c.items = .ok t :: c.next.2.items := by
  have hend : c.next.1.isEnd = false := by simp [h, Item.isEnd, ht]
  rw [items, hend, h]
  rfl

theorem items_of_next_end {c : Cursor} {t : Token} (h : c.next.1 = .ok t)
    (ht : t.kind = .endOfFile) : c.items = [.ok t] := by
  have hend : c.next.1.isEnd = true := by simp [h, Item.isEnd, ht]
  rw [items, hend, h]
  rfl

theorem items_word {w : Word} (hw : w.IsRead) {c : Cursor} {blanks rest : List Char}
    (hblanks : ∀ b ∈ blanks, isBlank b = true) (hrest : Delimited rest)
    (hc : c.rest = blanks ++ (w.text.toList ++ rest)) :
    ∃ (t : Token) (d : Cursor), t.word = w ∧ d.rest = rest ∧ c.items = .ok t :: d.items := by
  obtain ⟨t, htw, hnext, hbehind⟩ := next_word hw hblanks hrest hc
  subst htw
  exact ⟨t, c.next.2, rfl, hbehind, items_of_next hnext (hw.kind_ne rfl)⟩

end Cursor

/-! ### Words between blanks and commas -/

/-- A word as it stands behind others: a comma follows at once, anything else behind a space. -/
def Word.spacedText (w : Word) : List Char :=
  if w = .comma then [','] else ' ' :: w.text.toList

/-- Words as they stand behind others. -/
def spaced (ws : List Word) : List Char :=
  ws.flatMap Word.spacedText

theorem Delimited.spaced_append {rest : List Char} (h : Delimited rest) (ws : List Word) :
    Delimited (spaced ws ++ rest) := by
  cases ws with
  | nil => exact h
  | cons w ws =>
      intro c hc
      by_cases hw : w = .comma
      · simp [spaced, Word.spacedText, hw] at hc
        exact Or.inr (Or.inl hc.symm)
      · simp [spaced, Word.spacedText, hw] at hc
        exact Or.inl hc.symm

/-- **Spaced words are read as these words**, and reading goes on behind them. -/
theorem Cursor.items_spaced {ws : List Word} (hws : ∀ w ∈ ws, w.IsRead) {rest : List Char}
    (hrest : Delimited rest) {c : Cursor} (hc : c.rest = spaced ws ++ rest) :
    ∃ (ts : List Token) (d : Cursor), ts.map Token.word = ws ∧ d.rest = rest ∧
      c.items = ts.map Except.ok ++ d.items := by
  induction ws generalizing c with
  | nil => exact ⟨[], c, rfl, hc, rfl⟩
  | cons w ws ih =>
      obtain ⟨hw, hws⟩ := List.forall_mem_cons.1 hws
      have hbehind := hrest.spaced_append ws
      obtain ⟨blanks, hblanks, hc'⟩ : ∃ blanks : List Char, (∀ b ∈ blanks, isBlank b = true) ∧
          c.rest = blanks ++ (w.text.toList ++ (spaced ws ++ rest)) := by
        by_cases hcomma : w = .comma
        · exact ⟨[], by simp, by simp [hc, spaced, Word.spacedText, hcomma, Word.comma]⟩
        · exact ⟨[' '], List.all_eq_true.1 rfl, by simp [hc, spaced, Word.spacedText, hcomma]⟩
      obtain ⟨t, d, htw, hd, hitems⟩ := Cursor.items_word hw hblanks hbehind hc'
      obtain ⟨ts, d', hts, hd', hitems'⟩ := ih hws hd
      exact ⟨t :: ts, d', by simp [htw, hts], hd', by simp [hitems, hitems']⟩

/-! ### Lines -/

/-- In front of a token a line break takes the line feed alone. -/
theorem breakLength_lineFeed {rest : List Char} (h : rest.head?.all startsToken = true) :
    breakLength false ('\n' :: rest) = 1 := by
  cases rest with
  | nil => rfl
  | cons a rest =>
      have ha : startsToken a = true := h
      simp only [startsToken, Bool.and_eq_true, Bool.not_eq_true', bne_iff_ne] at ha
      simp [breakLength, ha.1.1, ha.1.2, ha.2]

theorem Cursor.next_lineFeed {rest : List Char} (hrest : rest.head?.all startsToken = true)
    {c : Cursor} (hc : c.rest = '\n' :: rest) :
    ∃ t : Token, t.kind = (if rest = [] then .endOfFile else .endOfLine) ∧
      c.next.1 = .ok t ∧ c.next.2.rest = rest := by
  have hskip : c.skipBlanks.rest = '\n' :: rest := by
    rw [skipBlanks, rest_advance, hc]
    rfl
  have hbreak : c.next = c.skipBlanks.lineBreak := by
    rw [next, hskip]
    rfl
  have hbehind : (c.skipBlanks.advance (breakLength false c.skipBlanks.rest)).rest = rest := by
    rw [rest_advance, hskip, breakLength_lineFeed hrest]
    rfl
  rw [hbreak, lineBreak]
  simp only [hbehind]
  by_cases h : rest = []
  · simp only [if_pos h]
    exact ⟨_, rfl, rfl, trivial⟩
  · simp only [if_neg h]
    exact ⟨_, rfl, rfl, trivial⟩

namespace Line

/-- The text of a line of words. -/
def textOf : List Word → List Char
  | [] => ['\n']
  | w :: ws => w.text.toList ++ (spaced ws ++ ['\n'])

/-- The line holds the words and no lexical error. -/
def Holds (l : Line) (ws : List Word) : Prop :=
  ∃ ts : List Token, ts.map Token.word = ws ∧ l.items = ts.map Except.ok

theorem ofItems_append {ts : List Token} (hts : ∀ t ∈ ts, t.endsLine = false) {stop : Token}
    (hstop : stop.endsLine = true) (items : List Item) :
    ofItems (ts.map Except.ok ++ .ok stop :: items)
      = ⟨ts.map Except.ok, stop⟩ :: ofItems items := by
  induction ts with
  | nil => simp [ofItems, hstop]
  | cons t ts ih =>
      obtain ⟨ht, hts⟩ := List.forall_mem_cons.1 hts
      simp [ofItems, ht, ih hts, consItem]

theorem endsLine_of_isRead {t : Token} (ht : t.word.IsRead) : t.endsLine = false := by
  have hline : t.kind ≠ .endOfLine := ht.kind_ne rfl
  have hfile : t.kind ≠ .endOfFile := ht.kind_ne rfl
  simp [Token.endsLine, hline, hfile]

/-- Reading one line of words: if nothing follows the source ends with it. -/
theorem ofItems_line {ws : List Word} (hne : ws ≠ []) (hws : ∀ w ∈ ws, w.IsRead)
    {rest : List Char} (hrest : rest.head?.all startsToken = true) {c : Cursor}
    (hc : c.rest = textOf ws ++ rest) :
    ∃ (l : Line) (d : Cursor), l.Holds ws ∧ d.rest = rest ∧
      ofItems c.items = l :: if rest = [] then [] else ofItems d.items := by
  cases ws with
  | nil => exact absurd rfl hne
  | cons w ws =>
      have hlf : Delimited ('\n' :: rest) := by
        intro a ha
        exact Or.inr (Or.inr (Option.some.inj ha).symm)
      have hc' : c.rest = [] ++ (w.text.toList ++ (spaced ws ++ '\n' :: rest)) := by
        simp [hc, textOf]
      -- the first word has no blank in front, the others follow spaced, and the line feed ends them
      obtain ⟨hw, htail⟩ := List.forall_mem_cons.1 hws
      obtain ⟨t, c₁, ht, hc₁, hitems⟩ :=
        Cursor.items_word hw (by simp) (hlf.spaced_append ws) hc'
      obtain ⟨ts, c₂, hts, hc₂, hitems'⟩ := Cursor.items_spaced htail hlf hc₁
      obtain ⟨stop, hstop, hnext, hbehind⟩ := Cursor.next_lineFeed hrest hc₂
      have hholds : (t :: ts).map Token.word = w :: ws := by simp [ht, hts]
      have hinside : ∀ u ∈ t :: ts, u.endsLine = false := by
        intro u hu
        refine endsLine_of_isRead (hws u.word ?_)
        rw [← hholds]
        exact List.mem_map_of_mem hu
      have hends : stop.endsLine = true := by
        rw [Token.endsLine, hstop]
        split <;> rfl
      refine ⟨⟨(t :: ts).map .ok, stop⟩, c₂.next.2, ⟨t :: ts, hholds, rfl⟩, hbehind, ?_⟩
      have hc : c.items = (t :: ts).map .ok ++ c₂.items := by simp [hitems, hitems']
      by_cases h : rest = []
      · rw [hc, Cursor.items_of_next_end hnext (by simp [hstop, h]), ofItems_append hinside hends,
          if_pos h]
        rfl
      · rw [hc, Cursor.items_of_next hnext (by simp [hstop, h]), ofItems_append hinside hends,
          if_neg h]

theorem head_textOf {ws : List Word} (hne : ws ≠ []) (hws : ∀ w ∈ ws, w.IsRead)
    (rest : List Char) : (textOf ws ++ rest).head?.all startsToken = true := by
  cases ws with
  | nil => exact absurd rfl hne
  | cons w ws =>
      obtain ⟨a, as, hs, ha⟩ := (hws w List.mem_cons_self).exists_cons
      rw [textOf, hs]
      exact ha

/-- **A text of lines of words is read as these lines.** -/
theorem holds_of_text {wss : List (List Word)} (hne : wss ≠ [])
    (hwss : ∀ ws ∈ wss, ws ≠ [] ∧ ∀ w ∈ ws, w.IsRead) {c : Cursor}
    (hc : c.rest = wss.flatMap textOf) : List.Forall₂ Holds (ofItems c.items) wss := by
  -- the line feed of a line looks at the head of the next one, and is the end of the last
  induction wss generalizing c with
  | nil => exact absurd rfl hne
  | cons ws wss ih =>
      obtain ⟨⟨hws, hread⟩, hwss⟩ := List.forall_mem_cons.1 hwss
      rw [List.flatMap_cons] at hc
      cases wss with
      | nil =>
          obtain ⟨l, d, hl, -, hitems⟩ := ofItems_line hws hread rfl hc
          rw [hitems, List.flatMap_nil, if_pos rfl]
          exact .cons hl .nil
      | cons ws' wss =>
          obtain ⟨⟨hws', hread'⟩, -⟩ := List.forall_mem_cons.1 hwss
          have hhead := head_textOf hws' hread' (wss.flatMap textOf)
          obtain ⟨l, d, hl, hd, hitems⟩ := ofItems_line hws hread hhead hc
          have hrest : textOf ws' ++ wss.flatMap textOf ≠ [] := by
            cases ws' <;> simp [textOf]
          rw [hitems, if_neg hrest]
          exact .cons hl (ih (List.cons_ne_nil _ _) hwss hd)

end Line

end GameBoyAssembler
