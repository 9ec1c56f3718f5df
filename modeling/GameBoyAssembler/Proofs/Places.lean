import GameBoyAssembler.Text.Lines
import GameBoyAssembler.Token.Line

/-!
# The places of tokens

A token never reaches past the end of its line, and neither does a lexical error, whatever characters
a line is made of.  Only the token for a line end takes line feeds.  So the tokens and errors between
two line ends stand on one line of the source, one behind the other, and the lines follow one
another.

Main definitions:

* `Position.Before` — a place that comes before another in the text;
* `isSeparator` — the characters that stand between tokens;
* `Cursor.Reading` — all that a reading can be: the end of the source, a line end, a token inside the
  line or a lexical error;
* `Line.number`, `Line.IsPlaced` — the number of a line, and a line whose items stand on it in order.

Main results:

* `notMem_lexeme` — no token and no fault takes a blank or a line feed;
* `Cursor.reading_next` — where a reading starts and where it ends;
* `Line.isPlaced_of_mem`, `Line.pairwise_number` — **the lines of a source stand one below the other,
  and their items on them**;
* `Line.number_le` — a line with anything on it is a line of the text.
-/

set_option relaxedAutoImplicit false
set_option autoImplicit false

namespace GameBoyAssembler

/-! ### The order of places -/

namespace Position

/-- The place `p` comes before `q` in the text. -/
def Before (p q : Position) : Prop :=
  p.line < q.line ∨ p.line = q.line ∧ p.column < q.column

instance (p q : Position) : Decidable (p.Before q) :=
  inferInstanceAs (Decidable (_ ∨ _))

variable {p q r : Position}

theorem Before.trans_not (hpq : p.Before q) (hrq : ¬ r.Before q) : p.Before r := by
  unfold Before at *
  omega

theorem Before.asymm (hpq : p.Before q) : ¬ q.Before p := by
  unfold Before at *
  omega

theorem not_before_self (p : Position) : ¬ p.Before p := by
  unfold Before
  omega

theorem not_before_trans (hpq : ¬ q.Before p) (hqr : ¬ r.Before q) : ¬ r.Before p := by
  unfold Before at *
  omega

/-- Characters without a line feed stay on the line. -/
theorem after_of_notMem {cs : List Char} (h : '\n' ∉ cs) (p : Position) :
    p.after cs = ⟨p.line, p.column + cs.length⟩ := by
  induction cs generalizing p with
  | nil => rfl
  | cons c cs ih =>
      rw [List.mem_cons, not_or] at h
      rw [after_cons, ih h.2, step, if_neg (Ne.symm h.1), List.length_cons]
      simp only [Nat.add_assoc, Nat.add_comm 1]

theorem line_le_after (p : Position) (cs : List Char) : p.line ≤ (p.after cs).line := by
  induction cs generalizing p with
  | nil => exact Nat.le_refl _
  | cons c cs ih =>
      refine Nat.le_trans ?_ (ih (p.step c))
      unfold step
      split
      · exact Nat.le_succ _
      · exact Nat.le_refl _

end Position

/-! ### Characters between tokens -/

section Separator

/-- A blank or a line feed, which separate tokens. -/
def isSeparator (x : Char) : Bool :=
  isBlank x || x == '\n'

variable {x : Char} {cs : List Char}

/-- A class without the four separators. -/
theorem class_of_isSeparator {p : Char → Bool}
    (hp : [' ', '\t', '\r', '\n'].any p = false) (hx : isSeparator x = true) : p x = false := by
  have hmem : x ∈ [' ', '\t', '\r', '\n'] := by
    simpa [isSeparator, isBlank, or_assoc] using hx
  simpa using List.any_eq_false.1 hp x hmem

theorem ne_of_isSeparator {c : Char} (hc : isSeparator c = false) (hx : isSeparator x = true) :
    c ≠ x := by
  rintro rfl
  rw [hc] at hx
  cases hx

theorem notMem_take_add {m n : Nat} (hm : x ∉ cs.take m) (hn : x ∉ (cs.drop m).take n) :
    x ∉ cs.take (m + n) := by
  rw [List.take_add, List.mem_append]
  exact fun h => h.elim hm hn

theorem notMem_take_succ {c : Char} {n : Nat} (hc : c ≠ x) (hn : x ∉ cs.take n) :
    x ∉ (c :: cs).take (n + 1) := by
  rw [List.take_succ_cons, List.mem_cons]
  exact fun h => h.elim (fun h => hc h.symm) hn

theorem take_runLength (p : Char → Bool) (cs : List Char) :
    cs.take (runLength p cs) = cs.takeWhile p :=
  (List.prefix_iff_eq_take.1 (List.takeWhile_prefix p)).symm

/-- A run of a class without the character. -/
theorem notMem_run {p : Char → Bool} (hp : p x = false) (cs : List Char) :
    x ∉ cs.take (runLength p cs) := by
  rw [take_runLength]
  intro h
  have hclass := List.all_eq_true.1 List.all_takeWhile _ h
  rw [hp] at hclass
  cases hclass

theorem lineFeed_notMem_blank (cs : List Char) : '\n' ∉ cs.take (blankLength cs) := by
  have hrun := notMem_run (p := isBlank) (x := '\n') rfl cs
  simp only [blankLength]
  split
  · rename_i comment hcomment
    rw [Nat.add_assoc]
    refine notMem_take_add hrun ?_
    rw [hcomment, Nat.add_comm]
    exact notMem_take_succ (by decide) (notMem_run rfl comment)
  · exact hrun

/-- One character more than `n`, if it is another one. -/
theorem notMem_take_next {rest : List Char} {c : Char} {n : Nat} (hn : x ∉ cs.take n)
    (hdrop : cs.drop n = c :: rest) (hc : c ≠ x) : x ∉ cs.take (n + 1) := by
  refine notMem_take_add hn ?_
  rw [hdrop]
  exact notMem_take_succ hc List.not_mem_nil

variable (hx : isSeparator x = true)

include hx

theorem notMem_bracket {opening : Char} (ho : opening ≠ x) (cs : List Char) :
    x ∉ (opening :: cs).take (bracketLexeme opening cs).length := by
  have hclose : closingBracket opening ≠ x := by
    unfold closingBracket
    split <;> exact ne_of_isSeparator (by decide) hx
  have hbracketed : isBracketedChar x = false := class_of_isSeparator (by decide) hx
  have hname : isNameChar x = false := class_of_isSeparator (by decide) hx
  -- behind the run there is the closing bracket, which is taken, or a fault, which is not
  have hrun (p : Char → Bool) (hp : p x = false) :
      x ∉ (opening :: cs).take (runLength p cs + 1) :=
    notMem_take_succ ho (notMem_run hp cs)
  have hclosed (p : Char → Bool) (hp : p x = false) {c : Char} {rest : List Char}
      (hdrop : cs.drop (runLength p cs) = c :: rest) (hc : c = closingBracket opening) :
      x ∉ (opening :: cs).take (runLength p cs + 2) :=
    notMem_take_next (hrun p hp) hdrop (hc ▸ hclose)
  have hone : x ∉ (opening :: cs).take 1 := notMem_take_succ ho List.not_mem_nil
  cases cs with
  | nil => exact hone
  | cons c cs =>
      simp only [bracketLexeme]
      split
      · split
        · split
          · exact hclosed isBracketedChar hbracketed ‹_› ‹_›
          · exact hrun isBracketedChar hbracketed
        · exact hrun isBracketedChar hbracketed
      · split
        · split
          · split
            · exact hclosed isNameChar hname ‹_› ‹_›
            · exact hrun isNameChar hname
          · exact hrun isNameChar hname
        · exact hone

theorem notMem_name {n : Nat} (h : x ∉ cs.take n) : x ∉ cs.take (nameLexeme n cs).length := by
  have hcolon : ':' ≠ x := ne_of_isSeparator (by decide) hx
  simp only [nameLexeme]
  split
  · rename_i sign digit rest hdrop
    split
    · -- SP with an offset: a sign and a run
      rename_i hsp
      simp only [Bool.and_eq_true] at hsp
      have hsign : sign ≠ x := by
        rintro rfl
        have hnot : isSign sign = false := class_of_isSeparator (by decide) hx
        rw [hnot] at hsp
        cases hsp.1.2
      rw [Nat.add_assoc]
      refine notMem_take_add h ?_
      rw [hdrop, Nat.add_comm]
      exact notMem_take_succ hsign (notMem_run (class_of_isSeparator (by decide) hx) _)
    · split
      · rename_i hsign
        exact notMem_take_next h hdrop (hsign ▸ hcolon)
      · exact h
  · rename_i c hdrop
    split
    · rename_i hc
      exact notMem_take_next h hdrop (hc ▸ hcolon)
    · exact h
  · exact h

/-- **No token and no fault takes a blank or a line feed**, except where it stands in front. -/
theorem notMem_lexeme (h : cs.head? ≠ some x) : x ∉ cs.take (lexeme cs).length := by
  have hname : isNameChar x = false := class_of_isSeparator (by decide) hx
  cases cs with
  | nil => exact List.not_mem_nil
  | cons c cs =>
      have hc : c ≠ x := by
        rintro rfl
        exact h rfl
      have hone : x ∉ (c :: cs).take 1 := notMem_take_succ hc List.not_mem_nil
      have hrun : x ∉ (c :: cs).take (runLength isNameChar cs + 1) :=
        notMem_take_succ hc (notMem_run hname cs)
      simp only [lexeme]
      split
      · exact hone
      · split
        · split
          · exact hone
          · split
            · rename_i hcolon
              obtain ⟨rest, hdrop⟩ := List.head?_eq_some_iff.1 hcolon
              exact notMem_take_next hrun hdrop (ne_of_isSeparator (by decide) hx)
            · exact hrun
        · split
          · exact notMem_bracket hx hc cs
          · split
            · exact hrun
            · split
              · split
                · exact hrun
                · exact hone
              · split
                · exact notMem_name hx (notMem_run hname (c :: cs))
                · exact hone

end Separator

theorem lineFeed_notMem_lexeme {cs : List Char} (h : cs.head? ≠ some '\n') :
    '\n' ∉ cs.take (lexeme cs).length :=
  notMem_lexeme rfl h

/-! ### Readings -/

theorem bracketLexeme_not_endsLine {opening : Char} {cs : List Char} {kind : TokenKind}
    (h : (bracketLexeme opening cs).outcome = .ok kind) :
    kind ≠ .endOfLine ∧ kind ≠ .endOfFile := by
  cases cs with
  | nil => cases h
  | cons c cs =>
      simp only [bracketLexeme] at h
      repeat' split at h
      all_goals cases h
      all_goals decide

theorem nameLexeme_not_endsLine {n : Nat} {cs : List Char} {kind : TokenKind}
    (h : (nameLexeme n cs).outcome = .ok kind) : kind ≠ .endOfLine ∧ kind ≠ .endOfFile := by
  simp only [nameLexeme] at h
  repeat' split at h
  all_goals cases h
  all_goals decide

/-- Only a line feed and the end of the source are read as line ends. -/
theorem lexeme_not_endsLine {cs : List Char} (h : cs ≠ []) {kind : TokenKind}
    (hkind : (lexeme cs).outcome = .ok kind) : kind ≠ .endOfLine ∧ kind ≠ .endOfFile := by
  cases cs with
  | nil => exact absurd rfl h
  | cons c cs =>
      have hbracket := @bracketLexeme_not_endsLine c cs kind
      have hname := @nameLexeme_not_endsLine (runLength isNameChar (c :: cs)) (c :: cs) kind
      grind [lexeme]

/-- A token made from text has the kind and the place that were given, and an error this place. -/
theorem Token.ofText_cases (kind : TokenKind) (text : String) (pos : Position) :
    (∃ t, Token.ofText kind text pos = .ok t ∧ t.kind = kind ∧ t.pos = pos) ∨
      ∃ e, Token.ofText kind text pos = .error e ∧ e.span.pos = pos := by
  unfold Token.ofText
  split
  · split
    · exact Or.inl ⟨_, rfl, rfl, rfl⟩
    · exact Or.inr ⟨_, rfl, rfl⟩
  · exact Or.inl ⟨_, rfl, rfl, rfl⟩

namespace Cursor

/-- Going on behind characters without a line feed stays on the line. -/
theorem pos_advance {c : Cursor} {n : Nat} (h : '\n' ∉ c.rest.take n) :
    (c.advance n).pos = ⟨c.pos.line, c.pos.column + (c.rest.take n).length⟩ :=
  Position.after_of_notMem h c.pos

theorem line_skipBlanks (c : Cursor) : c.skipBlanks.pos.line = c.pos.line := by
  rw [skipBlanks, pos_advance (lineFeed_notMem_blank c.rest)]

theorem skipBlanks_not_before (c : Cursor) : ¬ c.skipBlanks.pos.Before c.pos := by
  rw [skipBlanks, pos_advance (lineFeed_notMem_blank c.rest), Position.Before]
  dsimp only
  omega

/-- All that a reading can be, with the places of what is read and of the cursor behind it. -/
inductive Reading (c : Cursor) : Item → Cursor → Prop
  /-- The end of the source. -/
  | stop {t : Token} {c' : Cursor} (hkind : t.kind = .endOfFile)
      (hline : t.pos.line = c.pos.line) : Reading c (.ok t) c'
  /-- A line end with the blank lines behind it. -/
  | lineEnd {t : Token} {c' : Cursor} (hkind : t.kind = .endOfLine)
      (hline : t.pos.line = c.pos.line) (hbehind : c.pos.line < c'.pos.line) :
      Reading c (.ok t) c'
  /-- A token inside the line. -/
  | token {t : Token} {c' : Cursor} (hkind : t.endsLine = false)
      (hline : t.pos.line = c.pos.line) (hpos : ¬ t.pos.Before c.pos)
      (hnext : t.pos.Before c'.pos) (hbehind : c'.pos.line = c.pos.line) : Reading c (.ok t) c'
  /-- A lexical error, which may lie at the place where reading goes on. -/
  | fault {e : Error} {c' : Cursor} (hline : e.span.pos.line = c.pos.line)
      (hpos : ¬ c'.pos.Before c.pos) (hbehind : c'.pos.line = c.pos.line) :
      Reading c (.error e) c'

theorem reading_lineBreak {c : Cursor} (h : c.rest.head? = some '\n') :
    c.Reading c.lineBreak.1 c.lineBreak.2 := by
  have hbehind : c.pos.line < (c.advance (breakLength false c.rest)).pos.line := by
    obtain ⟨rest, hrest⟩ := List.head?_eq_some_iff.1 h
    rw [advance, hrest, breakLength, if_pos rfl, List.take_succ_cons, Position.after_cons]
    exact Position.line_le_after (c.pos.step '\n') _
  simp only [lineBreak]
  split
  · exact .stop rfl rfl
  · exact .lineEnd rfl rfl hbehind

theorem reading_word {c : Cursor} (h : c.rest.head? ≠ some '\n') :
    c.Reading c.word.1 c.word.2 := by
  by_cases hrest : c.rest = []
  · have hword : c.word.1 = .ok ⟨.endOfFile, "", c.pos, none⟩ := by
      simp [word, hrest, lexeme, Token.ofText, TokenKind.isNumeric]
    rw [hword]
    exact .stop rfl rfl
  -- at least one character is taken, and all of them are on the line
  have hfeed := lineFeed_notMem_lexeme h
  have hpos := length_lexeme_pos hrest
  have htaken : 0 < (c.rest.take (lexeme c.rest).length).length := by
    have := List.length_pos_iff.2 hrest
    rw [List.length_take]
    omega
  have hbehind := pos_advance hfeed
  have hline : (c.advance (lexeme c.rest).length).pos.line = c.pos.line := by rw [hbehind]
  have hnext : c.pos.Before (c.advance (lexeme c.rest).length).pos := by
    rw [hbehind]
    exact Or.inr ⟨rfl, by dsimp only; omega⟩
  simp only [word]
  split
  · exact .fault hline hnext.asymm hline
  · exact .fault rfl hnext.asymm hline
  · rename_i kind hkind houtcome
    have hkind := lexeme_not_endsLine hrest houtcome
    rcases Token.ofText_cases kind (String.ofList (c.rest.take (lexeme c.rest).length)) c.pos with
      ⟨t, ht, htkind, htpos⟩ | ⟨e, he, hepos⟩
    · rw [ht]
      refine .token ?_ (by rw [htpos]) ?_ (htpos ▸ hnext) hline
      · simp [Token.endsLine, htkind, hkind]
      · rw [htpos]
        exact Position.not_before_self c.pos
    · rw [he]
      exact .fault (by rw [hepos]) hnext.asymm hline

/-- **What is read stands on the line of the cursor**, and reading goes on behind it. -/
theorem reading_next (c : Cursor) : c.Reading c.next.1 c.next.2 := by
  have hline := c.line_skipBlanks
  have hpos := c.skipBlanks_not_before
  -- a reading behind blanks is a reading from the start of the blanks
  have hskip {item : Item} {c' : Cursor} (h : c.skipBlanks.Reading item c') :
      c.Reading item c' := by
    cases h with
    | stop hkind h => exact .stop hkind (h.trans hline)
    | lineEnd hkind h hbehind => exact .lineEnd hkind (h.trans hline) (hline ▸ hbehind)
    | token hkind h hnot hnext hbehind =>
        exact .token hkind (h.trans hline) (Position.not_before_trans hpos hnot) hnext
          (hbehind.trans hline)
    | fault h hnot hbehind =>
        exact .fault (h.trans hline) (Position.not_before_trans hpos hnot) (hbehind.trans hline)
  simp only [next]
  split
  · exact hskip (reading_lineBreak ‹_›)
  · exact hskip (reading_word ‹_›)

end Cursor

/-! ### The number of lines -/

theorem length_lines_pos {cs : List Char} (h : cs ≠ []) : 0 < (lines cs).length := by
  rw [lines.eq_def]
  split
  · exact absurd rfl h
  · exact Nat.succ_pos _
  · exact Nat.succ_pos _
  · split <;> exact Nat.succ_pos _

theorem lines_lineFeed (cs : List Char) : lines ('\n' :: cs) = [] :: lines cs := by
  rw [lines]

/-- A character that is no line feed joins the line behind it, or is a line of its own. -/
theorem length_lines_le_cons {c : Char} (hc : c ≠ '\n') (cs : List Char) :
    (lines cs).length ≤ (lines (c :: cs)).length := by
  rw [lines.eq_def (c :: cs)]
  split
  · rename_i heq
    cases heq
  · rename_i heq
    cases heq
    exact absurd rfl hc
  · rename_i heq
    cases heq
    exact Nat.le_of_eq (congrArg List.length (lines_lineFeed _))
  · rename_i heq
    cases heq
    split
    · rename_i hlines
      rw [hlines]
      exact Nat.zero_le _
    · rename_i hlines
      rw [hlines]
      exact Nat.le_refl _

/-- A character takes a line from the text behind it only if it leads to the next line. -/
theorem line_step_add_length_lines_le (p : Position) (c : Char) (cs : List Char) :
    (p.step c).line + (lines cs).length ≤ p.line + (lines (c :: cs)).length := by
  unfold Position.step
  by_cases hc : c = '\n'
  · subst hc
    rw [if_pos rfl, lines_lineFeed, List.length_cons]
    dsimp only
    omega
  · rw [if_neg hc]
    exact Nat.add_le_add_left (length_lines_le_cons hc cs) p.line

theorem line_after_add_length_lines_le (p : Position) (n : Nat) (cs : List Char) :
    (p.after (cs.take n)).line + (lines (cs.drop n)).length ≤ p.line + (lines cs).length := by
  induction n generalizing p cs with
  | zero => exact Nat.le_refl _
  | succ n ih =>
      cases cs with
      | nil => exact Nat.le_refl _
      | cons c cs =>
          rw [List.take_succ_cons, List.drop_succ_cons, Position.after_cons]
          exact Nat.le_trans (ih (p.step c) cs) (line_step_add_length_lines_le p c cs)

namespace Cursor

/-- The first line number behind the text that is left. -/
def lineLimit (c : Cursor) : Nat :=
  c.pos.line + (lines c.rest).length

theorem lineLimit_advance_le (c : Cursor) (n : Nat) : (c.advance n).lineLimit ≤ c.lineLimit :=
  line_after_add_length_lines_le c.pos n c.rest

theorem lineLimit_next_le (c : Cursor) : c.next.2.lineLimit ≤ c.lineLimit := by
  have hbehind : ∃ n, c.next.2 = c.skipBlanks.advance n := by
    simp only [next, lineBreak, word]
    split
    · exact ⟨_, rfl⟩
    · split <;> exact ⟨_, rfl⟩
  obtain ⟨n, hn⟩ := hbehind
  rw [hn]
  exact Nat.le_trans (lineLimit_advance_le _ n) (lineLimit_advance_le c _)

theorem line_lt_lineLimit {c : Cursor} (h : c.next.1.isEnd = false) : c.pos.line < c.lineLimit := by
  have hrest : c.rest ≠ [] := by
    intro hnil
    have hlt := length_next_lt h
    rw [hnil] at hlt
    exact Nat.not_lt_zero _ hlt
  exact Nat.lt_add_of_pos_right (length_lines_pos hrest)

end Cursor

/-! ### Lines of items -/

/-- The line of the source that an item stands on. -/
def Item.line : Item → Nat
  | .ok t => t.pos.line
  | .error e => e.span.pos.line

/-- If both items are tokens, the first stands before the second. -/
def Item.Precedes (x y : Item) : Prop :=
  ∀ t u, x = .ok t → y = .ok u → t.pos.Before u.pos

namespace Line

/-- The number of the line in the source. -/
def number (l : Line) : Nat :=
  l.stop.pos.line

/-- Everything on the line stands on one line of the source, one token behind the other. -/
structure IsPlaced (l : Line) : Prop where
  items_line : ∀ item ∈ l.items, item.line = l.number
  ordered : l.items.Pairwise Item.Precedes

theorem isPlaced_nil (stop : Token) : IsPlaced ⟨[], stop⟩ :=
  ⟨List.forall_mem_nil _, .nil⟩

/-- An item in front of a line that starts where reading goes on. -/
theorem IsPlaced.cons {l : Line} (h : l.IsPlaced) {item : Item} (hline : item.line = l.number)
    (hfirst : ∀ x ∈ l.items, item.Precedes x) : IsPlaced ⟨item :: l.items, l.stop⟩ :=
  ⟨List.forall_mem_cons.2 ⟨hline, h.items_line⟩, .cons hfirst h.ordered⟩

/-- The lines below a cursor: the first one is the line of the cursor, from the cursor on, and the
others stand below it one after the other. -/
structure Below (c : Cursor) (l : Line) (ls : List Line) : Prop where
  number_eq : l.number = c.pos.line
  not_before : ∀ t, .ok t ∈ l.items → ¬ t.pos.Before c.pos
  placed : ∀ m ∈ l :: ls, m.IsPlaced
  increasing : (l :: ls).Pairwise fun m m' => m.number < m'.number
  number_lt : ∀ m ∈ l :: ls, m.items ≠ [] → m.number < c.lineLimit

namespace Below

variable {c c' : Cursor} {l : Line} {ls : List Line}

theorem stop {t : Token} (hline : t.pos.line = c.pos.line) : Below c ⟨[], t⟩ [] where
  number_eq := hline
  not_before := fun _ h => absurd h List.not_mem_nil
  placed := List.forall_mem_cons.2 ⟨isPlaced_nil t, List.forall_mem_nil _⟩
  increasing := List.pairwise_singleton _ _
  number_lt := List.forall_mem_cons.2 ⟨fun h => absurd rfl h, List.forall_mem_nil _⟩

/-- A line end closes an empty line, and reading goes on further down. -/
theorem lineEnd (h : Below c' l ls) {t : Token} (hline : t.pos.line = c.pos.line)
    (hbehind : c.pos.line < c'.pos.line) (hlimit : c'.lineLimit ≤ c.lineLimit) :
    Below c ⟨[], t⟩ (l :: ls) where
  number_eq := hline
  not_before := fun _ h => absurd h List.not_mem_nil
  placed := List.forall_mem_cons.2 ⟨isPlaced_nil t, h.placed⟩
  increasing := by
    have hfirst : t.pos.line < l.number := by
      rw [hline, h.number_eq]
      exact hbehind
    refine .cons ?_ h.increasing
    intro m hm
    rcases List.mem_cons.1 hm with rfl | hm
    · exact hfirst
    · exact Nat.lt_trans hfirst (List.rel_of_pairwise_cons h.increasing hm)
  number_lt := by
    refine List.forall_mem_cons.2 ⟨fun h => absurd rfl h, ?_⟩
    intro m hm hne
    exact Nat.lt_of_lt_of_le (h.number_lt m hm hne) hlimit

/-- An item inside the line stands in front of what is read behind it. -/
theorem cons (h : Below c' l ls) {item : Item} (hline : item.line = c.pos.line)
    (hitem : ∀ t, item = .ok t → ¬ t.pos.Before c.pos ∧ t.pos.Before c'.pos)
    (hbehind : c'.pos.line = c.pos.line) (hpos : ¬ c'.pos.Before c.pos)
    (hlt : c.pos.line < c.lineLimit) (hlimit : c'.lineLimit ≤ c.lineLimit) :
    Below c ⟨item :: l.items, l.stop⟩ ls where
  number_eq := h.number_eq.trans hbehind
  not_before := by
    intro t ht
    rcases List.mem_cons.1 ht with ht | ht
    · exact (hitem t ht.symm).1
    · exact Position.not_before_trans hpos (h.not_before t ht)
  placed := by
    obtain ⟨hl, hls⟩ := List.forall_mem_cons.1 h.placed
    refine List.forall_mem_cons.2 ⟨hl.cons ?_ ?_, hls⟩
    · rw [hline, h.number_eq, hbehind]
    · intro x hx t u ht hu
      subst hu
      exact (hitem t ht).2.trans_not (h.not_before u hx)
  increasing := by
    obtain ⟨hfirst, hls⟩ := List.pairwise_cons.1 h.increasing
    exact .cons hfirst hls
  number_lt := by
    obtain ⟨-, hls⟩ := List.forall_mem_cons.1 h.number_lt
    refine List.forall_mem_cons.2 ⟨fun _ => ?_, ?_⟩
    · change l.number < c.lineLimit
      rw [h.number_eq, hbehind]
      exact hlt
    · intro m hm hne
      exact Nat.lt_of_lt_of_le (hls m hm hne) hlimit

end Below

theorem ofItems_stop {t : Token} (h : t.endsLine = true) (items : List Item) :
    ofItems (.ok t :: items) = ⟨[], t⟩ :: ofItems items := by
  rw [ofItems, if_pos h]

theorem ofItems_cons {item : Item} (h : ∀ t, item = .ok t → t.endsLine = false)
    {items : List Item} {l : Line} {ls : List Line} (hitems : ofItems items = l :: ls) :
    ofItems (item :: items) = ⟨item :: l.items, l.stop⟩ :: ls := by
  cases item with
  | error e => rw [ofItems, hitems]; rfl
  | ok t =>
      rw [ofItems, h t rfl, hitems]
      rfl

theorem exists_below (c : Cursor) : ∃ l ls, ofItems c.items = l :: ls ∧ Below c l ls := by
  -- along the readings: a line end starts a new line, any other item joins the line behind it
  induction c using Cursor.items.induct with
  | case1 c hend =>
      have hread := c.reading_next
      rw [Cursor.items, if_pos hend]
      generalize c.next.1 = item at hend hread
      cases hread with
      | stop hkind hline =>
          exact ⟨_, _, ofItems_stop (by simp [Token.endsLine, hkind]) [], .stop hline⟩
      | lineEnd hkind hline hbehind => simp [Item.isEnd, hkind] at hend
      | token hkind hline hpos hnext hbehind =>
          simp only [Item.isEnd, beq_iff_eq] at hend
          simp [Token.endsLine, hend] at hkind
      | fault hline hpos hbehind => cases hend
  | case2 c hend ih =>
      have hread := c.reading_next
      have hlimit := c.lineLimit_next_le
      have hlt := Cursor.line_lt_lineLimit (Bool.eq_false_iff.2 hend)
      rw [Cursor.items, if_neg hend]
      obtain ⟨l, ls, hitems, hbelow⟩ := ih
      generalize c.next.1 = item at hend hread
      cases hread with
      | stop hkind hline => simp [Item.isEnd, hkind] at hend
      | lineEnd hkind hline hbehind =>
          refine ⟨_, _, ofItems_stop (by simp [Token.endsLine, hkind]) _, ?_⟩
          rw [hitems]
          exact hbelow.lineEnd hline hbehind hlimit
      | token hkind hline hpos hnext hbehind =>
          refine ⟨_, _, ofItems_cons ?_ hitems, hbelow.cons hline ?_ hbehind ?_ hlt hlimit⟩
          · rintro _ ⟨⟩
            exact hkind
          · rintro _ ⟨⟩
            exact ⟨hpos, hnext⟩
          · exact Position.not_before_trans hpos hnext.asymm
      | fault hline hpos hbehind =>
          refine ⟨_, _, ofItems_cons ?_ hitems, hbelow.cons hline ?_ hbehind hpos hlt hlimit⟩
          · rintro _ ⟨⟩
          · rintro _ ⟨⟩

/-- **Everything on a line of a source stands on one line of the text**, in order. -/
theorem isPlaced_of_mem {source : String} {l : Line} (h : l ∈ ofSource source) : l.IsPlaced := by
  obtain ⟨m, ms, hitems, hbelow⟩ := exists_below (Cursor.ofSource source)
  rw [ofSource, hitems] at h
  exact hbelow.placed l h

/-- **The lines of a source stand one below the other.** -/
theorem pairwise_number (source : String) :
    (ofSource source).Pairwise fun l m => l.number < m.number := by
  obtain ⟨m, ms, hitems, hbelow⟩ := exists_below (Cursor.ofSource source)
  rw [ofSource, hitems]
  exact hbelow.increasing

/-- A line with anything on it is one of the lines of the text. -/
theorem number_le {source : String} {l : Line} (h : l ∈ ofSource source) (hne : l.items ≠ []) :
    l.number ≤ (lines source.toList).length := by
  obtain ⟨m, ms, hitems, hbelow⟩ := exists_below (Cursor.ofSource source)
  rw [ofSource, hitems] at h
  have hlt : l.number < 1 + (lines source.toList).length := hbelow.number_lt l h hne
  omega

theorem number_pos {source : String} {l : Line} (h : l ∈ ofSource source) : 0 < l.number := by
  obtain ⟨m, ms, hitems, hbelow⟩ := exists_below (Cursor.ofSource source)
  rw [ofSource, hitems] at h
  have hfirst : 0 < m.number := by
    rw [hbelow.number_eq]
    exact Nat.one_pos
  rcases List.mem_cons.1 h with rfl | h
  · exact hfirst
  · exact Nat.lt_trans hfirst (List.rel_of_pairwise_cons hbelow.increasing h)

end Line

end GameBoyAssembler
