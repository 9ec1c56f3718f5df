import GameBoyAssembler.Proofs.Reader

/-!
# Reading goes on

Reading ends because every step takes something from the source.  A token or a fault takes at least one
character of its line and leaves the line feed; a line end takes its line feed and the blank lines below;
and at the end of the source nothing is left.  This holds at every place, also in the middle of a token,
where skipping a line may have begun.  So there are no more tokens than characters, and the loop that
drops tokens up to a line end comes to its end, right behind the line.

Main definitions:

* `Cursor.Takes` — the text between two cursors;
* `Cursor.Step` — all that a reading can take;
* `Cursor.PassesLine` — from anywhere on a line to behind it and the blank lines below;
* `Lookahead`, `Lookahead.Recovers` — a cursor with a token that was looked at, and the loop that drops
  the rest of the line, for as many rounds as it takes.

Main results:

* `Cursor.step_next` — what a reading takes;
* `Cursor.length_items_le` — a source has no more tokens than characters;
* `Lookahead.exists_recovers`, `Lookahead.Recovers.passesLine` — dropping a line ends, behind the line;
* `reading_makes_progress` — **every reading makes progress and stays on its line**.
-/

set_option relaxedAutoImplicit false
set_option autoImplicit false

namespace GameBoyAssembler

/-! ### Behind blank lines -/

/-- Behind blank lines there is nothing, or a character that is part of no blank and no comment. -/
theorem startsToken_drop_breakLength (comment : Bool) (cs : List Char) :
    (cs.drop (breakLength comment cs)).head?.all startsToken = true := by
  induction cs generalizing comment with
  | nil => rfl
  | cons c cs ih =>
      rw [breakLength]
      split
      · exact ih false
      · split
        · exact ih true
        · split
          · exact ih false
          · rename_i hfeed hcomment hblank
            simp only [Bool.or_eq_true, decide_eq_true_eq, not_or] at hcomment
            simp [startsToken, hfeed, hcomment.2, hblank]

/-! ### What a reading takes -/

namespace Cursor

/-- The text from one cursor to another. -/
structure Takes (c : Cursor) (text : List Char) (d : Cursor) : Prop where
  rest_eq : c.rest = text ++ d.rest
  pos_eq : d.pos = c.pos.after text

theorem takes_advance (c : Cursor) (n : Nat) : c.Takes (c.rest.take n) (c.advance n) :=
  ⟨(List.take_append_drop n c.rest).symm, rfl⟩

theorem Takes.trans {c d e : Cursor} {text text' : List Char} (h : c.Takes text d)
    (h' : d.Takes text' e) : c.Takes (text ++ text') e where
  rest_eq := by rw [h.rest_eq, h'.rest_eq, List.append_assoc]
  pos_eq := by rw [h'.pos_eq, h.pos_eq, Position.after_append]

/-- All that a reading can take. -/
inductive Step (c : Cursor) : Item → Cursor → Prop
  /-- A token or an error on the line, behind blanks. -/
  | item {x : Item} {d : Cursor} {gap word : List Char} (hin : x.InLine)
      (htakes : c.Takes (gap ++ word) d) (hgap : Filler false (word ++ d.rest) gap)
      (hword : word.head?.any startsToken = true) (hfeed : '\n' ∉ gap ++ word) : Step c x d
  /-- A line end and blank lines, up to a token or to the end of the source. -/
  | lineEnd {t : Token} {d : Cursor} {gap gap' : List Char}
      (hkind : t.kind = if d.rest = [] then .endOfFile else .endOfLine) (hfeed : '\n' ∉ gap)
      (htakes : c.Takes (gap ++ '\n' :: gap') d) (hgap : Filler true d.rest gap')
      (hrest : d.rest.head?.all startsToken = true) : Step c (.ok t) d
  /-- The end of the source, at the end of a line. -/
  | stop {t : Token} {d : Cursor} {gap : List Char} (hkind : t.kind = .endOfFile)
      (hfeed : '\n' ∉ gap) (htakes : c.Takes gap d) (hrest : d.rest = []) : Step c (.ok t) d

theorem takes_skipBlanks (c : Cursor) :
    c.Takes (c.rest.take (blankLength c.rest)) c.skipBlanks :=
  c.takes_advance _

theorem step_lineBreak {c : Cursor} (h : c.skipBlanks.rest.head? = some '\n') :
    c.Step c.skipBlanks.lineBreak.1 c.skipBlanks.lineBreak.2 := by
  obtain ⟨below, hbelow⟩ := List.head?_eq_some_iff.1 h
  have htaken : c.skipBlanks.rest.take (breakLength false c.skipBlanks.rest)
      = '\n' :: below.take (breakLength false below) := by
    rw [hbelow, breakLength, if_pos rfl, List.take_succ_cons]
  have hrest : c.skipBlanks.lineBreak.2.rest = below.drop (breakLength false below) := by
    simp [lineBreak, hbelow, breakLength]
  have htakes : c.skipBlanks.Takes ('\n' :: below.take (breakLength false below))
      c.skipBlanks.lineBreak.2 :=
    htaken ▸ c.skipBlanks.takes_advance _
  obtain ⟨t, ht⟩ : ∃ t, c.skipBlanks.lineBreak.1 = .ok t := by
    simp only [lineBreak]
    split <;> exact ⟨_, rfl⟩
  have hkind := (Token.ofText_eq_ok ht).1
  rw [ht]
  refine .lineEnd hkind (lineFeed_notMem_blank c.rest) (c.takes_skipBlanks.trans htakes) ?_ ?_
  · rw [hrest]
    exact filler_take_breakLength below
  · rw [hrest]
    exact startsToken_drop_breakLength false below

theorem step_word {c : Cursor} (h : c.skipBlanks.rest.head? ≠ some '\n') :
    c.Step c.skipBlanks.word.1 c.skipBlanks.word.2 := by
  have hblanks := lineFeed_notMem_blank c.rest
  rcases atLineEnd_or_startsToken c.rest with hend | ⟨d, ds, hrest, hd⟩
  · -- at the end of a line without a line feed nothing is left
    have hnil : c.skipBlanks.rest = [] := by
      rcases hend.cases with hnil | ⟨cs, hcs⟩
      · exact hnil
      · exact absurd (congrArg List.head? hcs) h
    have hword : c.skipBlanks.word
        = (.ok ⟨.endOfFile, "", c.skipBlanks.pos, none⟩, c.skipBlanks.advance 0) := by
      simp [word, hnil, lexeme, Token.ofText, TokenKind.isNumeric]
    rw [hword]
    refine .stop rfl hblanks ?_ ?_
    · have htakes := c.takes_skipBlanks.trans (c.skipBlanks.takes_advance 0)
      rwa [List.take_zero, List.append_nil] at htakes
    · rw [rest_advance, hnil, List.drop_nil]
  · have hrest : c.skipBlanks.rest = d :: ds := hrest
    have hne : c.skipBlanks.rest ≠ [] := by
      rw [hrest]
      exact List.cons_ne_nil d ds
    have htakes := c.skipBlanks.takes_advance (lexeme c.skipBlanks.rest).length
    rw [← word_behind] at htakes
    refine .item (word_inLine hne) (c.takes_skipBlanks.trans htakes) ?_ ?_ ?_
    · rw [← htakes.rest_eq]
      exact filler_take_blankLength c.rest
    · obtain ⟨n, hn⟩ := Nat.exists_eq_succ_of_ne_zero (Nat.ne_of_gt (length_lexeme_pos hne))
      rw [hn, hrest, List.take_succ_cons]
      exact hd
    · rw [List.mem_append]
      exact fun hmem => hmem.elim hblanks (lineFeed_notMem_lexeme h)

/-- **What a reading takes.** -/
theorem step_next (c : Cursor) : c.Step c.next.1 c.next.2 := by
  simp only [next]
  split
  · exact step_lineBreak ‹_›
  · exact step_word ‹_›

section Step

variable {c d : Cursor}

/-- A token or an error on the line takes a word. -/
theorem Step.exists_word {x : Item} (h : c.Step x d) (hin : x.InLine) :
    ∃ gap word, c.Takes (gap ++ word) d ∧ Filler false (word ++ d.rest) gap ∧
      word.head?.any startsToken = true ∧ '\n' ∉ gap ++ word := by
  cases h with
  | item _ htakes hgap hword hfeed => exact ⟨_, _, htakes, hgap, hword, hfeed⟩
  | lineEnd hkind _ _ _ _ =>
      have hends := hin _ rfl
      split at hkind <;> simp [Token.endsLine, hkind] at hends
  | stop hkind _ _ _ =>
      have hends := hin _ rfl
      simp [Token.endsLine, hkind] at hends

theorem Takes.line_lt {text : List Char} (h : c.Takes text d) (hfeed : '\n' ∈ text) :
    c.pos.line < d.pos.line := by
  obtain ⟨line, below, rfl⟩ := List.append_of_mem hfeed
  rw [h.pos_eq, Position.after_append, Position.after_cons]
  refine Nat.lt_of_le_of_lt (c.pos.line_le_after line) ?_
  exact Position.line_le_after ((c.pos.after line).step '\n') below

/-- A line end leads to a token on a line below. -/
theorem Step.exists_below {t : Token} (h : c.Step (.ok t) d) (hkind : t.kind = .endOfLine) :
    ∃ text e es, c.Takes text d ∧ '\n' ∈ text ∧ d.rest = e :: es ∧ startsToken e = true ∧
      c.pos.line < d.pos.line := by
  cases h with
  | item hin _ _ _ _ =>
      have hends := hin t rfl
      simp [Token.endsLine, hkind] at hends
  | lineEnd hkind' hfeed htakes hgap hrest =>
      have hmem (gap gap' : List Char) : '\n' ∈ gap ++ '\n' :: gap' := by simp
      cases hd : d.rest with
      | nil => rw [hd, if_pos rfl, hkind] at hkind'; cases hkind'
      | cons e es =>
          rw [hd] at hrest
          exact ⟨_, e, es, htakes, hmem _ _, rfl, hrest, htakes.line_lt (hmem _ _)⟩
  | stop hkind' _ _ _ => rw [hkind] at hkind'; cases hkind'

end Step

/-- At the end of the source every reading gives the end of the source and changes nothing. -/
theorem next_of_rest_nil {c : Cursor} (h : c.rest = []) :
    c.next = (.ok ⟨.endOfFile, "", c.pos, none⟩, c) := by
  obtain ⟨rest, pos⟩ := c
  obtain rfl : rest = [] := h
  rfl

/-- A source has no more tokens and errors than characters, besides its end. -/
theorem length_items_le (c : Cursor) : c.items.length ≤ c.rest.length + 1 := by
  induction c using items.induct with
  | case1 c hend =>
      rw [items, if_pos hend]
      exact Nat.le_add_left 1 _
  | case2 c hend ih =>
      have hlt := length_next_lt (Bool.eq_false_iff.2 hend)
      rw [items, if_neg hend, List.length_cons]
      omega

/-! ### Behind a line -/

/-- The rest of a line is passed with its line feed, the blank lines below, and the blanks of the line
that comes then.  The last line may end without a line feed. -/
inductive PassesLine (c d : Cursor) : Prop
  | below {line gap : List Char} (hfeed : '\n' ∉ line) (htakes : c.Takes (line ++ '\n' :: gap) d)
      (hgap : Filler true d.rest gap) (hrest : d.rest.head?.all startsToken = true)
  | last {line : List Char} (hfeed : '\n' ∉ line) (htakes : c.Takes line d) (hrest : d.rest = [])

/-- It does not matter where on its line the cursor stands. -/
theorem PassesLine.of_takes {c d e : Cursor} {text : List Char} (htext : '\n' ∉ text)
    (htakes : c.Takes text d) (h : d.PassesLine e) : c.PassesLine e := by
  have hfeed {line : List Char} (hline : '\n' ∉ line) : '\n' ∉ text ++ line := by
    rw [List.mem_append]
    exact fun hmem => hmem.elim htext hline
  cases h with
  | below hline htakes' hgap hrest =>
      refine .below (hfeed hline) ?_ hgap hrest
      rw [List.append_assoc]
      exact htakes.trans htakes'
  | last hline htakes' hrest => exact .last (hfeed hline) (htakes.trans htakes') hrest

/-- A line end is read with the blank lines below it. -/
theorem passesLine_next {c : Cursor} (h : c.next.1.endsLine = true) : c.PassesLine c.next.2 := by
  have hstep := c.step_next
  generalize c.next.1 = x at h hstep
  cases hstep with
  | item hin _ _ _ _ =>
      rw [Item.inLine_iff.1 hin] at h
      cases h
  | lineEnd _ hfeed htakes hgap hrest => exact .below hfeed htakes hgap hrest
  | stop _ hfeed htakes hrest => exact .last hfeed htakes hrest

theorem takes_skipLine (c : Cursor) :
    ∃ line, '\n' ∉ line ∧ c.Takes line c.skipLine :=
  ⟨_, notMem_run rfl c.rest, c.takes_advance _⟩

/-- What is read on a line leaves the line feed. -/
theorem takes_next {c : Cursor} (h : c.next.1.InLine) :
    ∃ text, '\n' ∉ text ∧ c.Takes text c.next.2 := by
  obtain ⟨gap, word, htakes, -, -, hfeed⟩ := c.step_next.exists_word h
  exact ⟨gap ++ word, hfeed, htakes⟩

end Cursor

/-! ### Dropping the rest of a line -/

/-- A cursor, and in front of it the token that was looked at, if there is one. -/
structure Lookahead where
  cursor : Cursor
  peeked : Option Token

namespace Lookahead

/-- The next token or lexical error.  A token that was looked at comes first. -/
def next (s : Lookahead) : Item × Lookahead :=
  match s.peeked with
  | some t => (.ok t, ⟨s.cursor, none⟩)
  | none => (s.cursor.next.1, ⟨s.cursor.next.2, none⟩)

/-- The next token will be the one at `c`, whether or not it was looked at. -/
def StandsAt (s : Lookahead) (c : Cursor) : Prop :=
  match s.peeked with
  | some t => c.next = (.ok t, s.cursor)
  | none => s.cursor = c

/-- After `n` tokens and errors that are dropped, and a line end, the cursor is at `d`.  An error drops
what is left of its line. -/
inductive Recovers : Lookahead → Nat → Cursor → Prop
  | stop {s : Lookahead} (h : s.next.1.endsLine = true) : Recovers s 0 s.next.2.cursor
  | token {s : Lookahead} {t : Token} {n : Nat} {d : Cursor} (h : s.next.1 = .ok t)
      (ht : t.endsLine = false) (hrest : Recovers s.next.2 n d) : Recovers s (n + 1) d
  | fault {s : Lookahead} {e : Error} {n : Nat} {d : Cursor} (h : s.next.1 = .error e)
      (hrest : Recovers ⟨s.next.2.cursor.skipLine, s.next.2.peeked⟩ n d) : Recovers s (n + 1) d

theorem StandsAt.next_eq {s : Lookahead} {c : Cursor} (h : s.StandsAt c) :
    s.next = (c.next.1, ⟨c.next.2, none⟩) := by
  obtain ⟨cursor, peeked⟩ := s
  cases peeked with
  | some t =>
      have hc : c.next = (.ok t, cursor) := h
      rw [hc]
      rfl
  | none =>
      obtain rfl : cursor = c := h
      rfl

/-- At any place the loop comes to its end, with no more rounds than characters. -/
theorem recovers_recover (c : Cursor) :
    ∃ n ≤ c.rest.length, Recovers ⟨c, none⟩ n c.recover := by
  induction c using Cursor.recover.induct with
  | case1 c hends =>
      rw [Cursor.recover, if_pos hends]
      exact ⟨0, Nat.zero_le _, .stop hends⟩
  | case2 c hends ih =>
      obtain ⟨n, hn, hrecovers⟩ := ih
      have hin := Item.inLine_iff.2 (Bool.eq_false_iff.2 hends)
      have hlt := Cursor.length_pass_lt hin.isEnd_eq
      rw [Cursor.recover, if_neg hends]
      refine ⟨n + 1, by omega, ?_⟩
      cases hnext : c.next.1 with
      | ok t =>
          have hpass : c.pass = c.next.2 := by rw [Cursor.pass, hnext]
          rw [hpass] at hrecovers ⊢
          exact .token hnext (hin t hnext) hrecovers
      | error e =>
          have hpass : c.pass = c.next.2.skipLine := by rw [Cursor.pass, hnext]
          rw [hpass] at hrecovers ⊢
          exact .fault hnext hrecovers

/-- **Dropping the rest of a line comes to its end**, whatever token was looked at. -/
theorem exists_recovers (s : Lookahead) :
    ∃ n ≤ s.cursor.rest.length + 1, ∃ d, s.Recovers n d := by
  obtain ⟨c, peeked⟩ := s
  obtain ⟨n, hn, hrecovers⟩ := recovers_recover c
  cases peeked with
  | none => exact ⟨n, Nat.le_succ_of_le hn, c.recover, hrecovers⟩
  | some t =>
      cases ht : t.endsLine with
      | true => exact ⟨0, Nat.zero_le _, c, .stop ht⟩
      | false => exact ⟨n + 1, Nat.succ_le_succ hn, c.recover, .token rfl ht hrecovers⟩

section Recovers

variable {s : Lookahead} {c d : Cursor} {n : Nat}

/-- **Dropping the rest of a line leads behind the line** and the blank lines below it. -/
theorem Recovers.passesLine (h : s.Recovers n d) (hs : s.StandsAt c) :
    d = c.recover ∧ c.PassesLine d := by
  induction h generalizing c with
  | stop hends =>
      rw [hs.next_eq] at hends ⊢
      rw [Cursor.recover, if_pos hends]
      exact ⟨rfl, Cursor.passesLine_next hends⟩
  | token hnext ht _ ih =>
      rw [hs.next_eq] at hnext ih
      have hin : c.next.1.InLine := by
        rw [hnext]
        rintro u ⟨⟩
        exact ht
      obtain ⟨text, hfeed, htakes⟩ := Cursor.takes_next hin
      obtain ⟨hd, hpasses⟩ := ih (c := c.next.2) rfl
      refine ⟨?_, .of_takes hfeed htakes hpasses⟩
      rw [Cursor.recover, Item.inLine_iff.1 hin, Cursor.pass, hnext]
      exact hd
  | fault hnext _ ih =>
      rw [hs.next_eq] at hnext ih
      have hin : c.next.1.InLine := by
        rw [hnext]
        rintro u ⟨⟩
      obtain ⟨text, hfeed, htakes⟩ := Cursor.takes_next hin
      obtain ⟨line, hline, htakes'⟩ := c.next.2.takes_skipLine
      obtain ⟨hd, hpasses⟩ := ih (c := c.next.2.skipLine) rfl
      refine ⟨?_, .of_takes hfeed htakes (.of_takes hline htakes' hpasses)⟩
      rw [Cursor.recover, Item.inLine_iff.1 hin, Cursor.pass, hnext]
      exact hd

end Recovers

end Lookahead

/-! ### Progress -/

/-- The cursor after `n` more readings. -/
def Cursor.later (c : Cursor) : Nat → Cursor
  | 0 => c
  | n + 1 => (c.later n).next.2

theorem Cursor.later_of_rest_nil {c : Cursor} (h : c.rest = []) (n : Nat) : c.later n = c := by
  induction n with
  | zero => rfl
  | succ n ih => rw [later, ih, next_of_rest_nil h]

theorem length_tokenize_le (source : String) : (tokenize source).length ≤ source.length := by
  have hitems := (Cursor.ofSource source).length_items_le
  have hrest : (Cursor.ofSource source).rest.length = source.length := String.length_toList
  rw [tokenize, List.length_dropLast]
  omega

/-- **Every reading makes progress and stays on its line.**  From any place, a token or an error on the
line takes at least one character behind blanks and comments and no line feed; a line end takes a line
feed and stops in front of the first character of a later line that is no blank and no comment; and
behind the end of the source nothing is left, and it is read again and again.  So a source has at most
as many tokens and errors as characters.  Dropping what is left of a line comes to its end in every
state, and it takes the line, its line end and the blank lines below. -/
theorem reading_makes_progress :
    (∀ c : Cursor,
      (c.next.1.InLine → ∃ gap word, c.Takes (gap ++ word) c.next.2 ∧
        Filler false (word ++ c.next.2.rest) gap ∧ word.head?.any startsToken = true ∧
        '\n' ∉ gap ++ word) ∧
      (∀ t, c.next.1 = .ok t → t.kind = .endOfLine → ∃ text d ds, c.Takes text c.next.2 ∧
        '\n' ∈ text ∧ c.next.2.rest = d :: ds ∧ startsToken d = true ∧
        c.pos.line < c.next.2.pos.line) ∧
      (∀ t, c.next.1 = .ok t → t.kind = .endOfFile → c.next.2.rest = [] ∧
        ∀ n, ∃ u, (c.next.2.later n).next.1 = .ok u ∧ u.kind = .endOfFile)) ∧
    (∀ source, (tokenize source).length ≤ source.length) ∧
    (∀ s : Lookahead, ∃ n ≤ s.cursor.rest.length + 1, ∃ d, s.Recovers n d) ∧
    ∀ (s : Lookahead) (c d : Cursor) (n : Nat), s.StandsAt c → s.Recovers n d →
      d = c.recover ∧ c.PassesLine d := by
  refine ⟨fun c => ⟨c.step_next.exists_word, fun t ht hkind => ?_, fun t ht hkind => ?_⟩,
    length_tokenize_le, Lookahead.exists_recovers, fun s c d n hs h => h.passesLine hs⟩
  · have hstep := c.step_next
    rw [ht] at hstep
    exact hstep.exists_below hkind
  · have hnil : c.next.2.rest = [] := by
      refine Cursor.rest_of_isEnd ?_
      rw [ht]
      simp [Item.isEnd, hkind]
    refine ⟨hnil, fun n => ?_⟩
    rw [Cursor.later_of_rest_nil hnil, Cursor.next_of_rest_nil hnil]
    exact ⟨_, rfl, rfl⟩

/-- A stray character behind a token, a blank line and a comment, and an indented line. -/
def strayMark : String :=
  "NOP ?\n\r\n ; note\n\tHALT"

/-- The first token stays on its line, and the line end leads to a line below; with a comment the source
ends; and after a look at the first token the rest of the line is dropped. -/
theorem reading_makes_progress_strayMark :
    ((Cursor.ofSource strayMark).next.1.InLine ∧
      ∃ text, (Cursor.ofSource strayMark).Takes text (Cursor.ofSource strayMark).next.2 ∧
        '\n' ∉ text) ∧
    ((Cursor.ofSource strayMark).skipLine.next.1 = .ok ⟨.endOfLine, "\n", ⟨1, 6⟩, none⟩ ∧
      1 < (Cursor.ofSource strayMark).skipLine.next.2.pos.line) ∧
    ((Cursor.ofSource "; note").next.1 = .ok ⟨.endOfFile, "", ⟨1, 7⟩, none⟩ ∧
      (Cursor.ofSource "; note").next.2.rest = []) ∧
    ∃ n d, Lookahead.Recovers
        ⟨(Cursor.ofSource strayMark).next.2, some ⟨.identifier, "NOP", ⟨1, 1⟩, none⟩⟩ n d ∧
      (Cursor.ofSource strayMark).PassesLine d := by
  obtain ⟨hstep, -, hends, hpasses⟩ := reading_makes_progress
  have hnext : (Cursor.ofSource strayMark).next.1
      = .ok ⟨.identifier, "NOP", ⟨1, 1⟩, none⟩ := by decide +kernel
  have hline : (Cursor.ofSource strayMark).skipLine.next.1
      = .ok ⟨.endOfLine, "\n", ⟨1, 6⟩, none⟩ := by decide +kernel
  have hnote : (Cursor.ofSource "; note").next.1
      = .ok ⟨.endOfFile, "", ⟨1, 7⟩, none⟩ := by decide +kernel
  have hin : (Cursor.ofSource strayMark).next.1.InLine := by
    rw [hnext]
    rintro t ⟨⟩
    rfl
  refine ⟨⟨hin, ?_⟩, ⟨hline, ?_⟩, ⟨hnote, ((hstep _).2.2 _ hnote rfl).1⟩, ?_⟩
  · obtain ⟨gap, word, htakes, -, -, hfeed⟩ := (hstep _).1 hin
    exact ⟨gap ++ word, htakes, hfeed⟩
  · obtain ⟨-, -, -, -, -, -, -, hlt⟩ := (hstep _).2.1 _ hline rfl
    exact hlt
  · obtain ⟨n, -, d, h⟩ := hends
      ⟨(Cursor.ofSource strayMark).next.2, some ⟨.identifier, "NOP", ⟨1, 1⟩, none⟩⟩
    refine ⟨n, d, h, (hpasses _ _ d n ?_ h).2⟩
    exact Prod.ext hnext rfl

end GameBoyAssembler
