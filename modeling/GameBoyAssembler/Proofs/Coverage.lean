import GameBoyAssembler.Proofs.Lexing
import GameBoyAssembler.Proofs.LineByLine

/-!
# What tokens cover

A reading skips blanks and a comment, and then takes a token.  The token holds the text that was
taken and the place where it starts; only the token for a line end takes more than it shows, which is
the blank lines behind it.  So the tokens of a source with the text that is skipped between them give
back the source, as long as no error intervenes.

Main definitions:

* `Filler` — text that holds no token: blanks, comments to the end of their line, and line feeds where
  they are allowed;
* `Cursor.Took` — what a reading took from the source;
* `Cursor.IsIn`, `Cursor.offsetIn` — a cursor that stands in a source, and its offset there;
* `reading`, `readingStart` — the readings of a source one after the other, and where they start;
* `Faithful` — tokens that carry the place and the text of the stretch that they stand for, with
  nothing but filler between.

Main results:

* `Position.after_eq` — the line counts line feeds, and the column the characters behind the last one;
* `filler_take_blankLength`, `filler_take_breakLength` — what is skipped is filler;
* `Cursor.took_next` — all that a reading takes is its token and filler;
* `readings_faithful` — **tokens are faithful to the source, and nothing is dropped**.
-/

set_option relaxedAutoImplicit false
set_option autoImplicit false

namespace GameBoyAssembler

/-! ### Places and offsets -/

/-- The place behind a text, by its line feeds and the characters behind the last of them. -/
theorem Position.after_eq (n : Nat) (cs : List Char) :
    (⟨n, 1⟩ : Position).after cs
      = ⟨n + cs.count '\n', 1 + (cs.reverse.takeWhile (· != '\n')).length⟩ := by
  induction cs using line_induction generalizing n with
  | last line hfeed =>
      have hreverse : '\n' ∉ line.reverse := fun h => hfeed (List.mem_reverse.1 h)
      have hline := takeWhile_append_lineFeed hreverse atLineEnd_nil
      rw [List.append_nil] at hline
      rw [after_of_notMem hfeed, List.count_eq_zero_of_not_mem hfeed, hline, List.length_reverse]
      rfl
  | step line cs hfeed ih =>
      have hcolumn := (atLineEnd_lineFeed line.reverse).runLength_append (p := (· != '\n')) rfl
        cs.reverse
      have hstep : ((⟨n, 1⟩ : Position).after line).step '\n' = ⟨n + 1, 1⟩ := by
        rw [after_of_notMem hfeed]
        rfl
      rw [after_append, after_cons, hstep, ih, List.count_append, List.count_cons_self,
        List.count_eq_zero_of_not_mem hfeed, List.reverse_append, List.reverse_cons,
        List.append_assoc, List.singleton_append]
      unfold runLength at hcolumn
      rw [hcolumn]
      congr 1
      omega

/-! ### Filler -/

/-- Text in front of `rest` that holds no token: blanks, comments up to the end of their line, and
line feeds if `breaks` is set. -/
inductive Filler (breaks : Bool) (rest : List Char) : List Char → Prop
  | nil : Filler breaks rest []
  | blank {c : Char} {gap : List Char} (hc : isBlank c = true) (h : Filler breaks rest gap) :
      Filler breaks rest (c :: gap)
  | comment {text gap : List Char} (hfeed : '\n' ∉ text) (hend : AtLineEnd (gap ++ rest))
      (h : Filler breaks rest gap) : Filler breaks rest (';' :: text ++ gap)
  | lineFeed {gap : List Char} (hbreaks : breaks = true) (h : Filler breaks rest gap) :
      Filler breaks rest ('\n' :: gap)

namespace Filler

theorem append {breaks : Bool} {rest gap gap' : List Char} (h : Filler breaks (gap' ++ rest) gap)
    (h' : Filler breaks rest gap') : Filler breaks rest (gap ++ gap') := by
  induction h with
  | nil => exact h'
  | blank hc _ ih => exact .blank hc ih
  | comment hfeed hend _ ih =>
      rw [List.append_assoc]
      exact .comment hfeed (by rwa [List.append_assoc]) ih
  | lineFeed hbreaks _ ih => exact .lineFeed hbreaks ih

theorem of_noBreaks {rest gap : List Char} (h : Filler false rest gap) (breaks : Bool) :
    Filler breaks rest gap := by
  induction h with
  | nil => exact .nil
  | blank hc _ ih => exact .blank hc ih
  | comment hfeed hend _ ih => exact .comment hfeed hend ih
  | lineFeed hbreaks _ _ => cases hbreaks

theorem of_blanks {breaks : Bool} {rest blanks : List Char} (h : ∀ c ∈ blanks, isBlank c = true) :
    Filler breaks rest blanks := by
  induction blanks with
  | nil => exact .nil
  | cons c blanks ih =>
      obtain ⟨hc, hblanks⟩ := List.forall_mem_cons.1 h
      exact .blank hc (ih hblanks)

end Filler

/-- A run of characters up to the line end. -/
theorem atLineEnd_drop_runLength (cs : List Char) :
    AtLineEnd (cs.drop (runLength (· != '\n') cs)) := by
  induction cs with
  | nil => exact atLineEnd_nil
  | cons c cs ih =>
      by_cases hc : c = '\n'
      · subst hc
        exact atLineEnd_lineFeed cs
      · have hrun : runLength (· != '\n') (c :: cs) = runLength (· != '\n') cs + 1 := by
          simp [runLength, hc]
        rw [hrun, List.drop_succ_cons]
        exact ih

/-- Behind the blanks of a line there is its end, or a character that is part of no blank and no
comment. -/
theorem atLineEnd_or_startsToken (cs : List Char) :
    AtLineEnd (cs.drop (blankLength cs)) ∨
      ∃ d ds, cs.drop (blankLength cs) = d :: ds ∧ startsToken d = true := by
  induction cs with
  | nil => exact Or.inl atLineEnd_nil
  | cons c cs ih =>
      cases hc : isBlank c with
      | true =>
          rw [blankLength_cons_of_isBlank hc, List.drop_succ_cons]
          exact ih
      | false =>
          by_cases hcomment : c = ';'
          · -- a comment goes on to the end of its line
            subst hcomment
            have hlength : blankLength (';' :: cs) = runLength (· != '\n') cs + 1 :=
              Nat.add_comm _ _
            rw [hlength, List.drop_succ_cons]
            exact Or.inl (atLineEnd_drop_runLength cs)
          · rw [blankLength_cons hc hcomment, List.drop_zero]
            by_cases hfeed : c = '\n'
            · exact Or.inl (hfeed ▸ atLineEnd_lineFeed cs)
            · exact Or.inr ⟨c, cs, rfl, by simp [startsToken, hc, hcomment, hfeed]⟩

/-- What is skipped in front of a token is filler. -/
theorem filler_take_blankLength (cs : List Char) :
    Filler false (cs.drop (blankLength cs)) (cs.take (blankLength cs)) := by
  have hblanks : ∀ c ∈ cs.take (runLength isBlank cs), isBlank c = true := by
    rw [take_runLength]
    exact List.all_eq_true.1 List.all_takeWhile
  simp only [blankLength]
  split
  · rename_i text htext
    have hcomment : Filler false (text.drop (runLength (· != '\n') text))
        (';' :: text.take (runLength (· != '\n') text) ++ []) :=
      .comment (notMem_run rfl text) (atLineEnd_drop_runLength text) .nil
    rw [List.append_nil] at hcomment
    have hdrop : cs.drop (runLength isBlank cs + 1 + runLength (· != '\n') text)
        = text.drop (runLength (· != '\n') text) := by
      rw [Nat.add_assoc, ← List.drop_drop, htext, Nat.add_comm, List.drop_succ_cons]
    have htake : cs.take (runLength isBlank cs + 1 + runLength (· != '\n') text)
        = cs.take (runLength isBlank cs) ++ ';' :: text.take (runLength (· != '\n') text) := by
      rw [Nat.add_assoc, List.take_add, htext, Nat.add_comm, List.take_succ_cons]
    rw [hdrop, htake]
    exact (Filler.of_blanks hblanks).append hcomment
  · exact .of_blanks hblanks

/-- What is skipped behind a line end is filler. -/
theorem filler_take_breakLength (cs : List Char) :
    Filler true (cs.drop (breakLength false cs)) (cs.take (breakLength false cs)) := by
  have hskip (cs : List Char) := (filler_take_blankLength cs).of_noBreaks true
  induction cs using line_induction with
  | last line hfeed =>
      have hlength : breakLength false line = blankLength line := by
        rw [← List.append_nil line]
        cases hblank : isBlankLine line with
        | true =>
            rw [atLineEnd_nil.breakLength_of_blank hfeed (Or.inr hblank), List.append_nil,
              blankLength_of_blank hfeed hblank]
            rfl
        | false => rw [breakLength_of_written hblank, List.append_nil]
      rw [hlength]
      exact hskip line
  | step line cs hfeed ih =>
      have ht := atLineEnd_lineFeed cs
      have hline := hskip (line ++ '\n' :: cs)
      rw [ht.blankLength_append] at hline
      cases hblank : isBlankLine line with
      | true =>
          -- the blank line, its line feed, and what is skipped below
          rw [blankLength_of_blank hfeed hblank, List.drop_left, List.take_left,
            ← List.take_append_drop (breakLength false cs) cs, ← List.cons_append] at hline
          have hlength : breakLength false (line ++ '\n' :: cs)
              = line.length + (breakLength false cs + 1) :=
            ht.breakLength_of_blank hfeed (Or.inr hblank)
          rw [hlength, ← List.drop_drop, List.drop_left, List.take_add, List.take_left,
            List.drop_left, List.take_succ_cons, List.drop_succ_cons]
          exact hline.append (.lineFeed rfl ih)
      | false =>
          rw [breakLength_of_written hblank]
          exact hline

/-! ### What a reading takes -/

theorem Token.ofText_eq_ok {kind : TokenKind} {text : String} {pos : Position} {t : Token}
    (h : Token.ofText kind text pos = .ok t) : t.kind = kind ∧ t.text = text ∧ t.pos = pos := by
  unfold Token.ofText at h
  split at h
  · split at h
    · cases h
      exact ⟨rfl, rfl, rfl⟩
    · cases h
  · cases h
    exact ⟨rfl, rfl, rfl⟩

namespace Cursor

/-- The reading that gave `t` started at `c` and went on at `d`: it was the end of the source, with
nothing but filler behind it, or a token and filler up to `d`. -/
def Took (c d : Cursor) (t : Token) : Prop :=
  t.kind = .endOfFile ∧ Filler true [] c.rest ∨
    t.kind ≠ .endOfFile ∧ t.pos = c.pos ∧ t.text ≠ "" ∧
      ∃ gap, c.rest = t.text.toList ++ (gap ++ d.rest) ∧ Filler (t.kind == .endOfLine) d.rest gap

theorem took_lineBreak {c : Cursor} (hc : c.rest.head? = some '\n') {t : Token}
    (h : c.lineBreak.1 = .ok t) : c.Took c.lineBreak.2 t := by
  obtain ⟨cs, hcs⟩ := List.head?_eq_some_iff.1 hc
  have hbehind : c.lineBreak.2.rest = cs.drop (breakLength false cs) := by
    simp [lineBreak, hcs, breakLength]
  have hfiller := filler_take_breakLength cs
  obtain ⟨hkind, htext, hpos⟩ := Token.ofText_eq_ok h
  change t.kind = if c.lineBreak.2.rest = [] then TokenKind.endOfFile else .endOfLine at hkind
  rw [← hbehind] at hfiller
  by_cases hnil : c.lineBreak.2.rest = []
  · rw [if_pos hnil] at hkind
    have hall : cs.take (breakLength false cs) = cs :=
      List.take_of_length_le (List.drop_eq_nil_iff.1 (hbehind.symm.trans hnil))
    rw [hnil, hall] at hfiller
    exact Or.inl ⟨hkind, hcs ▸ .lineFeed rfl hfiller⟩
  · rw [if_neg hnil] at hkind
    refine Or.inr ⟨by simp [hkind], hpos, by simp [htext], cs.take (breakLength false cs), ?_,
      by simpa [hkind]⟩
    rw [hcs, htext, hbehind, List.take_append_drop]
    rfl

theorem took_word {c : Cursor} {t : Token} (h : c.word.1 = .ok t) : c.Took c.word.2 t := by
  by_cases hrest : c.rest = []
  · have hkind : t.kind = .endOfFile := by
      simp only [word, hrest, lexeme] at h
      exact (Token.ofText_eq_ok h).1
    exact Or.inl ⟨hkind, by rw [hrest]; exact .nil⟩
  · have hends := word_inLine hrest t h
    simp only [Token.endsLine, Bool.or_eq_false_iff, beq_eq_false_iff_ne] at hends
    have htext : t.text.toList = c.rest.take (lexeme c.rest).length ∧ t.pos = c.pos := by
      simp only [word] at h
      split at h
      · cases h
      · cases h
      · obtain ⟨-, htext, hpos⟩ := Token.ofText_eq_ok h
        exact ⟨by rw [htext, String.toList_ofList], hpos⟩
    have hne : t.text ≠ "" := by
      have hpos := length_lexeme_pos hrest
      intro hempty
      rw [hempty, eq_comm, String.toList_empty, List.take_eq_nil_iff] at htext
      exact htext.1.elim (by omega) hrest
    refine Or.inr ⟨hends.2, htext.2, hne, [], ?_, .nil⟩
    rw [word_behind, htext.1, List.nil_append, rest_advance, List.take_append_drop]

theorem took_next {c : Cursor} {t : Token} (h : c.next.1 = .ok t) :
    c.skipBlanks.Took c.next.2 t := by
  simp only [next] at h ⊢
  split at h
  · rename_i hhead
    rw [if_pos hhead]
    exact took_lineBreak hhead h
  · rename_i hhead
    rw [if_neg hhead]
    exact took_word h

/-! ### Cursors in a source -/

/-- The cursor stands in the source: it holds what is left of it, and its place. -/
def IsIn (c : Cursor) (source : List Char) : Prop :=
  ∃ front, source = front ++ c.rest ∧ c.pos = Position.start.after front

/-- The offset of a cursor in the source. -/
def offsetIn (c : Cursor) (source : List Char) : Nat :=
  source.length - c.rest.length

theorem next_behind (c : Cursor) : ∃ n, c.next.2 = c.skipBlanks.advance n := by
  simp only [next]
  split
  · exact ⟨_, rfl⟩
  · exact ⟨_, word_behind _⟩

theorem length_skipBlanks_le (c : Cursor) : c.skipBlanks.rest.length ≤ c.rest.length := by
  rw [skipBlanks, rest_advance, List.length_drop]
  exact Nat.sub_le _ _

theorem length_next_le (c : Cursor) : c.next.2.rest.length ≤ c.rest.length := by
  obtain ⟨n, hn⟩ := c.next_behind
  rw [hn, rest_advance, List.length_drop]
  exact Nat.le_trans (Nat.sub_le _ _) c.length_skipBlanks_le

namespace IsIn

variable {c d : Cursor} {source : List Char} {t : Token}

theorem advance (h : c.IsIn source) (n : Nat) : (c.advance n).IsIn source := by
  obtain ⟨front, hsource, hpos⟩ := h
  refine ⟨front ++ c.rest.take n, ?_, ?_⟩
  · rw [List.append_assoc, rest_advance, List.take_append_drop, hsource]
  · rw [Position.after_append, ← hpos]
    rfl

theorem next (h : c.IsIn source) : c.next.2.IsIn source := by
  obtain ⟨n, hn⟩ := c.next_behind
  rw [hn]
  exact (h.advance _).advance n

theorem offset_add (h : c.IsIn source) : c.offsetIn source + c.rest.length = source.length := by
  obtain ⟨front, hsource, -⟩ := h
  rw [offsetIn, hsource, List.length_append, Nat.add_sub_cancel]

theorem drop_offset (h : c.IsIn source) : source.drop (c.offsetIn source) = c.rest := by
  obtain ⟨front, hsource, -⟩ := h
  rw [offsetIn, hsource, List.length_append, Nat.add_sub_cancel, List.drop_left]

/-- The line of a cursor counts the line feeds in front of it, and its column the characters behind
the last of them. -/
theorem pos_eq (h : c.IsIn source) :
    c.pos = ⟨1 + (source.take (c.offsetIn source)).count '\n',
      1 + ((source.take (c.offsetIn source)).reverse.takeWhile (· != '\n')).length⟩ := by
  obtain ⟨front, hsource, hpos⟩ := h
  rw [offsetIn, hsource, List.length_append, Nat.add_sub_cancel, List.take_left, hpos]
  exact Position.after_eq 1 front

/-- The stretch between an offset and a cursor behind it. -/
theorem drop_take_offset (h : c.IsIn source) {n : Nat} {gap : List Char}
    (hgap : source.drop n = gap ++ c.rest) (hn : n ≤ source.length) :
    (source.take (c.offsetIn source)).drop n = gap := by
  have hlength := congrArg List.length hgap
  rw [List.length_drop, List.length_append] at hlength
  have hwidth : c.offsetIn source - n = gap.length := by
    have := h.offset_add
    omega
  rw [List.drop_take, hgap, hwidth, List.take_left]

/-- The next token does not start before the end of the one that was read. -/
theorem offset_le (hc : c.IsIn source) (hd : d.IsIn source) {gap : List Char}
    (hgap : c.rest = t.text.toList ++ (gap ++ d.rest)) :
    c.offsetIn source + t.text.length ≤ d.offsetIn source := by
  have hlength := congrArg List.length hgap
  rw [List.length_append, List.length_append, String.length_toList] at hlength
  have hoffset := hc.offset_add
  have hoffset' := hd.offset_add
  omega

/-- Between a token and the next reading stands filler. -/
theorem filler_between (hc : c.IsIn source) (hd : d.IsIn source) {gap : List Char} {breaks : Bool}
    (hgap : c.rest = t.text.toList ++ (gap ++ d.rest)) (hfiller : Filler breaks d.rest gap) :
    Filler breaks (source.drop (d.skipBlanks.offsetIn source))
      ((source.take (d.skipBlanks.offsetIn source)).drop (c.offsetIn source + t.text.length)) := by
  have hskip : d.skipBlanks.IsIn source := hd.advance _
  have hblanks := (filler_take_blankLength d.rest).of_noBreaks breaks
  have hrest : d.rest = d.rest.take (blankLength d.rest) ++ d.skipBlanks.rest :=
    (List.take_append_drop _ _).symm
  have hall : source.drop (c.offsetIn source + t.text.length)
      = gap ++ d.rest.take (blankLength d.rest) ++ d.skipBlanks.rest := by
    rw [← List.drop_drop, hc.drop_offset, hgap, ← String.length_toList, List.drop_left,
      List.append_assoc, ← hrest]
  have hle : c.offsetIn source + t.text.length ≤ source.length := by
    have := hc.offset_le hd hgap
    have := hd.offset_add
    omega
  rw [hskip.drop_take_offset hall hle, hskip.drop_offset]
  rw [hrest] at hfiller
  exact hfiller.append hblanks

end IsIn

end Cursor

/-! ### Readings one after the other -/

/-- The cursor of a source after `k` readings. -/
def cursorAfter (source : String) : Nat → Cursor
  | 0 => .ofSource source
  | k + 1 => (cursorAfter source k).next.2

/-- What the reading number `k` of a source gives, counted from zero. -/
def reading (source : String) (k : Nat) : Item :=
  (cursorAfter source k).next.1

/-- The offset at which the reading number `k` starts, behind the blanks in front of it. -/
def readingStart (source : String) (k : Nat) : Nat :=
  (cursorAfter source k).skipBlanks.offsetIn source.toList

theorem isIn_cursorAfter (source : String) (k : Nat) :
    (cursorAfter source k).IsIn source.toList := by
  induction k with
  | zero => exact ⟨[], rfl, rfl⟩
  | succ k ih => exact ih.next

theorem length_cursorAfter_le (source : String) {j k : Nat} (h : j ≤ k) :
    (cursorAfter source k).rest.length ≤ (cursorAfter source j).rest.length := by
  induction h with
  | refl => exact Nat.le_refl _
  | step _ ih => exact Nat.le_trans (Cursor.length_next_le _) ih

/-- The readings of a source, which start at the offsets `start`, are faithful to it: tokens carry
the place and the text of the stretch that they stand for, the stretches follow one another, and
nothing but filler stands between, in front and behind. -/
structure Faithful (source : List Char) (reading : Nat → Item) (start : Nat → Nat) : Prop where
  line : ∀ k t, reading k = .ok t → t.kind ≠ .endOfFile →
    t.pos.line = 1 + (source.take (start k)).count '\n'
  column : ∀ k t, reading k = .ok t → t.kind ≠ .endOfFile →
    t.pos.column = 1 + ((source.take (start k)).reverse.takeWhile (· != '\n')).length
  text : ∀ k t, reading k = .ok t → t.kind ≠ .endOfFile →
    t.text ≠ "" ∧ t.text.toList <+: source.drop (start k)
  ordered : ∀ j k t u, j < k → reading j = .ok t → t.kind ≠ .endOfFile → reading k = .ok u →
    start j + t.text.length ≤ start k
  /-- Only a line end is followed by further line feeds. -/
  between : ∀ k t u, reading k = .ok t → t.kind ≠ .endOfFile → reading (k + 1) = .ok u →
    Filler (t.kind == .endOfLine) (source.drop (start (k + 1)))
      ((source.take (start (k + 1))).drop (start k + t.text.length))
  front : Filler false (source.drop (start 0)) (source.take (start 0))
  behind : ∀ k t, reading k = .ok t → t.kind = .endOfFile → Filler true [] (source.drop (start k))

/-- **Tokens are faithful to the source, and nothing is dropped between them.** -/
theorem readings_faithful (source : String) :
    Faithful source.toList (reading source) (readingStart source) := by
  have hin := isIn_cursorAfter source
  have hskip (k : Nat) : (cursorAfter source k).skipBlanks.IsIn source.toList := (hin k).advance _
  have htook {k : Nat} {t : Token} (h : reading source k = .ok t) (hkind : t.kind ≠ .endOfFile) :=
    ((Cursor.took_next h).resolve_left fun hstop => hkind hstop.1).2
  constructor
  case line =>
    intro k t h hkind
    obtain ⟨hpos, -⟩ := htook h hkind
    rw [hpos, (hskip k).pos_eq]
    rfl
  case column =>
    intro k t h hkind
    obtain ⟨hpos, -⟩ := htook h hkind
    rw [hpos, (hskip k).pos_eq]
    rfl
  case text =>
    intro k t h hkind
    obtain ⟨-, hne, gap, htext, -⟩ := htook h hkind
    rw [readingStart, (hskip k).drop_offset, htext]
    exact ⟨hne, List.prefix_append _ _⟩
  case ordered =>
    intro j k t u hjk h hkind _
    obtain ⟨-, -, gap, htext, -⟩ := htook h hkind
    -- the cursor behind the token lies in front of every later reading
    have hnext := (hskip j).offset_le (hin (j + 1)) htext
    have hle : (cursorAfter source k).rest.length ≤ (cursorAfter source (j + 1)).rest.length :=
      length_cursorAfter_le source hjk
    have hblanks := (cursorAfter source k).length_skipBlanks_le
    refine Nat.le_trans hnext ?_
    unfold readingStart Cursor.offsetIn
    omega
  case between =>
    intro k t u h hkind _
    obtain ⟨-, -, gap, htext, hfiller⟩ := htook h hkind
    exact (hskip k).filler_between (hin (k + 1)) htext hfiller
  case front =>
    have hblanks := filler_take_blankLength source.toList
    have hstart := (hskip 0).drop_take_offset (n := 0)
      (List.take_append_drop (blankLength source.toList) source.toList).symm (Nat.zero_le _)
    rw [List.drop_zero] at hstart
    rw [readingStart, (hskip 0).drop_offset, hstart]
    exact hblanks
  case behind =>
    intro k t h hkind
    rw [readingStart, (hskip k).drop_offset]
    exact ((Cursor.took_next h).resolve_right fun htoken => htoken.1 hkind).2

end GameBoyAssembler
