import GameBoyAssembler.Diagnostic
import GameBoyAssembler.Proofs.TextLines

/-!
# Marks stand under what they mark

An error is shown above a mark, and the mark has to stand under the characters that it is about.  On a
screen a tab goes on to the next tab stop, so that the width of a text depends on where its tabs stand
and on the distance of the tab stops.  What is written in front of the mark is as wide as what is
written above it, for every such distance: it has a tab where the line above has one, and is blank
elsewhere.

Main definitions:

* `displayWidth` — the number of cells that a text takes up on a screen;
* `endedLines` — the lines of a text, said of what stands between its line feeds;
* `Span.gutter`, `Span.shownLine` — what an excerpt shows: the number of a line, and the line;
* `Span.LinesUp` — two lines of an excerpt of which the second marks the span in the first.

Main results:

* `lines_eq_endedLines` — the lines of a text are what stands between its line feeds;
* `cellBehind_map_blank` — a text that is blanked out stays as wide as it was;
* `mark_lines_up` — **every mark stands under the column that it marks**, in both excerpts of an error.
-/

set_option relaxedAutoImplicit false
set_option autoImplicit false

namespace GameBoyAssembler

/-! ### Cells of a screen -/

/-- The cell behind the character `c` in cell `n`.  A tab goes on to the next multiple of `tab`. -/
def nextCell (tab n : Nat) (c : Char) : Nat :=
  if c = '\t' then (n / tab + 1) * tab else n + 1

/-- The cell behind a text that starts in cell `n`. -/
def cellBehind (tab n : Nat) (cs : List Char) : Nat :=
  cs.foldl (nextCell tab) n

/-- The number of cells of a text that starts at the edge of the screen. -/
def displayWidth (tab : Nat) (cs : List Char) : Nat :=
  cellBehind tab 0 cs

/-- A tab at a tab stop goes on to the next one. -/
example : displayWidth 4 "a\tbcd\t\té".toList = 13 := by decide

section Cells

variable (tab n : Nat)

theorem cellBehind_cons (c : Char) (cs : List Char) :
    cellBehind tab n (c :: cs) = cellBehind tab (nextCell tab n c) cs :=
  rfl

theorem cellBehind_append (cs ds : List Char) :
    cellBehind tab n (cs ++ ds) = cellBehind tab (cellBehind tab n cs) ds :=
  List.foldl_append

theorem cellBehind_of_notMem {cs : List Char} (h : '\t' ∉ cs) :
    cellBehind tab n cs = n + cs.length := by
  induction cs generalizing n with
  | nil => rfl
  | cons c cs ih =>
      rw [List.mem_cons, not_or] at h
      rw [cellBehind_cons, ih _ h.2, nextCell, if_neg (Ne.symm h.1), List.length_cons]
      omega

/-- A text whose characters are blanked out, all but the tabs, is as wide as before. -/
theorem cellBehind_map_blank (cs : List Char) :
    cellBehind tab n (cs.map fun c => if c = '\t' then '\t' else ' ') = cellBehind tab n cs := by
  induction cs generalizing n with
  | nil => rfl
  | cons c cs ih =>
      have hcell : nextCell tab n (if c = '\t' then '\t' else ' ') = nextCell tab n c := by
        by_cases hc : c = '\t'
        · rw [if_pos hc, hc]
        · rw [if_neg hc, nextCell, nextCell, if_neg hc, if_neg (by decide)]
      rw [List.map_cons, cellBehind_cons, cellBehind_cons, hcell, ih]

end Cells

/-! ### Lines between line feeds -/

/-- The lines of a text that is cut at its line feeds.  A carriage return in front of a line feed is
left out, and if nothing follows the last line feed there is no line behind it. -/
def endedLines : List (List Char) → List (List Char)
  | [] => []
  | [last] => if last = [] then [] else [last]
  | piece :: pieces => withoutReturn piece :: endedLines pieces

theorem lines_eq_endedLines (cs : List Char) : lines cs = endedLines (cs.splitOn '\n') := by
  induction cs using line_induction with
  | last line hfeed =>
      rw [splitOn_of_notMem hfeed, endedLines]
      by_cases hline : line = []
      · rw [if_pos hline, hline, lines]
      · rw [if_neg hline, lines_of_notMem hfeed hline]
  | step line cs hfeed ih =>
      obtain ⟨piece, pieces, hsplit⟩ : ∃ piece pieces, cs.splitOn '\n' = piece :: pieces :=
        List.exists_cons_of_ne_nil (List.splitOnP_ne_nil (· == '\n') cs)
      rw [lines_append hfeed, splitOn_append hfeed, ih, hsplit]
      rfl

theorem notMem_withoutReturn {c : Char} {line : List Char} (h : c ∉ line) :
    c ∉ withoutReturn line := by
  unfold withoutReturn
  split
  · exact fun hmem => h ((List.dropLast_sublist line).mem hmem)
  · exact h

theorem lineFeed_notMem_of_mem_lines {cs line : List Char} (h : line ∈ lines cs) : '\n' ∉ line := by
  induction cs using line_induction with
  | last last hfeed =>
      by_cases hlast : last = []
      · rw [hlast, lines] at h
        cases h
      · rw [lines_of_notMem hfeed hlast, List.mem_singleton] at h
        rwa [h]
  | step first cs hfeed ih =>
      rw [lines_append hfeed, List.mem_cons] at h
      rcases h with rfl | h
      · exact notMem_withoutReturn hfeed
      · exact ih h

theorem lineFeed_notMem_lineText (source : List Char) (n : Nat) : '\n' ∉ lineText source n := by
  unfold lineText
  cases h : (lines source)[n - 1]? with
  | none => exact List.not_mem_nil
  | some line => exact lineFeed_notMem_of_mem_lines (List.mem_of_getElem? h)

/-! ### Excerpts -/

namespace Span

/-- What an excerpt has in front of the line: its number and a bar. -/
def gutter (s : Span) : List Char :=
  (Nat.repr s.pos.line).toList ++ " | ".toList

/-- The line that an excerpt shows.  It is empty if the source has no line of this number, and number
zero is shown as the first line. -/
def shownLine (source : String) (s : Span) : List Char :=
  ((endedLines (source.toList.splitOn '\n'))[max s.pos.line 1 - 1]?).getD []

/-- The first line shows the line of the span behind its number, and in the second there is a mark with
one character for each of the span.  In front of the mark stands something as wide as the number and the
characters in front of the column; a line that ends before the column is filled up with spaces. -/
structure LinesUp (source : String) (s : Span) (shown mark : String) : Prop where
  shown_eq : shown.toList = s.gutter ++ s.shownLine source
  shown_oneLine : '\n' ∉ shown.toList
  mark_oneLine : '\n' ∉ mark.toList
  exists_gap : ∃ gap, mark.toList = gap ++ '^' :: List.replicate (max s.width 1 - 1) '~' ∧
    '^' ∉ gap ∧
    ∀ tab, displayWidth tab gap
      = displayWidth tab (s.gutter ++ (s.shownLine source).takeD (s.pos.column - 1) ' ')

theorem shownLine_eq (source : String) (s : Span) :
    s.shownLine source = lineText source.toList s.pos.line := by
  have hline : max s.pos.line 1 - 1 = s.pos.line - 1 := by omega
  rw [shownLine, ← lines_eq_endedLines, hline, lineText]

/-- The number of a line has decimal digits only. -/
theorem notMem_gutter {c : Char} (hdigit : c.isDigit = false) (hbar : c ∉ " | ".toList) (s : Span) :
    c ∉ s.gutter := by
  rw [gutter, List.mem_append, Nat.toList_repr]
  rintro (hc | hc)
  · have hisDigit := Nat.isDigit_of_mem_toDigits (by decide) (by decide) hc
    rw [hdigit] at hisDigit
    cases hisDigit
  · exact hbar hc

end Span

theorem take_fill (text : List Char) (n : Nat) :
    (text ++ List.replicate (n - text.length) ' ').take n = text.takeD n ' ' := by
  induction n generalizing text with
  | zero => rfl
  | succ n ih =>
      cases text with
      | nil => simp [List.replicate_succ]
      | cons c cs => simp [ih]

/-- The padding is as wide as the text in front of the mark. -/
theorem cellBehind_markPadding (tab n : Nat) (text : List Char) (width : Nat) :
    cellBehind tab n (markPadding text width) = cellBehind tab n (text.takeD width ' ') := by
  rw [markPadding, cellBehind_map_blank, take_fill]

theorem notMem_markPadding {c : Char} (htab : c ≠ '\t') (hspace : c ≠ ' ') (text : List Char)
    (width : Nat) : c ∉ markPadding text width := by
  intro hc
  obtain ⟨d, -, hd⟩ := List.mem_map.1 hc
  split at hd
  · exact htab hd.symm
  · exact hspace hd.symm

namespace Span

/-- What an excerpt has in front of the mark. -/
def gap (source : String) (s : Span) : List Char :=
  List.replicate (Nat.repr s.pos.line).length ' ' ++ " | ".toList
    ++ markPadding (s.shownLine source) (s.pos.column - 1)

theorem notMem_gap {c : Char} (htab : c ≠ '\t') (hbar : c ∉ " | ".toList) (source : String)
    (s : Span) : c ∉ s.gap source := by
  have hspace : c ≠ ' ' := by
    rintro rfl
    exact hbar (by decide)
  rw [gap, List.mem_append, List.mem_append]
  rintro ((hc | hc) | hc)
  · exact hspace (List.eq_of_mem_replicate hc)
  · exact hbar hc
  · exact notMem_markPadding htab hspace _ _ hc

/-- **What stands in front of the mark is as wide as what stands above it.** -/
theorem displayWidth_gap (tab : Nat) (source : String) (s : Span) :
    displayWidth tab (s.gap source)
      = displayWidth tab (s.gutter ++ (s.shownLine source).takeD (s.pos.column - 1) ' ') := by
  -- neither the number nor the blanks below it hold a tab, so both are as wide as they are long
  have hblank : '\t' ∉ List.replicate (Nat.repr s.pos.line).length ' ' ++ " | ".toList := by
    rw [List.mem_append]
    rintro (h | h)
    · exact absurd (List.eq_of_mem_replicate h) (by decide)
    · exact absurd h (by decide)
  have hgutter : '\t' ∉ s.gutter := notMem_gutter rfl (by decide) s
  have hlength : (List.replicate (Nat.repr s.pos.line).length ' ' ++ " | ".toList).length
      = s.gutter.length := by
    rw [gutter, List.length_append, List.length_append, List.length_replicate,
      String.length_toList (s := Nat.repr s.pos.line)]
  rw [displayWidth, displayWidth, gap, cellBehind_append, cellBehind_of_notMem _ _ hblank,
    cellBehind_append, cellBehind_of_notMem _ _ hgutter, hlength, cellBehind_markPadding]

theorem exists_linesUp (source : String) (s : Span) :
    ∃ shown mark, s.LinesUp source shown mark ∧ excerpt source s = shown ++ "\n" ++ mark := by
  have htildes : max s.width 1 - 1 = s.width - 1 := by omega
  refine ⟨String.ofList (s.gutter ++ s.shownLine source),
    String.ofList (s.gap source ++ '^' :: List.replicate (s.width - 1) '~'),
    ⟨String.toList_ofList, ?_, ?_, ?_⟩, ?_⟩
  · rw [String.toList_ofList, List.mem_append, shownLine_eq]
    exact fun h => h.elim (notMem_gutter rfl (by decide) s) (lineFeed_notMem_lineText _ _)
  · rw [String.toList_ofList, List.mem_append, List.mem_cons]
    rintro (h | h | h)
    · exact notMem_gap (by decide) (by decide) source s h
    · exact absurd h (by decide)
    · exact absurd (List.eq_of_mem_replicate h) (by decide)
  · rw [String.toList_ofList, htildes]
    exact ⟨s.gap source, rfl, notMem_gap (by decide) (by decide) source s,
      fun tab => displayWidth_gap tab source s⟩
  · rw [shownLine_eq, gap, shownLine_eq, excerpt, gutter]
    simp only [String.ofList_append, String.ofList_toList, String.append_assoc]

end Span

/-- **Every mark stands under the column that it marks.**  An error is its message and an excerpt, and
a second excerpt if it refers to another place.  An excerpt is two lines.  The first is the line of the
span behind its number, and the second has the mark under the column of the span: for every distance of
the tab stops, what is in front of the mark is as wide as what is above it. -/
theorem mark_lines_up (source message : String) (s : Span) (reference : Option Span) :
    ∃ shown mark, s.LinesUp source shown mark ∧
      match reference with
      | none => report source message s reference = "\n".intercalate [message, shown, mark]
      | some other => ∃ shown' mark', other.LinesUp source shown' mark' ∧
          report source message s reference = "\n".intercalate
            [message, shown, mark, "The expression is referring to", shown', mark'] := by
  have hline : "\nThe expression is referring to\n"
      = "\n" ++ "The expression is referring to" ++ "\n" := by decide
  obtain ⟨shown, mark, hup, hexcerpt⟩ := s.exists_linesUp source
  refine ⟨shown, mark, hup, ?_⟩
  cases reference with
  | none =>
      rw [report, hexcerpt]
      simp only [String.intercalate_cons_cons, String.intercalate_singleton, String.append_assoc]
  | some other =>
      obtain ⟨shown', mark', hup', hexcerpt'⟩ := other.exists_linesUp source
      refine ⟨shown', mark', hup', ?_⟩
      rw [report, hexcerpt, hexcerpt', hline]
      simp only [String.intercalate_cons_cons, String.intercalate_singleton, String.append_assoc]

end GameBoyAssembler
