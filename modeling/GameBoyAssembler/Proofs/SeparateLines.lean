import GameBoyAssembler.Proofs.LineByLine
import GameBoyAssembler.Proofs.SameWords

/-!
# Assembling line by line

Each line of a source is one statement, and a line is read in the same way wherever it stands.  So a
source is assembled as the list of its lines: blank lines are left out, each of the others is read
alone, and what comes out differs from the program of the source at most in the places that its
symbols were defined at.  Programs can then be compared by comparing lists of lines.

Main definitions:

* `readLines` — the items of the lines that are not blank, each line read alone;
* `Line.alone` — a line of its own with these items;
* `Line.written` — the lines that hold something;
* `Line.ReadAs` — lines with the same words as these items.

Main results:

* `readLines_intercalate` — the lines of a text that is joined from parts are the lines of the parts;
* `Line.readAs_ofSource` — the lines of a source are read as its lines alone;
* `agrees_assemble_readLines` — **a source is assembled as its lines are, each read alone**.
-/

set_option relaxedAutoImplicit false
set_option autoImplicit false

namespace GameBoyAssembler

/-! ### The items of lines -/

/-- The items of the lines that are not blank, each line read alone. -/
def readLines (cs : List Char) : List (List Item) :=
  ((cs.splitOn '\n').filter fun line => !isBlankLine line).map fun line =>
    tokenize (String.ofList line)

theorem readLines_last {line : List Char} (hfeed : '\n' ∉ line) :
    readLines line = if isBlankLine line then [] else [tokenize (String.ofList line)] := by
  rw [readLines, splitOn_of_notMem hfeed]
  cases h : isBlankLine line <;> simp [h]

theorem readLines_cons {line : List Char} (hfeed : '\n' ∉ line) (cs : List Char) :
    readLines (line ++ '\n' :: cs) = if isBlankLine line then readLines cs
      else tokenize (String.ofList line) :: readLines cs := by
  rw [readLines, splitOn_append hfeed]
  cases h : isBlankLine line <;> simp [h, readLines]

/-- **The lines of two texts, one below the other, are the lines of both.** -/
theorem readLines_append (cs ds : List Char) :
    readLines (cs ++ '\n' :: ds) = readLines cs ++ readLines ds := by
  induction cs using line_induction with
  | last line hfeed =>
      rw [readLines_cons hfeed, readLines_last hfeed]
      split <;> rfl
  | step line cs hfeed ih =>
      rw [List.append_assoc, List.cons_append, readLines_cons hfeed, readLines_cons hfeed, ih]
      split <;> rfl

theorem readLines_intercalate (lines : List String) :
    readLines ("\n".intercalate lines).toList = lines.flatMap fun line => readLines line.toList := by
  rw [String.toList_intercalate]
  induction lines with
  | nil => rfl
  | cons line lines ih =>
      cases lines with
      | nil => simp
      | cons next lines =>
          have hjoin : "\n".toList.intercalate ((line :: next :: lines).map String.toList)
              = line.toList ++ '\n' :: "\n".toList.intercalate ((next :: lines).map String.toList) := by
            simp [List.intercalate]
          rw [hjoin, readLines_append, ih]
          rfl

/-! ### Lines of a source -/

/-- A line of its own. -/
def Line.alone (items : List Item) : Line :=
  ⟨items, ⟨.endOfFile, "", .start, none⟩⟩

theorem Line.ofItems_inLine {items : List Item} (h : ∀ x ∈ items, Item.InLine x) {stop : Token}
    (hstop : stop.endsLine = true) (rest : List Item) :
    ofItems (items ++ .ok stop :: rest) = ⟨items, stop⟩ :: ofItems rest := by
  induction items with
  | nil => exact ofItems_stop hstop rest
  | cons x items ih =>
      obtain ⟨hx, hitems⟩ := List.forall_mem_cons.1 h
      exact ofItems_cons hx (ih hitems)

/-- Items that differ in their line number only, or faults of the same kind. -/
theorem Item.SameUnless.sameItem {P : Prop} {n : Nat} {x y : Item} (h : Item.SameUnless P n x y) :
    SameItem x y := by
  rcases h with rfl | ⟨-, e, f, rfl, rfl, hkind⟩
  · cases y with
    | ok t => exact rfl
    | error e => exact rfl
  · exact hkind

namespace Cursor

/-- At the end of a line stands a token that ends it. -/
theorem items_atLineEnd {tail : List Char} (ht : AtLineEnd tail) (n column : Nat) :
    ∃ t rest, items ⟨tail, ⟨n, column⟩⟩ = .ok t :: rest ∧ t.endsLine = true := by
  rcases ht.cases with rfl | ⟨cs, rfl⟩
  · exact ⟨_, _, items_nil _, rfl⟩
  · rw [items_lineFeed]
    split <;> exact ⟨_, _, rfl, rfl⟩

/-- A blank line alone is its end. -/
theorem items_of_blank {line : List Char} (hfeed : '\n' ∉ line) (hblank : isBlankLine line = true)
    (n column : Nat) : ∃ t, items ⟨line, ⟨n, column⟩⟩ = [.ok t] ∧ t.endsLine = true := by
  have hitems := items_append_of_blank hfeed atLineEnd_nil (blankLength_of_blank hfeed hblank) n
    column
  rw [List.append_nil, items_nil] at hitems
  exact ⟨_, hitems, rfl⟩

/-- A line that is not blank is read as if it stood alone, whatever follows it. -/
theorem items_of_written {line tail : List Char} (hfeed : '\n' ∉ line) (ht : AtLineEnd tail)
    (hwritten : isBlankLine line = false) (n : Nat) :
    ∃ xs, items (settled ⟨line ++ tail, ⟨n, 1⟩⟩) = xs ++ items ⟨tail, ⟨n, 1 + line.length⟩⟩ ∧
      xs ≠ [] ∧ (∀ x ∈ xs, Item.InLine x) ∧
      List.Forall₂ SameItem xs (tokenize (String.ofList line)) := by
  obtain ⟨xs, ys, hxs, hys, hsame, hin⟩ := items_append ht atLineEnd_nil n 1 hfeed 1
  have halone : tokenize (String.ofList line) = ys := by
    rw [List.append_nil, items_nil] at hys
    rw [tokenize, ofSource, String.toList_ofList, Position.start, hys, List.dropLast_concat]
  refine ⟨xs, ?_, ?_, hin, ?_⟩
  · rw [(items_settled_of_written hfeed ht hwritten n 1).1, hxs]
  · rintro rfl
    obtain ⟨hitems, hfirst⟩ := items_append_of_rest hfeed ht rfl
      (drop_blankLength_of_written hwritten).1 n 1
    obtain ⟨t, rest, hend, hends⟩ := items_atLineEnd ht n (1 + line.length)
    rw [hxs, List.nil_append, hend] at hitems
    have hinside := hfirst t (List.cons.inj hitems).1.symm
    rw [hends] at hinside
    cases hinside
  · rw [halone]
    exact hsame.imp fun _ _ h => h.sameItem

end Cursor

namespace Line

/-- The lines that hold a token or an error. -/
def written (lines : List Line) : List Line :=
  lines.filter fun l => !l.items.isEmpty

/-- The lines are read as these items, at some places. -/
def ReadAs (lines : List Line) (itemss : List (List Item)) : Prop :=
  List.Forall₂ (fun l items => List.Forall₂ SameItem l.items items) lines itemss

theorem written_cons {items : List Item} (h : items ≠ []) (stop : Token) (lines : List Line) :
    written (⟨items, stop⟩ :: lines) = ⟨items, stop⟩ :: written lines := by
  simp [written, h]

/-- Behind blank lines stand the lines of the text. -/
theorem readAs_settled (n : Nat) (cs : List Char) :
    ReadAs (written (ofItems (Cursor.items (Cursor.settled ⟨cs, ⟨n, 1⟩⟩)))) (readLines cs) := by
  induction cs using line_induction generalizing n with
  | last line hfeed =>
      rw [readLines_last hfeed]
      cases hblank : isBlankLine line with
      | true =>
          rw [Cursor.items_of_rest_nil (Cursor.rest_settled_of_blank hfeed hblank ⟨n, 1⟩)]
          exact .nil
      | false =>
          obtain ⟨xs, hitems, hne, hin, hsame⟩ :=
            Cursor.items_of_written hfeed atLineEnd_nil hblank n
          rw [List.append_nil, Cursor.items_nil] at hitems
          rw [hitems, ofItems_inLine hin rfl, written_cons hne]
          exact .cons hsame .nil
  | step line cs hfeed ih =>
      rw [readLines_cons hfeed]
      cases hblank : isBlankLine line with
      | true =>
          rw [Cursor.settled_append_of_blank hfeed hblank]
          exact ih (n + 1)
      | false =>
          obtain ⟨xs, hitems, hne, hin, hsame⟩ :=
            Cursor.items_of_written hfeed (atLineEnd_lineFeed cs) hblank n
          have hrest := ih (n + 1)
          rw [hitems, Cursor.items_lineFeed]
          split
          · -- nothing but blank lines follows
            rename_i hnil
            rw [Cursor.items_of_rest_nil hnil] at hrest
            rw [ofItems_inLine hin rfl, written_cons hne]
            exact .cons hsame hrest
          · rw [ofItems_inLine hin rfl, written_cons hne]
            exact .cons hsame hrest

/-- **The lines of a source are read as its lines alone.** -/
theorem readAs_ofSource (source : String) :
    ReadAs (written (ofSource source)) (readLines source.toList) := by
  obtain ⟨cs, hcs⟩ : ∃ cs, source.toList = cs := ⟨_, rfl⟩
  rw [ofSource, Cursor.ofSource, hcs, Position.start]
  have hsettled := readAs_settled 1 cs
  cases cs using line_induction with
  | last _ hfeed =>
      cases hblank : isBlankLine cs with
      | true =>
          obtain ⟨t, hitems, hends⟩ := Cursor.items_of_blank hfeed hblank 1 1
          rw [hitems, ofItems_stop hends, readLines_last hfeed, if_pos hblank]
          exact .nil
      | false =>
          have hitems := (Cursor.items_settled_of_written hfeed atLineEnd_nil hblank 1 1).1
          rw [List.append_nil] at hitems
          rwa [← hitems]
  | step line cs hfeed _ =>
      cases hblank : isBlankLine line with
      | true =>
          have hall := blankLength_of_blank hfeed hblank
          have hrest := readAs_settled 2 cs
          rw [Cursor.items_append_of_blank hfeed (atLineEnd_lineFeed cs) hall,
            Cursor.items_lineFeed, readLines_cons hfeed, if_pos hblank]
          split
          · rename_i hnil
            rwa [Cursor.items_of_rest_nil hnil] at hrest
          · exact hrest
      | false =>
          rwa [← (Cursor.items_settled_of_written hfeed (atLineEnd_lineFeed cs) hblank 1 1).1]

end Line

/-- A line is read as its items, unless it has none. -/
theorem readLines_of_tokenize {line : String} (hfeed : '\n' ∉ line.toList)
    (hitems : tokenize line ≠ []) : readLines line.toList = [tokenize line] := by
  rw [readLines_last hfeed, String.ofList_toList]
  cases hblank : isBlankLine line.toList with
  | false => rfl
  | true =>
      obtain ⟨t, ht, -⟩ := Cursor.items_of_blank hfeed hblank 1 1
      refine absurd ?_ hitems
      rw [tokenize, Cursor.ofSource, Position.start, ht]
      rfl

/-! ### Programs -/

/-- A line without a token has no effect. -/
theorem Layout.untilError_written (l : Layout) (lines : List Line) :
    l.untilError (Line.written lines) = l.untilError lines := by
  induction lines generalizing l with
  | nil => rfl
  | cons line lines ih =>
      obtain ⟨items, stop⟩ := line
      cases items with
      | nil => exact ih l
      | cons x items =>
          rw [Line.written_cons (List.cons_ne_nil x items), untilError, untilError]
          split
          · exact ih _
          · rfl

/-- **A source is assembled as its lines are, each read alone.** -/
theorem agrees_assemble_readLines (source : String) (base : UInt16) :
    Agrees Program.Same (assemble source base)
      (assembleLines ((readLines source.toList).map Line.alone) base) := by
  have hwritten : assemble source base
      = assembleLines (Line.written (Line.ofSource source)) base := by
    rw [assemble_eq_assembleLines, assembleLines, assembleLines, Layout.untilError_written]
  rw [hwritten]
  refine agrees_assembleLines ?_ base
  exact List.forall₂_map_right_iff.2 (Line.readAs_ofSource source)

end GameBoyAssembler
