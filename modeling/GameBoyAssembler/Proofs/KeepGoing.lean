import GameBoyAssembler.Proofs.AllErrors
import GameBoyAssembler.Proofs.Places
import GameBoyAssembler.Proofs.Statements
import Mathlib.Data.List.Nodup
import Mathlib.Data.List.Perm.Subperm

/-!
# One error a line

When all errors are collected, reading goes on behind a line with an error, with the next line and
never in the middle of the same one.  Every line leaves at most one mark: the error that was found on
it while the lines were laid out, or the instruction that was recorded for it.  As the lines of a
source stand one below the other, so do the marks, and no source has more errors than lines.

Main definitions:

* `Mark`, `Mark.line` — an error or an instruction, with the line it stands on.

Main results:

* `Layout.exists_marks` — the errors and instructions of some lines are marks, at most one for each
  line that is not empty;
* `Layout.exists_marks_ofSource` — the marks of a source, and how many there can be;
* `keepGoing_one_mark_a_line` — **one error or one instruction a line**, and never more errors than
  lines.
-/

set_option relaxedAutoImplicit false
set_option autoImplicit false

namespace GameBoyAssembler

/-! ### Marks -/

/-- What a line leaves behind: an error or an instruction. -/
abbrev Mark := Error ⊕ Pending

/-- The line that the mark stands on. -/
def Mark.line : Mark → Nat
  | .inl e => e.span.pos.line
  | .inr q => q.name.pos.line

/-- On a line that is in place, whatever is to blame for an error stands on the line. -/
theorem Line.IsPlaced.line_of_blamed {l : Line} (h : l.IsPlaced) {Q : Token → Prop} {e : Error}
    (he : Blamed Q l.items e) : e.span.pos.line = l.number := by
  rcases he with hmem | ⟨⟨t, ht, hspan⟩, -⟩
  · exact h.items_line _ hmem
  · rw [hspan]
    exact h.items_line _ ht

namespace Layout

/-- The numbers of the lines with anything on them. -/
def numbersOf (lines : List Line) : List Nat :=
  (lines.filter fun line => !line.items.isEmpty).map Line.number

theorem numbersOf_cons (line : Line) (lines : List Line) :
    (numbersOf lines).Sublist (numbersOf (line :: lines)) :=
  ((List.sublist_cons_self line lines).filter _).map _

theorem numbersOf_cons_of_mem {line : Line} {item : Item} (h : item ∈ line.items)
    (lines : List Line) : numbersOf (line :: lines) = line.number :: numbersOf lines := by
  have hne : line.items.isEmpty = false := by
    cases hitems : line.items with
    | nil => rw [hitems] at h; cases h
    | cons _ _ => rfl
  rw [numbersOf, List.filter_cons, hne]
  rfl

/-- The errors and instructions of some lines are marks, at most one for each line. -/
theorem exists_marks {lines : List Line} (hplaced : ∀ line ∈ lines, line.IsPlaced) (l : Layout) :
    ∃ ms : List Mark, (ms.map Mark.line).Sublist (numbersOf lines) ∧
      (l.keepGoing lines).2 = ms.filterMap Sum.getLeft? ∧
      (l.keepGoing lines).1.pending.toList = l.pending.toList ++ ms.filterMap Sum.getRight? := by
  induction lines generalizing l with
  | nil => exact ⟨[], .slnil, rfl, (List.append_nil _).symm⟩
  | cons line lines ih =>
      obtain ⟨hline, hlines⟩ := List.forall_mem_cons.1 hplaced
      have houtcome := outcome_add (Q := Any) (l := l) line
        (fun _ _ _ => ⟨trivial, fun _ _ _ => trivial⟩) (fun _ _ => trivial)
      obtain ⟨ms, hsub, herrors, hpending⟩ := ih hlines (l.add line.statement).1
      rw [keepGoing]
      generalize l.add line.statement = s at *
      -- a line without a mark is passed over; the mark of any other stands on it
      cases houtcome with
      | quiet h =>
          refine ⟨ms, hsub.trans (numbersOf_cons line lines), herrors, ?_⟩
          rw [hpending, h]
      | @fault l' e h hblamed =>
          have hitem : ∃ item, item ∈ line.items := by
            rcases hblamed with hmem | ⟨⟨t, ht, -⟩, -⟩
            · exact ⟨_, hmem⟩
            · exact ⟨_, ht⟩
          obtain ⟨item, hitem⟩ := hitem
          refine ⟨.inl e :: ms, ?_, congrArg (e :: ·) herrors, ?_⟩
          · rw [numbersOf_cons_of_mem hitem, List.map_cons, Mark.line, hline.line_of_blamed hblamed]
            exact hsub.cons_cons _
          · rw [hpending, h]
            rfl
      | @placed l' q h hname =>
          refine ⟨.inr q :: ms, ?_, herrors, ?_⟩
          · rw [numbersOf_cons_of_mem hname, List.map_cons, Mark.line]
            have hq : q.name.pos.line = line.number := hline.items_line _ hname
            rw [hq]
            exact hsub.cons_cons _
          · rw [hpending, h, Array.toList_push, List.append_assoc]
            rfl

end Layout

/-! ### All lines of a source -/

/-- The numbers of the lines of a source are increasing, and none is beyond the last line. -/
theorem Layout.numbersOf_ofSource (source : String) :
    (numbersOf (Line.ofSource source)).Pairwise (· < ·) ∧
      ∀ n ∈ numbersOf (Line.ofSource source), 0 < n ∧ n ≤ (lines source.toList).length := by
  constructor
  · rw [numbersOf, List.pairwise_map]
    exact (Line.pairwise_number source).filter _
  · intro n hn
    obtain ⟨line, hline, rfl⟩ := List.mem_map.1 hn
    obtain ⟨hmem, hitems⟩ := List.mem_filter.1 hline
    refine ⟨Line.number_pos hmem, Line.number_le hmem ?_⟩
    intro hnil
    rw [hnil] at hitems
    cases hitems

/-- There is room for `n` increasing numbers from one to `n` only. -/
theorem length_le_of_increasing {ns : List Nat} {n : Nat} (h : ns.Pairwise (· < ·))
    (hn : ∀ k ∈ ns, 0 < k ∧ k ≤ n) : ns.length ≤ n := by
  have hnodup : ns.Nodup := h.imp Nat.ne_of_lt
  have hsub : ns ⊆ List.range' 1 n := by
    intro k hk
    have := hn k hk
    rw [List.mem_range'_1]
    omega
  simpa using (hnodup.subperm hsub).length_le

/-- The errors and instructions of a source are marks on lines further and further down, and there are
not more of them than lines. -/
theorem Layout.exists_marks_ofSource (source : String) (base : UInt16) :
    ∃ ms : List Mark, ms.Pairwise (fun m m' => m.line < m'.line) ∧
      ms.length ≤ (lines source.toList).length ∧
      ((start base).keepGoing (Line.ofSource source)).2 = ms.filterMap Sum.getLeft? ∧
      ((start base).keepGoing (Line.ofSource source)).1.pending.toList
        = ms.filterMap Sum.getRight? := by
  have hplaced : ∀ line ∈ Line.ofSource source, line.IsPlaced :=
    fun _ hline => Line.isPlaced_of_mem hline
  obtain ⟨ms, hsub, herrors, hpending⟩ := exists_marks hplaced (start base)
  obtain ⟨hnumbers, hrange⟩ := numbersOf_ofSource source
  refine ⟨ms, List.pairwise_map.1 (hnumbers.sublist hsub), ?_, herrors, hpending⟩
  rw [← List.length_map Mark.line]
  refine length_le_of_increasing (hnumbers.sublist hsub) ?_
  intro n hn
  exact hrange n (hsub.subset hn)

/-- What is picked from marks on increasing lines stands on increasing lines. -/
theorem pairwise_line_filterMap {α : Type} {f : Mark → Option α} {line : α → Nat}
    (hf : ∀ m a, f m = some a → m.line = line a) {ms : List Mark}
    (h : ms.Pairwise fun m m' => m.line < m'.line) :
    (ms.filterMap f).Pairwise fun a b => line a < line b := by
  rw [List.pairwise_filterMap]
  refine h.imp ?_
  intro m m' hlt a ha b hb
  rw [← hf m a ha, ← hf m' b hb]
  exact hlt

theorem length_marks (ms : List Mark) :
    (ms.filterMap Sum.getLeft?).length + (ms.filterMap Sum.getRight?).length = ms.length := by
  induction ms with
  | nil => rfl
  | cons m ms ih =>
      cases m with
      | inl e =>
          simp only [List.filterMap_cons, Sum.getLeft?_inl, Sum.getRight?_inl, List.length_cons]
          omega
      | inr q =>
          simp only [List.filterMap_cons, Sum.getLeft?_inr, Sum.getRight?_inr, List.length_cons]
          omega

theorem length_assembleAll_errors {source : String} {base : UInt16} {es : List Error}
    (h : assembleAll source base = .error es) :
    es.length = (layoutErrors source base).length + (valueErrors source base).length := by
  rw [assembleAll_eq] at h
  dsimp only at h
  split at h
  · cases h
  · cases h
    rw [List.length_mergeSort, List.length_append]

/-- **One error or one instruction a line.**  When the lines of a source are laid out, errors or not,
the errors stand on lines further and further down, and so do the instructions; no line with an error
has an instruction; and so all errors together, with those that the values of symbols bring about, are
not more than the lines of the source. -/
theorem keepGoing_one_mark_a_line (source : String) (base : UInt16) :
    let run := (Layout.start base).keepGoing (Line.ofSource source)
    run.2.Pairwise (fun e f => e.span.pos.line < f.span.pos.line) ∧
    run.1.pending.toList.Pairwise (fun q r => q.name.pos.line < r.name.pos.line) ∧
    (∀ e ∈ run.2, ∀ q ∈ run.1.pending.toList, q.name.pos.line ≠ e.span.pos.line) ∧
    run.2.length + run.1.pending.size ≤ (lines source.toList).length ∧
    ∀ es, assembleAll source base = .error es → es.length ≤ (lines source.toList).length := by
  intro run
  obtain ⟨ms, hlines, hcount, herrors, hpending⟩ := Layout.exists_marks_ofSource source base
  have herrors : run.2 = ms.filterMap Sum.getLeft? := herrors
  have hpending : run.1.pending.toList = ms.filterMap Sum.getRight? := hpending
  have hsum := length_marks ms
  rw [← herrors, ← hpending, Array.length_toList] at hsum
  refine ⟨?_, ?_, ?_, ?_, ?_⟩
  · rw [herrors]
    refine pairwise_line_filterMap ?_ hlines
    rintro m e hm
    obtain rfl := Sum.getLeft?_eq_some_iff.1 hm
    rfl
  · rw [hpending]
    refine pairwise_line_filterMap ?_ hlines
    rintro m q hm
    obtain rfl := Sum.getRight?_eq_some_iff.1 hm
    rfl
  · intro e he q hq heq
    rw [herrors] at he
    rw [hpending] at hq
    obtain ⟨m, hm, hme⟩ := List.mem_filterMap.1 he
    obtain ⟨m', hm', hmq⟩ := List.mem_filterMap.1 hq
    obtain rfl := Sum.getLeft?_eq_some_iff.1 hme
    obtain rfl := Sum.getRight?_eq_some_iff.1 hmq
    have hnodup : (ms.map Mark.line).Nodup := (List.pairwise_map.2 hlines).imp Nat.ne_of_lt
    cases List.inj_on_of_nodup_map hnodup hm' hm heq
  · exact hsum ▸ hcount
  · intro es hes
    rw [length_assembleAll_errors hes]
    have hvalues : (valueErrors source base).length ≤ run.1.pending.size := by
      have hresults := List.length_filterMap_le errorOf?
        (run.1.pending.toList.map (Pending.resolve run.1.symbols))
      rw [List.length_map, Array.length_toList] at hresults
      exact hresults
    have hlayout : (layoutErrors source base).length = run.2.length := rfl
    omega

/-- Errors of every stage, one a line: an unknown mnemonic, something behind a constant, a character
that starts no token, and a register as a label; then a jump to a symbol that does not exist, which is
recorded and fails later. -/
theorem keepGoing_one_mark_a_line_broken :
    ∃ es, assembleAll "MOV A\nX EQU 1 2\n@ NOP\nHL: NOP\nJR FAR\nNOP" 0 = .error es ∧
      es.length = 5 ∧
      (layoutErrors "MOV A\nX EQU 1 2\n@ NOP\nHL: NOP\nJR FAR\nNOP" 0).map
        (fun e => e.span.pos.line) = [1, 2, 3, 4] ∧
      es.length ≤ (lines "MOV A\nX EQU 1 2\n@ NOP\nHL: NOP\nJR FAR\nNOP".toList).length := by
  have hlayout : (layoutErrors "MOV A\nX EQU 1 2\n@ NOP\nHL: NOP\nJR FAR\nNOP" 0).map
      (fun e => e.span.pos.line) = [1, 2, 3, 4] := by decide +kernel
  have hvalues : (valueErrors "MOV A\nX EQU 1 2\n@ NOP\nHL: NOP\nJR FAR\nNOP" 0).map
      (fun e => e.span.pos.line) = [5] := by decide +kernel
  cases h : assembleAll "MOV A\nX EQU 1 2\n@ NOP\nHL: NOP\nJR FAR\nNOP" 0 with
  | ok p =>
      have hfirst := errorOf?_assemble "MOV A\nX EQU 1 2\n@ NOP\nHL: NOP\nJR FAR\nNOP" 0
      rw [assemble_of_assembleAll h] at hfirst
      rw [(List.append_eq_nil_iff.1 (List.head?_eq_none_iff.1 hfirst.symm)).1] at hlayout
      cases hlayout
  | error es =>
      have hcount := length_assembleAll_errors h
      have hlayout' := congrArg List.length hlayout
      have hvalues' := congrArg List.length hvalues
      rw [List.length_map] at hlayout' hvalues'
      rw [hlayout', hvalues'] at hcount
      obtain ⟨-, -, -, -, hmost⟩ := keepGoing_one_mark_a_line _ 0
      exact ⟨es, rfl, hcount, hlayout, hmost es h⟩

end GameBoyAssembler
