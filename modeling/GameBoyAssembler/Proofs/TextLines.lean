import GameBoyAssembler.Proofs.LineByLine

/-!
# Lines and line feeds

`lines` reads a text character by character.  A text is also a line without a line feed, or such a
line, a line feed and a text; these two equations say what its lines are in this form.  Of a line
that a line feed ends, a carriage return at the end is not kept, so a stretch of the text stands as
it is on its line if it holds neither of the two characters.

Main definitions:

* `withoutReturn` — a line without the carriage return of its end;
* `IsOneLine` — a text with neither of the characters of a line end.

Main results:

* `lines_of_notMem`, `lines_append` — the lines of a text, cut at its first line feed;
* `exists_line_of_stretch` — **a stretch without line ends stands on one line of the text**, behind
  as many characters as its column says.
-/

set_option relaxedAutoImplicit false
set_option autoImplicit false

namespace GameBoyAssembler

/-! ### The first line -/

/-- A line without the carriage return at its end. -/
def withoutReturn (line : List Char) : List Char :=
  if line.getLast? = some '\r' then line.dropLast else line

theorem withoutReturn_cons (c : Char) {line : List Char} (h : line ≠ []) :
    withoutReturn (c :: line) = c :: withoutReturn line := by
  rw [withoutReturn, withoutReturn, List.getLast?_cons_of_ne_nil h, List.dropLast_cons_of_ne_nil h]
  split <;> rfl

theorem withoutReturn_append (line : List Char) {rest : List Char} (h : rest ≠ []) :
    withoutReturn (line ++ rest) = line ++ withoutReturn rest := by
  induction line with
  | nil => rfl
  | cons c line ih =>
      rw [List.cons_append, withoutReturn_cons c (List.append_ne_nil_of_right_ne_nil line h), ih]
      rfl

theorem withoutReturn_of_notMem {line : List Char} (h : '\r' ∉ line) :
    withoutReturn line = line :=
  if_neg fun hlast => h (List.mem_of_getLast? hlast)

/-- A character that starts no line end is put in front of the first line. -/
theorem lines_cons {c : Char} {cs : List Char} (hc : c ≠ '\n')
    (hcs : c = '\r' → cs.head? ≠ some '\n') :
    lines (c :: cs) = (c :: (lines cs).head?.getD []) :: (lines cs).tail := by
  rw [lines.eq_def]
  split
  · rename_i h
    cases h
  · rename_i h
    cases h
    exact absurd rfl hc
  · rename_i h
    cases h
    exact absurd rfl (hcs rfl)
  · rename_i h
    cases h
    cases lines cs <;> rfl

theorem lines_of_notMem {line : List Char} (hfeed : '\n' ∉ line) (hne : line ≠ []) :
    lines line = [line] := by
  induction line with
  | nil => exact absurd rfl hne
  | cons c line ih =>
      rw [List.mem_cons, not_or] at hfeed
      have hhead : line.head? ≠ some '\n' := fun h => hfeed.2 (List.mem_of_head? h)
      rw [lines_cons (Ne.symm hfeed.1) fun _ => hhead]
      cases line with
      | nil => rfl
      | cons d line => rw [ih hfeed.2 (List.cons_ne_nil d line)]; rfl

theorem lines_append {line : List Char} (hfeed : '\n' ∉ line) (cs : List Char) :
    lines (line ++ '\n' :: cs) = withoutReturn line :: lines cs := by
  induction line with
  | nil => exact lines_lineFeed cs
  | cons c line ih =>
      rw [List.mem_cons, not_or] at hfeed
      have hc : c ≠ '\n' := Ne.symm hfeed.1
      cases line with
      | nil =>
          by_cases hreturn : c = '\r'
          · subst hreturn
            rw [List.cons_append, List.nil_append, lines]
            rfl
          · have hline : '\r' ∉ [c] := by simpa using Ne.symm hreturn
            rw [List.cons_append, lines_cons hc fun h => absurd h hreturn, ih hfeed.2,
              withoutReturn_of_notMem hline]
            rfl
      | cons d line =>
          have hhead : (d :: line ++ '\n' :: cs).head? ≠ some '\n' := by
            have hd := (List.mem_cons.not.1 hfeed.2)
            simpa using fun h : d = '\n' => hd (Or.inl h.symm)
          rw [List.cons_append, lines_cons hc fun _ => hhead, ih hfeed.2,
            withoutReturn_cons c (List.cons_ne_nil d line)]
          rfl

/-! ### Stretches of a line -/

/-- Neither a line feed nor a carriage return is in the text. -/
def IsOneLine (cs : List Char) : Prop :=
  '\n' ∉ cs ∧ '\r' ∉ cs

instance (cs : List Char) : Decidable (IsOneLine cs) :=
  inferInstanceAs (Decidable (_ ∧ _))

theorem isOneLine_append {cs ds : List Char} :
    IsOneLine (cs ++ ds) ↔ IsOneLine cs ∧ IsOneLine ds := by
  simp only [IsOneLine, List.mem_append, not_or]
  exact and_and_and_comm

/-- What a token is made of. -/
theorem isOneLine_lexeme {cs : List Char} (hfeed : cs.head? ≠ some '\n')
    (hreturn : cs.head? ≠ some '\r') : IsOneLine (cs.take (lexeme cs).length) :=
  ⟨notMem_lexeme rfl hfeed, notMem_lexeme rfl hreturn⟩

section Stretch

variable {word : List Char} (hne : word ≠ []) (hword : IsOneLine word)

include hne hword

theorem withoutReturn_stretch (line tail : List Char) :
    ∃ post, withoutReturn (line ++ (word ++ tail)) = line ++ (word ++ post) := by
  rw [withoutReturn_append line (List.append_ne_nil_of_left_ne_nil hne tail)]
  by_cases htail : tail = []
  · exact ⟨[], by rw [htail, List.append_nil, withoutReturn_of_notMem hword.2]⟩
  · exact ⟨withoutReturn tail, by rw [withoutReturn_append word htail]⟩

/-- The first line of a text, from its start to behind the stretch. -/
theorem exists_first_line {line : List Char} (hline : '\n' ∉ line) (rest : List Char) :
    ∃ post, (lines (line ++ (word ++ rest)))[0]? = some (line ++ (word ++ post)) := by
  have hstretch : '\n' ∉ line ++ word := by
    rw [List.mem_append]
    exact fun h => h.elim hline hword.1
  by_cases hrest : '\n' ∈ rest
  · obtain ⟨tail, cs, rfl, htail⟩ := List.eq_append_cons_of_mem hrest
    obtain ⟨post, hpost⟩ := withoutReturn_stretch hne hword line tail
    have hall : '\n' ∉ line ++ (word ++ tail) := by
      rw [← List.append_assoc, List.mem_append]
      exact fun h => h.elim hstretch htail
    refine ⟨post, ?_⟩
    rw [← List.append_assoc word, ← List.append_assoc, lines_append hall, hpost]
    rfl
  · have hall : '\n' ∉ line ++ (word ++ rest) := by
      rw [← List.append_assoc, List.mem_append]
      exact fun h => h.elim hstretch hrest
    have hsome : line ++ (word ++ rest) ≠ [] := by
      simp [hne]
    exact ⟨rest, by rw [lines_of_notMem hall hsome]; rfl⟩

/-- **A stretch without line ends stands on one line of the text**, and the place where it starts
says which line and how many characters are in front of it. -/
theorem exists_line_of_stretch (front rest : List Char) (n : Nat) :
    ∃ k pre post, (lines (front ++ (word ++ rest)))[k]? = some (pre ++ (word ++ post)) ∧
      (⟨n, 1⟩ : Position).after front = ⟨n + k, pre.length + 1⟩ := by
  induction front using line_induction generalizing n with
  | last line hline =>
      obtain ⟨post, hpost⟩ := exists_first_line hne hword hline rest
      refine ⟨0, line, post, hpost, ?_⟩
      rw [Position.after_of_notMem hline, Nat.add_comm 1]
      rfl
  | step line cs hline ih =>
      obtain ⟨k, pre, post, hk, hpos⟩ := ih (n + 1)
      refine ⟨k + 1, pre, post, ?_, ?_⟩
      · rw [List.append_assoc, List.cons_append, lines_append hline, List.getElem?_cons_succ, hk]
      · rw [Position.after_append, Position.after_of_notMem hline, Position.after_cons,
          Position.step, if_pos rfl, hpos, Nat.add_assoc, Nat.add_comm 1]

end Stretch

end GameBoyAssembler
