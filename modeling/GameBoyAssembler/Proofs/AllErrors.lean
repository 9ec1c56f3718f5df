import GameBoyAssembler.Diagnostic
import GameBoyAssembler.Proofs.Addresses

/-!
# The first error and all errors

A source is assembled up to its first error, or with all its errors.  The second way goes on behind a
wrong line with what the line left behind, and puts the errors in the order of the source in the
end.  Both ways make the same program of a source without errors.  Where there are errors, the first
way gives the one that the second finds first: an error of the layout if there is any, although an
error of a value may stand further up.

Main definitions:

* `layoutErrors`, `valueErrors` — the errors of a source that are found while the lines are laid out,
  and those that are found when the instructions get their values.

Main results:

* `errorOf?_assemble` — the first error is the first of both lists together;
* `assembleAll_of_assemble` — a program that comes out up to the first error comes out either way;
* `filter_mergeSort` — sorting keeps the order of items that count as equal;
* `assemble_agrees` — **both ways of assembling agree**.
-/

set_option relaxedAutoImplicit false
set_option autoImplicit false

namespace GameBoyAssembler

/-- The errors that are found while the lines are laid out, in the order of the lines. -/
def layoutErrors (source : String) (base : UInt16) : List Error :=
  ((Layout.start base).keepGoing (Line.ofSource source)).2

/-- The errors of the instructions that were laid out, which come up with the values of symbols. -/
def valueErrors (source : String) (base : UInt16) : List Error :=
  let layout := ((Layout.start base).keepGoing (Line.ofSource source)).1
  (layout.pending.toList.map (Pending.resolve layout.symbols)).filterMap errorOf?

/-! ### The first error -/

/-- Reading up to the first error stops at the first of all errors. -/
theorem Layout.errorOf?_untilError (l : Layout) (lines : List Line) :
    errorOf? (l.untilError lines) = (l.keepGoing lines).2.head? := by
  induction lines generalizing l with
  | nil => rfl
  | cons line lines ih =>
      rw [untilError, keepGoing]
      cases hadd : l.add line.statement with
      | mk l' error =>
          cases error with
          | none => simpa using ih l'
          | some e => rfl

theorem errorOf?_mapM {α β : Type} (f : α → Except Error β) (as : List α) :
    errorOf? (as.mapM f) = ((as.map f).filterMap errorOf?).head? := by
  induction as with
  | nil => rfl
  | cons a as ih =>
      rw [List.mapM_cons, List.map_cons]
      cases ha : f a with
      | error e => rfl
      | ok b =>
          rw [List.filterMap_cons_none rfl, ← ih]
          cases as.mapM f <;> rfl

/-- **The first error is an error of the layout if there is any**, and of a value otherwise. -/
theorem errorOf?_assemble (source : String) (base : UInt16) :
    errorOf? (assemble source base)
      = (layoutErrors source base ++ valueErrors source base).head? := by
  have hfirst := (Layout.start base).errorOf?_untilError (Line.ofSource source)
  unfold assemble
  cases hlayout : (Layout.start base).untilError (Line.ofSource source) with
  | error e =>
      rw [hlayout] at hfirst
      rw [List.head?_append, layoutErrors, ← hfirst]
      rfl
  | ok l =>
      -- without an error both ways have the same layout
      have hgo := Layout.untilError_eq_ok_iff.1 hlayout
      have hvalues := errorOf?_mapM (Pending.resolve l.symbols) l.pending.toList
      rw [layoutErrors, valueErrors, hgo, List.nil_append, ← hvalues]
      cases hmap : l.pending.toList.mapM (Pending.resolve l.symbols) <;>
        simp [bind, Except.bind, hmap, errorOf?, pure, Except.pure]

/-! ### All errors -/

/-- What comes out of a source with all errors collected. -/
theorem assembleAll_eq (source : String) (base : UInt16) :
    assembleAll source base =
      let layout := ((Layout.start base).keepGoing (Line.ofSource source)).1
      let results := layout.pending.toList.map (Pending.resolve layout.symbols)
      let errors := layoutErrors source base ++ valueErrors source base
      if errors.isEmpty then .ok ⟨results.filterMap Except.toOption, layout.symbols⟩
      else .error (errors.mergeSort Error.le) := rfl

/-- A program that comes out up to the first error comes out with all errors collected. -/
theorem assembleAll_of_assemble {source : String} {base : UInt16} {p : Program}
    (h : assemble source base = .ok p) : assembleAll source base = .ok p := by
  have hfirst := errorOf?_assemble source base
  rw [h] at hfirst
  have hnil : layoutErrors source base ++ valueErrors source base = [] :=
    List.head?_eq_none_iff.1 hfirst.symm
  have hsome : ∃ q, assembleAll source base = .ok q := by
    rw [assembleAll_eq, hnil]
    exact ⟨_, rfl⟩
  -- a source has one program, and the way back is known
  obtain ⟨q, hq⟩ := hsome
  have hback := assemble_of_assembleAll hq
  rw [h] at hback
  cases hback
  exact hq

/-- Where there is a first error, all errors come out sorted. -/
theorem assembleAll_of_assemble_error {source : String} {base : UInt16} {e : Error}
    (h : assemble source base = .error e) :
    assembleAll source base
      = .error ((layoutErrors source base ++ valueErrors source base).mergeSort Error.le) ∧
      e ∈ layoutErrors source base ++ valueErrors source base := by
  have hfirst := errorOf?_assemble source base
  rw [h] at hfirst
  have hmem : e ∈ layoutErrors source base ++ valueErrors source base :=
    List.mem_of_head? hfirst.symm
  refine ⟨?_, hmem⟩
  have hne : (layoutErrors source base ++ valueErrors source base).isEmpty = false := by
    cases herrors : layoutErrors source base ++ valueErrors source base with
    | nil => rw [herrors] at hmem; cases hmem
    | cons f fs => rfl
  rw [assembleAll_eq]
  simp only [hne]
  rfl

/-! ### The order of errors -/

theorem Position.le_iff {p q : Position} :
    p.le q = true ↔ p.line < q.line ∨ p.line = q.line ∧ p.column ≤ q.column := by
  simp [Position.le]

theorem Error.le_trans (e f g : Error) (hef : e.le f = true) (hfg : f.le g = true) :
    e.le g = true := by
  unfold Error.le at *
  rw [Position.le_iff] at *
  omega

theorem Error.le_total (e f : Error) : (e.le f || f.le e) = true := by
  unfold Error.le
  rw [Bool.or_eq_true, Position.le_iff, Position.le_iff]
  omega

/-- Sorting keeps the order of the items in a class, if all of them count as equal. -/
theorem filter_mergeSort {α : Type} {le : α → α → Bool}
    (htrans : ∀ a b c, le a b = true → le b c = true → le a c = true)
    (htotal : ∀ a b, (le a b || le b a) = true) {p : α → Bool}
    (hp : ∀ a b, p a = true → p b = true → le a b = true) (l : List α) :
    (l.mergeSort le).filter p = l.filter p := by
  -- the class is in order already, so that sorting keeps it as a sublist, and nothing is added
  have hordered : (l.filter p).Pairwise fun a b => le a b = true := by
    refine List.pairwise_of_forall_mem_list ?_
    intro a ha b hb
    exact hp a b (List.mem_filter.1 ha).2 (List.mem_filter.1 hb).2
  have hsub : (l.filter p).Sublist (l.mergeSort le) :=
    List.sublist_mergeSort htrans htotal hordered List.filter_sublist
  have hsub' : (l.filter p).Sublist ((l.mergeSort le).filter p) := by
    simpa using hsub.filter p
  have hlength : (l.filter p).length = ((l.mergeSort le).filter p).length :=
    ((List.mergeSort_perm l le).filter p).length_eq.symm
  exact (hsub'.eq_of_length hlength).symm

/-! ### Both ways -/

/-- **Both ways of assembling agree.**  They make the same program of the same sources.  Where the
first way gives an error, the second gives a list that shows this error; the list is in the order of
the source and holds the errors of the layout and then those of the values, where errors at the same
place stay in this order. -/
theorem assemble_agrees (source : String) (base : UInt16) :
    (∀ p, assemble source base = .ok p ↔ assembleAll source base = .ok p) ∧
    ∀ e, assemble source base = .error e → ∃ es, assembleAll source base = .error es ∧
      (e, e.render source) ∈ es.map (fun f => (f, f.render source)) ∧
      es.Pairwise (fun f g => f.span.pos.line < g.span.pos.line ∨
        f.span.pos.line = g.span.pos.line ∧ f.span.pos.column ≤ g.span.pos.column) ∧
      es.Perm (layoutErrors source base ++ valueErrors source base) ∧
      ∀ pos : Position, es.filter (fun f => f.span.pos = pos)
        = (layoutErrors source base ++ valueErrors source base).filter
            (fun f => f.span.pos = pos) := by
  refine ⟨fun p => ⟨assembleAll_of_assemble, assemble_of_assembleAll⟩, ?_⟩
  intro e he
  obtain ⟨hall, hmem⟩ := assembleAll_of_assemble_error he
  refine ⟨_, hall, ?_, ?_, List.mergeSort_perm _ _, ?_⟩
  · exact List.mem_map_of_mem (List.mem_mergeSort.2 hmem)
  · refine (List.pairwise_mergeSort Error.le_trans Error.le_total _).imp ?_
    intro f g hfg
    exact Position.le_iff.1 hfg
  · intro pos
    refine filter_mergeSort Error.le_trans Error.le_total ?_ _
    intro f g hf hg
    rw [decide_eq_true_iff] at hf hg
    refine Position.le_iff.2 (Or.inr ?_)
    rw [hf, hg]
    exact ⟨rfl, Nat.le_refl _⟩

/-- A value that does not fit stands above a wrong mnemonic: the mnemonic is the first error, and the
value comes before it in the list of all errors. -/
theorem assemble_agrees_misfit :
    ∃ e es, assemble "LD A, FAR\nMOV B, C\nFAR EQU 0x100" 0 = .error e ∧
      e.span.pos = ⟨2, 1⟩ ∧
      assembleAll "LD A, FAR\nMOV B, C\nFAR EQU 0x100" 0 = .error es ∧
      es.map (fun f => f.span.pos) = [⟨1, 7⟩, ⟨2, 1⟩] ∧ e ∈ es := by
  have hfirst : (errorOf? (assemble "LD A, FAR\nMOV B, C\nFAR EQU 0x100" 0)).map
      (fun f => f.span.pos) = some ⟨2, 1⟩ := by decide +kernel
  have hall : (layoutErrors "LD A, FAR\nMOV B, C\nFAR EQU 0x100" 0
      ++ valueErrors "LD A, FAR\nMOV B, C\nFAR EQU 0x100" 0).map (fun f => f.span.pos)
        = [⟨2, 1⟩, ⟨1, 7⟩] := by decide +kernel
  cases h : assemble "LD A, FAR\nMOV B, C\nFAR EQU 0x100" 0 with
  | ok p => rw [h] at hfirst; cases hfirst
  | error e =>
      rw [h] at hfirst
      obtain ⟨es, hes, hmem, horder, hperm, -⟩ := (assemble_agrees _ 0).2 e h
      obtain ⟨f, hf, heq⟩ := List.mem_map.1 hmem
      cases heq
      have hsorted : (es.map fun f => f.span.pos).Pairwise fun p q =>
          p.line < q.line ∨ p.line = q.line ∧ p.column ≤ q.column := List.pairwise_map.2 horder
      have hplaces := hperm.map fun f => f.span.pos
      rw [hall] at hplaces
      refine ⟨e, es, rfl, Option.some.inj hfirst, hes, ?_, hf⟩
      -- a list in order is told by its members
      refine List.Perm.eq_of_pairwise ?_ hsorted (by decide) (hplaces.trans (by decide))
      intro p q _ _ hpq hqp
      obtain ⟨line, column⟩ := p
      obtain ⟨line', column'⟩ := q
      dsimp only at hpq hqp
      rw [Position.mk.injEq]
      omega

end GameBoyAssembler
