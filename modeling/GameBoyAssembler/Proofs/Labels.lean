import GameBoyAssembler.Proofs.Places
import GameBoyAssembler.Proofs.Statements
import Mathlib.Algebra.Ring.Nat

/-!
# The values of labels

A label gets the address that the layout has reached.  Seen from the source, this is the base and the
bytes of all instructions that are written before the label; as a label opens its line, they stand on
earlier lines.  An instruction keeps the scope in which it is written, for the local labels that it
names.

Main definitions:

* `Written`, `Written.ofSource` — the instructions of a source as they are written, each with its
  scope, without any layout;
* `Layout.Effect` — all that a line without an error does to a layout;
* `lengthBefore` — the bytes of the instructions that are written before some place;
* `Layout.IsLabelled` — a layout in which every label has its value.

Main results:

* `Layout.effect_add` — every line without an error has such an effect;
* `Layout.written_keepGoing` — **the layout holds the instructions as they are written**;
* `Layout.isLabelled_keepGoing` — **a label is worth the base and the bytes written before it**.
-/

set_option relaxedAutoImplicit false
set_option autoImplicit false

namespace GameBoyAssembler

/-! ### Instructions as they are written -/

/-- An instruction as it is written, and the global label that its local labels belong to. -/
structure Written where
  mnemonic : Mnemonic
  name : Token
  operands : List Token
  scope : Option String
  deriving DecidableEq, Repr

namespace Written

/-- The scope behind a label. -/
def scopeBehind (scope : Option String) : Option Token → Option String
  | none => scope
  | some t => if t.kind = .globalLabel then some (withoutColons t.text) else scope

/-- The instruction that a body is, if it is one. -/
def ofBody (scope : Option String) : Except Error Body → List Written
  | .ok (.instruction mnemonic name operands) => [⟨mnemonic, name, operands, scope⟩]
  | _ => []

/-- The instructions of some lines, where the first one starts in `scope`. -/
def ofLines (scope : Option String) : List Line → List Written
  | [] => []
  | line :: lines =>
      let scope := scopeBehind scope line.statement.label
      ofBody scope line.statement.body ++ ofLines scope lines

/-- The instructions of a source. -/
def ofSource (source : String) : List Written :=
  ofLines none (Line.ofSource source)

theorem body_of_mem_ofBody {scope : Option String} {body : Except Error Body} {w : Written}
    (h : w ∈ ofBody scope body) : body = .ok (.instruction w.mnemonic w.name w.operands) := by
  unfold ofBody at h
  split at h
  · obtain rfl := List.mem_singleton.1 h
    rfl
  · cases h

end Written

/-- The instruction as it is written. -/
def Pending.written (q : Pending) : Written :=
  ⟨q.mnemonic, q.name, q.operands, q.scope⟩

namespace Line

/-- A line with an instruction holds its label, its name and its operands, and nothing else. -/
theorem items_of_instruction {l : Line} {mnemonic : Mnemonic} {name : Token}
    {operands : List Token} (h : l.statement.body = .ok (.instruction mnemonic name operands)) :
    l.items = (l.statement.label.toList ++ name :: operands).map .ok := by
  obtain ⟨items, hitems, -, hsays⟩ := l.exists_says
  rw [h] at hsays
  cases hsays
  rw [hitems, List.map_append]

theorem mem_items_of_label {l : Line} {t : Token} (h : l.statement.label = some t) :
    .ok t ∈ l.items := by
  obtain ⟨items, hitems, -, -⟩ := l.exists_says
  rw [hitems, h]
  exact List.mem_cons_self

end Line

/-! ### The effect of a line -/

namespace Layout

/-- What a statement without an error does: it opens the scope of its label and binds it, may bind a
constant, and records its instruction if it has one. -/
structure Effect (l : Layout) (s : Statement) (l' : Layout) : Prop where
  scope_eq : l'.scope = Written.scopeBehind l.scope s.label
  symbols : ∀ (key : String) (x : Symbol), l'.symbols[key]? = some x →
    l.symbols[key]? = some x ∨ x.kind = .constant ∨
      ∃ t, s.label = some t ∧ x = ⟨.label, .value l.address, t⟩
  pending : ∃ qs : List Pending, l'.pending.toList = l.pending.toList ++ qs ∧
    qs.map Pending.written = Written.ofBody l'.scope s.body

variable {l l' : Layout}

/-- Binding a key adds the symbol and changes nothing else. -/
theorem bind_ok {key : String} {symbol : Symbol} (h : l.bind key symbol = (l', none)) :
    l'.scope = l.scope ∧ l'.pending = l.pending ∧
      ∀ (k : String) (x : Symbol), l'.symbols[k]? = some x →
        l.symbols[k]? = some x ∨ x = symbol := by
  unfold bind SymbolTable.bind at h
  split at h
  · rename_i symbols hbind
    split at hbind
    · cases hbind
    · cases hbind
      cases h
      refine ⟨rfl, rfl, ?_⟩
      intro k x hx
      rw [Std.TreeMap.getElem?_insert] at hx
      split at hx
      · cases hx
        exact Or.inr rfl
      · exact Or.inl hx
  · cases h

theorem bindLabel_ok {t : Token} (h : l.bindLabel t = (l', none)) :
    l'.scope = l.scope ∧ l'.pending = l.pending ∧
      ∀ (k : String) (x : Symbol), l'.symbols[k]? = some x →
        l.symbols[k]? = some x ∨ x = ⟨.label, .value l.address, t⟩ := by
  unfold bindLabel at h
  split at h
  · exact bind_ok h
  · cases h

theorem defineLabel_ok {t : Token} (h : l.defineLabel t = (l', none)) :
    l'.scope = Written.scopeBehind l.scope (some t) ∧ l'.pending = l.pending ∧
      ∀ (k : String) (x : Symbol), l'.symbols[k]? = some x →
        l.symbols[k]? = some x ∨ x = ⟨.label, .value l.address, t⟩ := by
  unfold defineLabel at h
  rw [Written.scopeBehind]
  split at h
  · rename_i hkind
    rw [if_pos hkind]
    dsimp only at h
    split at h
    · cases h
    · exact bindLabel_ok h
  · rename_i hkind
    rw [if_neg hkind]
    exact bindLabel_ok h

theorem defineConstant_ok {name : Token} {value : ConstantValue}
    (h : l.defineConstant name value = (l', none)) :
    l'.scope = l.scope ∧ l'.pending = l.pending ∧
      ∀ (k : String) (x : Symbol), l'.symbols[k]? = some x →
        l.symbols[k]? = some x ∨ x.kind = .constant := by
  obtain ⟨key, meaning, hbind⟩ : ∃ key meaning,
      l.bind key ⟨.constant, meaning, name⟩ = (l', none) := by
    cases value with
    | number v => exact ⟨_, _, h⟩
    | symbol t =>
        unfold defineConstant at h
        dsimp only at h
        split at h
        · exact ⟨_, _, h⟩
        · cases h
  obtain ⟨hscope, hpending, hsymbols⟩ := bind_ok hbind
  refine ⟨hscope, hpending, ?_⟩
  intro k x hx
  refine (hsymbols k x hx).imp id ?_
  rintro rfl
  rfl

theorem place_ok {mnemonic : Mnemonic} {name : Token} {operands : List Token}
    (h : l.place mnemonic name operands = (l', none)) :
    l'.scope = l.scope ∧ l'.symbols = l.symbols ∧
      ∃ q : Pending, l'.pending = l.pending.push q ∧
        q.written = ⟨mnemonic, name, operands, l.scope⟩ := by
  unfold place at h
  dsimp only at h
  split at h
  · cases h
  · split at h
    · cases h
    · cases h
      exact ⟨rfl, rfl, _, rfl, rfl⟩

/-- The effect of a statement without a label. -/
theorem effect_body {body : Except Error Body} (h : l.add ⟨none, body⟩ = (l', none)) :
    l.Effect ⟨none, body⟩ l' := by
  cases body with
  | error e => cases h
  | ok body =>
      cases body with
      | empty =>
          cases h
          exact ⟨rfl, fun _ _ hx => Or.inl hx, [], (List.append_nil _).symm, rfl⟩
      | constant name value trailing =>
          replace h : (l.defineConstant name value).andThen (fun l => (l, trailing))
            = (l', none) := h
          cases hstep : l.defineConstant name value with
          | mk l₁ error =>
              rw [hstep] at h
              cases error with
              | some e => cases h
              | none =>
                  cases h
                  obtain ⟨hscope, hpending, hsymbols⟩ := defineConstant_ok hstep
                  refine ⟨hscope, ?_, [], ?_, rfl⟩
                  · intro key x hx
                    exact (hsymbols key x hx).imp id Or.inl
                  · rw [hpending, List.append_nil]
      | instruction mnemonic name operands =>
          obtain ⟨hscope, hsymbols, q, hpending, hq⟩ := place_ok h
          refine ⟨hscope, ?_, [q], ?_, ?_⟩
          · intro key x hx
            rw [hsymbols] at hx
            exact Or.inl hx
          · rw [hpending, Array.toList_push]
          · rw [hscope, List.map_singleton, hq]
            rfl

/-- **The effect of a statement without an error.** -/
theorem effect_add {s : Statement} (h : l.add s = (l', none)) : l.Effect s l' := by
  obtain ⟨label, body⟩ := s
  cases label with
  | none => exact effect_body h
  | some t =>
      rw [add_some] at h
      cases hstep : l.defineLabel t with
      | mk l₁ error =>
          rw [hstep] at h
          cases error with
          | some e => cases h
          | none =>
              obtain ⟨hscope, hpending, hsymbols⟩ := defineLabel_ok hstep
              have hbody := effect_body h
              refine ⟨hbody.scope_eq.trans hscope, ?_, ?_⟩
              · intro key x hx
                rcases hbody.symbols key x hx with hx | hx | ⟨u, hu, -⟩
                · refine (hsymbols key x hx).imp id fun hx => Or.inr ⟨t, rfl, hx⟩
                · exact Or.inr (Or.inl hx)
                · cases hu
              · rw [← hpending]
                exact hbody.pending

/-- The first of some lines without errors has an effect, and the others go on from it. -/
theorem keepGoing_cons_ok {line : Line} {lines : List Line}
    (h : l.keepGoing (line :: lines) = (l', [])) :
    ∃ l₁, l.add line.statement = (l₁, none) ∧ l₁.keepGoing lines = (l', []) := by
  rw [← untilError_eq_ok_iff, untilError] at h
  split at h
  · rename_i l₁ hadd
    exact ⟨l₁, hadd, untilError_eq_ok_iff.1 h⟩
  · cases h

/-- **The layout holds the instructions as they are written.** -/
theorem written_keepGoing {lines : List Line} (h : l.keepGoing lines = (l', [])) :
    l'.pending.toList.map Pending.written
      = l.pending.toList.map Pending.written ++ Written.ofLines l.scope lines := by
  induction lines generalizing l with
  | nil =>
      cases h
      exact (List.append_nil _).symm
  | cons line lines ih =>
      obtain ⟨l₁, hadd, hrest⟩ := keepGoing_cons_ok h
      have heffect := effect_add hadd
      obtain ⟨qs, hqs, hwritten⟩ := heffect.pending
      rw [ih hrest, hqs, List.map_append, hwritten, List.append_assoc, heffect.scope_eq]
      rfl

/-- A label of a layout is the label of one of the lines. -/
theorem label_of_keepGoing {lines : List Line} (h : l.keepGoing lines = (l', []))
    {key : String} {x : Symbol} (hx : l'.symbols[key]? = some x) (hkind : x.kind = .label) :
    l.symbols[key]? = some x ∨ ∃ line ∈ lines, line.statement.label = some x.token := by
  induction lines generalizing l with
  | nil =>
      cases h
      exact Or.inl hx
  | cons line lines ih =>
      obtain ⟨l₁, hadd, hrest⟩ := keepGoing_cons_ok h
      rcases ih hrest with hold | ⟨line', hline', hlabel⟩
      · rcases (effect_add hadd).symbols key x hold with hold | hconst | ⟨t, ht, rfl⟩
        · exact Or.inl hold
        · rw [hkind] at hconst
          cases hconst
        · exact Or.inr ⟨line, List.mem_cons_self, ht⟩
      · exact Or.inr ⟨line', List.mem_cons_of_mem _ hline', hlabel⟩

end Layout

/-! ### Bytes before a place -/

/-- The number of bytes of the instructions that are written before `pos`. -/
def lengthBefore (pos : Position) (qs : List Pending) : Nat :=
  ((qs.filter fun q => q.name.pos.Before pos).map Pending.length).sum

theorem lengthBefore_append (pos : Position) (qs rs : List Pending) :
    lengthBefore pos (qs ++ rs) = lengthBefore pos qs + lengthBefore pos rs := by
  simp [lengthBefore]

theorem lengthBefore_of_all {pos : Position} {qs : List Pending}
    (h : ∀ q ∈ qs, q.name.pos.Before pos) : lengthBefore pos qs = (qs.map Pending.length).sum := by
  rw [lengthBefore, List.filter_eq_self.2]
  intro q hq
  exact decide_eq_true (h q hq)

theorem lengthBefore_of_none {pos : Position} {qs : List Pending}
    (h : ∀ q ∈ qs, ¬ q.name.pos.Before pos) : lengthBefore pos qs = 0 := by
  rw [lengthBefore, List.filter_eq_nil_iff.2]
  · rfl
  · intro q hq
    simpa using h q hq

theorem Consecutive.stop_eq_sum {α : Type} {start size : α → Nat} {pos stop : Nat} {as : List α}
    (h : Consecutive start size pos as stop) : stop = pos + (as.map size).sum := by
  induction as generalizing pos with
  | nil => exact h.symm
  | cons a as ih =>
      rw [ih h.2, List.map_cons, List.sum_cons]
      omega

/-! ### Labels -/

namespace Layout

/-- Every label has the value that its place in the source gives it.  All that was recorded stands
on lines before line `n`. -/
structure IsLabelled (base n : Nat) (l : Layout) : Prop where
  placed : l.IsPlaced base
  pending_line : ∀ q ∈ l.pending.toList, q.name.pos.line < n
  label_line : ∀ (key : String) (x : Symbol), l.symbols[key]? = some x → x.kind = .label →
    x.token.pos.line < n
  label_value : ∀ (key : String) (x : Symbol), l.symbols[key]? = some x → x.kind = .label →
    x.meaning = .value (base + lengthBefore x.token.pos l.pending.toList : Nat)

theorem isLabelled_start (base : UInt16) : (start base).IsLabelled base.toNat 0 where
  placed := isPlaced_start base
  pending_line := List.forall_mem_nil _
  label_line := by
    intro key x hx
    rw [start, Std.TreeMap.getElem?_emptyc] at hx
    cases hx
  label_value := by
    intro key x hx
    rw [start, Std.TreeMap.getElem?_emptyc] at hx
    cases hx

variable {l l' : Layout} {base n : Nat}

theorem IsLabelled.add (h : l.IsLabelled base n) {line : Line} (hline : line.IsPlaced)
    (hn : n ≤ line.number) (hadd : l.add line.statement = (l', none)) :
    l'.IsLabelled base (line.number + 1) := by
  have heffect := effect_add hadd
  obtain ⟨qs, hqs, hwritten⟩ := heffect.pending
  -- an instruction that is recorded stands on this line, behind the label if there is one
  have hbody (q : Pending) (hq : q ∈ qs) :
      line.items = (line.statement.label.toList ++ q.name :: q.operands).map .ok := by
    have hmem : q.written ∈ Written.ofBody l'.scope line.statement.body := by
      rw [← hwritten]
      exact List.mem_map_of_mem hq
    exact Line.items_of_instruction (Written.body_of_mem_ofBody hmem)
  have hname (q : Pending) (hq : q ∈ qs) : q.name.pos.line = line.number := by
    refine hline.items_line (.ok q.name) ?_
    rw [hbody q hq]
    simp
  have hbehind (q : Pending) (hq : q ∈ qs) (t : Token) (ht : line.statement.label = some t) :
      t.pos.Before q.name.pos := by
    have hordered := hline.ordered
    rw [hbody q hq, ht] at hordered
    exact List.rel_of_pairwise_cons hordered List.mem_cons_self t q.name rfl rfl
  have haddress : l.address = base + (l.pending.toList.map Pending.length).sum :=
    h.placed.consecutive.stop_eq_sum
  refine ⟨?_, ?_, ?_, ?_⟩
  · have hmove := l.move_add line.statement
    rw [hadd] at hmove
    exact h.placed.of_move hmove
  · intro q hq
    rw [hqs] at hq
    rcases List.mem_append.1 hq with hq | hq
    · have := h.pending_line q hq
      omega
    · have := hname q hq
      omega
  · intro key x hx hkind
    rcases heffect.symbols key x hx with hx | hconst | ⟨t, ht, rfl⟩
    · have := h.label_line key x hx hkind
      omega
    · rw [hkind] at hconst
      cases hconst
    · have : t.pos.line = line.number := hline.items_line (.ok t) (Line.mem_items_of_label ht)
      dsimp only
      omega
  · intro key x hx hkind
    rw [hqs, lengthBefore_append]
    rcases heffect.symbols key x hx with hx | hconst | ⟨t, ht, rfl⟩
    · -- a label from before: the new instruction is written behind it
      have hnew : lengthBefore x.token.pos qs = 0 := by
        refine lengthBefore_of_none ?_
        intro q hq
        have := hname q hq
        have := h.label_line key x hx hkind
        unfold Position.Before
        omega
      rw [h.label_value key x hx hkind, hnew, Nat.add_zero]
    · rw [hkind] at hconst
      cases hconst
    · -- the label of this line: all instructions from before are written before it
      have htline : t.pos.line = line.number := hline.items_line (.ok t) (Line.mem_items_of_label ht)
      have hold : lengthBefore t.pos l.pending.toList
          = (l.pending.toList.map Pending.length).sum := by
        refine lengthBefore_of_all ?_
        intro q hq
        have := h.pending_line q hq
        exact Or.inl (by omega)
      have hnew : lengthBefore t.pos qs = 0 := by
        refine lengthBefore_of_none ?_
        intro q hq
        exact (hbehind q hq t ht).asymm
      rw [hold, hnew, Nat.add_zero, haddress]

/-- What holds of the labels before some lines holds of the labels behind them. -/
theorem IsLabelled.keepGoing (h : l.IsLabelled base n) {lines : List Line}
    (hplaced : ∀ line ∈ lines, line.IsPlaced)
    (hincreasing : lines.Pairwise fun line line' => line.number < line'.number)
    (hn : ∀ line ∈ lines, n ≤ line.number) (hgo : l.keepGoing lines = (l', [])) :
    ∃ n', l'.IsLabelled base n' := by
  induction lines generalizing l n with
  | nil =>
      cases hgo
      exact ⟨n, h⟩
  | cons line lines ih =>
      obtain ⟨l₁, hadd, hrest⟩ := keepGoing_cons_ok hgo
      obtain ⟨hline, hlines⟩ := List.forall_mem_cons.1 hplaced
      obtain ⟨hbelow, hincreasing⟩ := List.pairwise_cons.1 hincreasing
      exact ih (h.add hline (hn line List.mem_cons_self) hadd) hlines hincreasing hbelow hrest

/-- **A label is worth the base and the bytes that are written before it.** -/
theorem isLabelled_keepGoing {base : UInt16} {source : String}
    (h : (start base).keepGoing (Line.ofSource source) = (l', [])) :
    ∃ n, l'.IsLabelled base.toNat n :=
  (isLabelled_start base).keepGoing (fun _ hline => Line.isPlaced_of_mem hline)
    (Line.pairwise_number source) (fun _ _ => Nat.zero_le _) h

end Layout

end GameBoyAssembler
