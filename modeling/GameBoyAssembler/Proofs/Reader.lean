import GameBoyAssembler.Proofs.Bindings
import GameBoyAssembler.Proofs.Coverage
import GameBoyAssembler.Proofs.SeparateLines

/-!
# Reading statement by statement

The layout of a source is made from its lines, and a line is cut out before it is read.  It can also be
made in one go, token by token: a statement is read from wherever the cursor stands, its effect takes
place while it is read, and after an error the rest of the line is skipped.  This module defines such a
reader and shows that it does the same.  A token that is only looked at stays in front of the cursor.

Main definitions:

* `Reader`, `Reader.Read` — a cursor and the layout so far, and the steps that read on;
* `Reader.statement`, `Reader.recover` — read a statement, and skip the rest of the line;
* `Cursor.OnLine`, `Cursor.IsBehind` — the lines in front of a cursor;
* `Reader.Runs` — statement after statement up to the end of the source.

Main results:

* `Cursor.onLine_skipLine`, `Cursor.isBehind_recover` — skipping leads to the line end that reading on
  would lead to;
* `Reader.outcome_statement` — **a statement has the effect of the rest of its line**;
* `Reader.runs_ofSource_iff` — **statement after statement gives the layout of the lines and all their
  errors**.
-/

set_option relaxedAutoImplicit false
set_option autoImplicit false

namespace GameBoyAssembler

/-! ### The lines in front of a cursor -/

namespace Cursor

/-- The cursor stands on the line `l`, of which the part behind the cursor is meant, above the lines
`ls`. -/
def OnLine (c : Cursor) (l : Line) (ls : List Line) : Prop :=
  Line.ofItems c.items = l :: ls

/-- The cursor stands behind a line end, above the lines `ls`. -/
def IsBehind (c : Cursor) (stop : Token) (ls : List Line) : Prop :=
  stop.kind = .endOfLine ∧ Line.ofItems c.items = ls ∨
    stop.kind = .endOfFile ∧ ls = [] ∧ c.rest = []

theorem exists_onLine (c : Cursor) : ∃ l ls, c.OnLine l ls := by
  obtain ⟨l, ls, h, -⟩ := Line.exists_below c
  exact ⟨l, ls, h⟩

/-- Behind the end of a source nothing is left. -/
theorem rest_of_isEnd {c : Cursor} (h : c.next.1.isEnd = true) : c.next.2.rest = [] := by
  by_cases hfeed : c.skipBlanks.rest.head? = some '\n'
  · have hnext : c.next = c.skipBlanks.lineBreak := if_pos hfeed
    rw [hnext] at h ⊢
    simp only [lineBreak] at h ⊢
    split at h
    · assumption
    · cases h
  · have hnext : c.next = c.skipBlanks.word := if_neg hfeed
    rw [hnext] at h ⊢
    by_contra hrest
    have hne : c.skipBlanks.rest ≠ [] := by
      intro hnil
      rw [word_behind, rest_advance, hnil, List.drop_nil] at hrest
      exact hrest rfl
    rw [(word_inLine hne).isEnd_eq] at h
    cases h

section OnLine

variable {c : Cursor} {item : Item} {items : List Item} {t : Token} {ls : List Line}

/-- At the end of its line the cursor stands in front of the line end. -/
theorem OnLine.stop (h : c.OnLine ⟨[], t⟩ ls) :
    c.next.1 = .ok t ∧ t.endsLine = true ∧ c.next.2.IsBehind t ls := by
  have hread := c.reading_next
  unfold OnLine at h
  rw [Cursor.items] at h
  by_cases hend : c.next.1.isEnd = true
  · have hrest := rest_of_isEnd hend
    rw [if_pos hend] at h
    generalize c.next.1 = item at h hend hread
    cases item with
    | error e => cases hend
    | ok u =>
        have hkind : u.kind = .endOfFile := by simpa [Item.isEnd] using hend
        have hends : u.endsLine = true := by simp [Token.endsLine, hkind]
        rw [Line.ofItems_stop hends] at h
        cases h
        exact ⟨rfl, hends, Or.inr ⟨hkind, rfl, hrest⟩⟩
  · obtain ⟨l, ls', hbehind⟩ := c.next.2.exists_onLine
    rw [if_neg hend] at h
    generalize c.next.1 = item at h hend hread
    -- any other item would stand on the line
    have hline (hin : item.InLine) : False := by
      rw [Line.ofItems_cons hin hbehind] at h
      cases h
    cases hread with
    | stop hkind _ => simp [Item.isEnd, hkind] at hend
    | @lineEnd u _ hkind _ _ =>
        have hends : u.endsLine = true := by simp [Token.endsLine, hkind]
        rw [Line.ofItems_stop hends] at h
        cases h
        exact ⟨rfl, hends, Or.inl ⟨hkind, rfl⟩⟩
    | token hkind _ _ _ _ =>
        refine (hline ?_).elim
        rintro _ ⟨⟩
        exact hkind
    | fault _ _ _ =>
        refine (hline ?_).elim
        rintro _ ⟨⟩

/-- Behind an item of its line the cursor stands on the same line. -/
theorem OnLine.cons (h : c.OnLine ⟨item :: items, t⟩ ls) :
    c.next.1 = item ∧ item.InLine ∧ c.next.2.OnLine ⟨items, t⟩ ls := by
  have hread := c.reading_next
  unfold OnLine at h
  rw [Cursor.items] at h
  -- a line end would leave nothing on the line
  have hstop {u : Token} (hu : u.endsLine = true) {rest : List Item}
      (h : Line.ofItems (.ok u :: rest) = ⟨item :: items, t⟩ :: ls) : False := by
    rw [Line.ofItems_stop hu] at h
    cases h
  by_cases hend : c.next.1.isEnd = true
  · rw [if_pos hend] at h
    generalize c.next.1 = x at h hend
    cases x with
    | error e => cases hend
    | ok u =>
        have hkind : u.kind = .endOfFile := by simpa [Item.isEnd] using hend
        exact (hstop (by simp [Token.endsLine, hkind]) h).elim
  · obtain ⟨l, ls', hbehind⟩ := c.next.2.exists_onLine
    rw [if_neg hend] at h
    generalize c.next.1 = x at h hend hread
    have hline (hin : x.InLine) :
        x = item ∧ item.InLine ∧ c.next.2.OnLine ⟨items, t⟩ ls := by
      rw [Line.ofItems_cons hin hbehind] at h
      cases h
      exact ⟨rfl, hin, hbehind⟩
    cases hread with
    | stop hkind _ => simp [Item.isEnd, hkind] at hend
    | lineEnd hkind _ _ => exact (hstop (by simp [Token.endsLine, hkind]) h).elim
    | token hkind _ _ _ _ =>
        refine hline ?_
        rintro _ ⟨⟩
        exact hkind
    | fault _ _ _ =>
        refine hline ?_
        rintro _ ⟨⟩

end OnLine

/-! ### Skipping the rest of a line -/

/-- **Skipping a line leads to its end**, with the same lines below. -/
theorem onLine_skipLine {c : Cursor} {l : Line} {ls : List Line} (h : c.OnLine l ls) :
    c.skipLine.OnLine ⟨[], l.stop⟩ ls := by
  obtain ⟨cs, ⟨n, column⟩⟩ := c
  obtain ⟨line, tail, rfl, hfeed, ht⟩ : ∃ line tail, cs = line ++ tail ∧ '\n' ∉ line ∧
      AtLineEnd tail := by
    refine ⟨_, _, (List.take_append_drop (runLength (· != '\n') cs) cs).symm, ?_,
      atLineEnd_drop_runLength cs⟩
    exact notMem_run rfl cs
  have hskip : skipLine ⟨line ++ tail, ⟨n, column⟩⟩ = ⟨tail, ⟨n, column + line.length⟩⟩ := by
    have hrun : runLength (· != '\n') (line ++ tail) = line.length := by
      rw [runLength, takeWhile_append_lineFeed hfeed ht]
    rw [skipLine, hrun, advance_append hfeed (Nat.le_refl _), List.drop_length, List.nil_append]
  obtain ⟨xs, -, hxs, -, -, hin⟩ := items_append ht ht n n hfeed column
  obtain ⟨t, rest, hitems, hends⟩ := items_atLineEnd ht n (column + line.length)
  rw [OnLine, hxs, hitems, Line.ofItems_inLine hin hends] at h
  rw [hskip, OnLine, hitems, Line.ofItems_stop hends]
  cases h
  rfl

theorem length_skipLine_le (c : Cursor) : c.skipLine.rest.length ≤ c.rest.length := by
  rw [skipLine, rest_advance, List.length_drop]
  exact Nat.sub_le _ _

/-- The cursor behind the next token.  A lexical error skips all that is left of the line. -/
def pass (c : Cursor) : Cursor :=
  match c.next.1 with
  | .ok _ => c.next.2
  | .error _ => c.next.2.skipLine

theorem length_pass_lt {c : Cursor} (h : c.next.1.isEnd = false) :
    c.pass.rest.length < c.rest.length := by
  have hlt := length_next_lt h
  unfold pass
  split
  · exact hlt
  · exact Nat.lt_of_le_of_lt (length_skipLine_le _) hlt

end Cursor

/-- The item ends a line. -/
def Item.endsLine : Item → Bool
  | .ok t => t.endsLine
  | .error _ => false

theorem Item.inLine_iff {item : Item} : item.InLine ↔ item.endsLine = false := by
  cases item with
  | ok t => exact ⟨fun h => h t rfl, fun h u hu => by cases hu; exact h⟩
  | error e => exact ⟨fun _ => rfl, fun _ u hu => by cases hu⟩

namespace Cursor

/-- The cursor behind the end of the line. -/
def recover (c : Cursor) : Cursor :=
  if c.next.1.endsLine then c.next.2 else c.pass.recover
termination_by c.rest.length
decreasing_by
  rename_i h
  exact length_pass_lt (Item.inLine_iff.2 (Bool.eq_false_iff.2 h)).isEnd_eq

/-- **After an error reading goes on behind the line.** -/
theorem isBehind_recover {c : Cursor} {l : Line} {ls : List Line} (h : c.OnLine l ls) :
    c.recover.IsBehind l.stop ls := by
  obtain ⟨items, stop⟩ := l
  induction c using recover.induct generalizing items with
  | case1 c hends =>
      cases items with
      | nil =>
          rw [recover, if_pos hends]
          exact h.stop.2.2
      | cons item items =>
          obtain ⟨hitem, hin, -⟩ := h.cons
          rw [hitem, Item.inLine_iff.1 hin] at hends
          cases hends
  | case2 c hends ih =>
      rw [recover, if_neg hends]
      cases items with
      | nil =>
          obtain ⟨hstop, hstops, -⟩ := h.stop
          rw [hstop] at hends
          exact absurd hstops hends
      | cons item items =>
          obtain ⟨-, -, hbehind⟩ := h.cons
          obtain ⟨items', hpass⟩ : ∃ items', c.pass.OnLine ⟨items', stop⟩ ls := by
            unfold pass
            split
            · exact ⟨items, hbehind⟩
            · exact ⟨[], onLine_skipLine hbehind⟩
          exact ih items' hpass

end Cursor

/-! ### Readers -/

/-- A source while it is read: what is left of it, and the layout so far. -/
structure Reader where
  cursor : Cursor
  layout : Layout

namespace Reader

/-- The reader in front of a source. -/
def ofSource (source : String) (base : UInt16) : Reader :=
  ⟨.ofSource source, .start base⟩

/-- A step of a reader.  What was read and done before an error stands. -/
abbrev Read := EStateM Error Reader

section Steps

variable {α : Type}

/-- Read with the cursor. -/
def reading (f : Cursor → Except Error α × Cursor) : Read α := fun r =>
  match f r.cursor with
  | (.ok a, c) => .ok a { r with cursor := c }
  | (.error e, c) => .error e { r with cursor := c }

/-- Change the layout. -/
def change (f : Layout → Layout.Step) : Read Unit := fun r =>
  match f r.layout with
  | (l, none) => .ok () { r with layout := l }
  | (l, some e) => .error e { r with layout := l }

/-- Go on if there is a result. -/
def require (x : Except Error α) : Read α := fun r =>
  match x with
  | .ok a => .ok a r
  | .error e => .error e r

end Steps

end Reader

/-- Look at the next token.  A lexical error is passed. -/
def Cursor.peek (c : Cursor) : Item × Cursor :=
  match c.next.1 with
  | .ok t => (.ok t, c)
  | .error e => (.error e, c.next.2)

/-- All tokens up to the end of the line. -/
def Cursor.tokens (c : Cursor) : Except Error (List Token) × Cursor :=
  if c.next.1.endsLine then (.ok [], c)
  else
    match c.next.1 with
    | .ok t => (c.next.2.tokens.1.map (t :: ·), c.next.2.tokens.2)
    | .error e => (.error e, c.next.2)
termination_by c.rest.length
decreasing_by
  all_goals exact length_next_lt (Item.inLine_iff.2 (Bool.eq_false_iff.2 ‹_›)).isEnd_eq

namespace Reader

def next : Read Token := reading Cursor.next

def peek : Read Token := reading Cursor.peek

/-- The next token behind `last`, which must be on the line. -/
def nextInLine (last : Token) : Read Token := do
  let t ← peek
  if t.endsLine then throw (.about last (.unexpectedAfter t last))
  else next

/-- Read the end of a line.  The answer says whether the source goes on. -/
def endOfStatement : Read Bool := do
  let t ← next
  if t.endsLine then return t.kind == .endOfLine
  else throw (.about t (.expectedLineEnd t))

/-- Read a constant behind its name. -/
def constant (name : Token) : Read Unit := do
  let equ ← next
  if isRegisterName name.text || name.isBracketed then
    throw (.about name (.badConstantName name.text))
  else
    let t ← nextInLine equ
    let value ← require (Statement.constantValue t)
    change fun l => l.defineConstant name value

/-- Read an instruction behind its name. -/
def instruction (name : Token) : Read Unit :=
  match Mnemonic.ofName? name.text with
  | none => throw (.about name (.unknownMnemonic name.text))
  | some mnemonic => do
      let operands ← reading Cursor.tokens
      change fun l => l.place mnemonic name operands

/-- Read a constant or an instruction that starts with `t`. -/
def body (t : Token) : Read Unit :=
  if t.kind != .identifier then throw (.about t (.expectedStatement t))
  else do
    let u ← peek
    if Statement.isEqu u then constant t else instruction t

/-- Read a statement from wherever the cursor stands.  The answer says whether the source goes on. -/
def statement : Read Bool := do
  let t ← next
  if t.endsLine then return t.kind == .endOfLine
  else if t.isLabel then do
    change fun l => l.defineLabel t
    let u ← peek
    if u.endsLine then endOfStatement
    else do
      let u ← next
      body u
      endOfStatement
  else do
    body t
    endOfStatement

/-- Skip what is left of the line. -/
def recover (r : Reader) : Reader :=
  { r with cursor := r.cursor.recover }

/-! ### Steps on a line -/

section Steps

variable {α β : Type} {r r' : Reader} {x : Read α} {f : α → Read β}

theorem bind_of_ok {a : α} (h : x.run r = .ok a r') : (x >>= f).run r = (f a).run r' := by
  rw [EStateM.run_bind, h]

theorem bind_of_error {e : Error} (h : x.run r = .error e r') :
    (x >>= f).run r = .error e r' := by
  rw [EStateM.run_bind, h]

variable {c : Cursor} {l : Layout} {t : Token} {e : Error}

theorem reading_of_ok {g : Cursor → Except Error α × Cursor} {a : α} (h : (g c).1 = .ok a) :
    (reading g).run ⟨c, l⟩ = .ok a ⟨(g c).2, l⟩ := by
  have hg : g c = (.ok a, (g c).2) := by rw [← h]
  simp only [EStateM.run, reading]
  rw [hg]

theorem reading_of_error {g : Cursor → Except Error α × Cursor} (h : (g c).1 = .error e) :
    (reading g).run ⟨c, l⟩ = .error e ⟨(g c).2, l⟩ := by
  have hg : g c = (.error e, (g c).2) := by rw [← h]
  simp only [EStateM.run, reading]
  rw [hg]

theorem peek_of_ok (h : c.next.1 = .ok t) : peek.run ⟨c, l⟩ = .ok t ⟨c, l⟩ := by
  have hpeek : c.peek = (.ok t, c) := by rw [Cursor.peek, h]
  rw [peek, reading_of_ok (congrArg Prod.fst hpeek), hpeek]

theorem peek_of_error (h : c.next.1 = .error e) : peek.run ⟨c, l⟩ = .error e ⟨c.next.2, l⟩ := by
  have hpeek : c.peek = (.error e, c.next.2) := by rw [Cursor.peek, h]
  rw [peek, reading_of_error (congrArg Prod.fst hpeek), hpeek]

theorem next_of_ok (h : c.next.1 = .ok t) : next.run ⟨c, l⟩ = .ok t ⟨c.next.2, l⟩ :=
  reading_of_ok h

theorem next_of_error (h : c.next.1 = .error e) : next.run ⟨c, l⟩ = .error e ⟨c.next.2, l⟩ :=
  reading_of_error h

end Steps

/-- What becomes of a statement, next to what its line does to the layout: both go without an error and
the reader stands behind the line, or both have the error and the reader is still on the line. -/
inductive Outcome (stop : Token) (ls : List Line) :
    Layout.Step → EStateM.Result Error Reader Bool → Prop
  | done {l : Layout} {c : Cursor} (h : c.IsBehind stop ls) :
      Outcome stop ls (l, none) (.ok (stop.kind == .endOfLine) ⟨c, l⟩)
  | failed {l : Layout} {e : Error} {c : Cursor} {items : List Item}
      (h : c.OnLine ⟨items, stop⟩ ls) : Outcome stop ls (l, some e) (.error e ⟨c, l⟩)

section Outcome

variable {c : Cursor} {l : Layout} {items : List Item} {stop : Token} {ls : List Line}
  (h : c.OnLine ⟨items, stop⟩ ls)

include h

/-- Where a line should end, anything else is an error. -/
theorem outcome_endOfStatement :
    Outcome stop ls (l, Statement.trailingError items) (endOfStatement.run ⟨c, l⟩) := by
  unfold endOfStatement
  cases items with
  | nil =>
      obtain ⟨hnext, hends, hbehind⟩ := h.stop
      rw [bind_of_ok (next_of_ok hnext), if_pos hends]
      exact .done hbehind
  | cons item items =>
      obtain ⟨hnext, hin, hbehind⟩ := h.cons
      cases item with
      | error e =>
          rw [bind_of_error (next_of_error hnext)]
          exact .failed hbehind
      | ok t =>
          rw [bind_of_ok (next_of_ok hnext), if_neg (Bool.eq_false_iff.1 (hin t rfl))]
          exact .failed hbehind

/-- A change of the layout, and what is read behind it. -/
theorem outcome_change {f g : Layout → Layout.Step} {k : Unit → Read Bool}
    (hk : ∀ l', Outcome stop ls (g l') ((k ()).run ⟨c, l'⟩)) :
    Outcome stop ls ((f l).andThen g) ((change f >>= k).run ⟨c, l⟩) := by
  cases hf : f l with
  | mk l' error =>
      cases error with
      | none =>
          have hchange : (change f).run ⟨c, l⟩ = .ok () ⟨c, l'⟩ := by
            simp only [EStateM.run, change, hf]
          rw [bind_of_ok hchange]
          exact hk l'
      | some e =>
          have hchange : (change f).run ⟨c, l⟩ = .error e ⟨c, l'⟩ := by
            simp only [EStateM.run, change, hf]
          rw [bind_of_error hchange]
          exact .failed h

/-- The label of a line, and what is read behind it. -/
theorem outcome_label {t : Token} {body : Except Error Body} {k : Unit → Read Bool}
    (hk : ∀ l' : Layout, Outcome stop ls (l'.add ⟨none, body⟩) ((k ()).run ⟨c, l'⟩)) :
    Outcome stop ls (l.add ⟨some t, body⟩)
      ((change (fun l => l.defineLabel t) >>= k).run ⟨c, l⟩) := by
  rw [Layout.add_some]
  exact outcome_change (f := fun l => l.defineLabel t) h hk

/-- The tokens up to the end of a line are its items, if none of them is a lexical error. -/
theorem tokens_onLine : c.tokens.1 = items.mapM id ∧
    ∃ items', c.tokens.2.OnLine ⟨items', stop⟩ ls ∧ ∀ ts, c.tokens.1 = .ok ts → items' = [] := by
  induction items generalizing c with
  | nil =>
      obtain ⟨hnext, hends, -⟩ := h.stop
      have htokens : c.tokens = (.ok [], c) := by
        rw [Cursor.tokens, hnext]
        exact if_pos hends
      rw [htokens]
      exact ⟨rfl, [], h, fun _ _ => rfl⟩
  | cons item items ih =>
      obtain ⟨hnext, hin, hbehind⟩ := h.cons
      have hends : ¬ c.next.1.endsLine = true := by
        rw [hnext, Item.inLine_iff.1 hin]
        exact Bool.false_ne_true
      rw [Cursor.tokens, if_neg hends, hnext, List.mapM_cons]
      cases item with
      | error e =>
          refine ⟨rfl, items, hbehind, ?_⟩
          rintro ts ⟨⟩
      | ok t =>
          obtain ⟨htokens, items', hline, hall⟩ := ih hbehind
          refine ⟨?_, items', hline, ?_⟩
          · dsimp only
            rw [htokens]
            cases items.mapM id <;> rfl
          · intro ts hts
            dsimp only at hts
            cases hrest : c.next.2.tokens.1 with
            | error e =>
                rw [hrest] at hts
                cases hts
            | ok us => exact hall us hrest

theorem outcome_instruction (name : Token) :
    Outcome stop ls (l.add ⟨none, Statement.readInstruction name items⟩)
      ((instruction name >>= fun _ => endOfStatement).run ⟨c, l⟩) := by
  unfold Statement.readInstruction instruction
  cases Mnemonic.ofName? name.text with
  | none => exact .failed h
  | some mnemonic =>
      obtain ⟨htokens, items', hline, hall⟩ := tokens_onLine h
      dsimp only
      rw [bind_assoc]
      cases hmap : items.mapM id with
      | error e =>
          rw [bind_of_error (reading_of_error (htokens.trans hmap))]
          exact .failed hline
      | ok operands =>
          rw [bind_of_ok (reading_of_ok (htokens.trans hmap))]
          obtain rfl := hall operands (htokens.trans hmap)
          have hself (s : Layout.Step) : s.andThen (fun l => (l, none)) = s := by
            obtain ⟨l, error⟩ := s
            cases error <;> rfl
          have hstep := outcome_change (l := l) (f := fun l => l.place mnemonic name operands)
            (g := fun l => (l, none)) (k := fun _ => endOfStatement) hline
            fun l' => outcome_endOfStatement hline
          rwa [hself] at hstep

/-- The next token behind another one, which must be on the line. -/
theorem nextInLine_onLine (last : Token) :
    (∃ t rest, items = .ok t :: rest ∧ (nextInLine last).run ⟨c, l⟩ = .ok t ⟨c.next.2, l⟩ ∧
        c.next.2.OnLine ⟨rest, stop⟩ ls) ∨
      ∃ e c' items', (nextInLine last).run ⟨c, l⟩ = .error e ⟨c', l⟩ ∧
        c'.OnLine ⟨items', stop⟩ ls ∧
        (items = [] ∧ e = .about last (.unexpectedAfter stop last) ∨
          items.head? = some (.error e)) := by
  unfold nextInLine
  cases items with
  | nil =>
      obtain ⟨hnext, hends, -⟩ := h.stop
      refine Or.inr ⟨_, c, [], ?_, h, Or.inl ⟨rfl, rfl⟩⟩
      rw [bind_of_ok (peek_of_ok hnext), if_pos hends]
      rfl
  | cons item items =>
      obtain ⟨hnext, hin, hbehind⟩ := h.cons
      cases item with
      | error e =>
          refine Or.inr ⟨e, _, items, ?_, hbehind, Or.inr rfl⟩
          exact bind_of_error (peek_of_error hnext)
      | ok t =>
          refine Or.inl ⟨t, items, rfl, ?_, hbehind⟩
          rw [bind_of_ok (peek_of_ok hnext), if_neg (Bool.eq_false_iff.1 (hin t rfl))]
          exact next_of_ok hnext

end Outcome

theorem outcome_constant {c : Cursor} {l : Layout} {items : List Item} {stop equ : Token}
    {ls : List Line} (h : c.OnLine ⟨.ok equ :: items, stop⟩ ls) (name : Token) :
    Outcome stop ls (l.add ⟨none, Statement.readConstant stop name equ items⟩)
      ((constant name >>= fun _ => endOfStatement).run ⟨c, l⟩) := by
  obtain ⟨hnext, -, hbehind⟩ := h.cons
  unfold Statement.readConstant constant
  rw [bind_assoc, bind_of_ok (next_of_ok hnext)]
  split
  · exact .failed hbehind
  · rw [bind_assoc]
    rcases nextInLine_onLine hbehind equ with
      ⟨t, rest, rfl, hread, hline⟩ | ⟨e, c', items', hread, hline, ⟨rfl, rfl⟩ | hhead⟩
    · rw [bind_of_ok hread, bind_assoc]
      dsimp only
      cases Statement.constantValue t with
      | error e =>
          have hrequire {r : Reader} : (require (.error e : Except Error ConstantValue)).run r
              = .error e r := rfl
          rw [bind_of_error hrequire]
          exact .failed hline
      | ok value =>
          have hrequire {r : Reader} : (require (.ok value : Except Error ConstantValue)).run r
              = .ok value r := rfl
          rw [bind_of_ok hrequire]
          exact outcome_change (f := fun l => l.defineConstant name value)
            (g := fun l => (l, Statement.trailingError rest)) (k := fun _ => endOfStatement) hline
            fun l' => outcome_endOfStatement hline
    · rw [bind_of_error hread]
      exact .failed hline
    · obtain ⟨rest, rfl⟩ := List.head?_eq_some_iff.1 hhead
      rw [bind_of_error hread]
      exact .failed hline

theorem outcome_body {c : Cursor} {l : Layout} {items : List Item} {stop : Token}
    {ls : List Line} (h : c.OnLine ⟨items, stop⟩ ls) (t : Token) :
    Outcome stop ls (l.add ⟨none, Statement.readBody stop t items⟩)
      ((body t >>= fun _ => endOfStatement).run ⟨c, l⟩) := by
  unfold Statement.readBody body
  split
  · exact .failed h
  · rw [bind_assoc]
    cases items with
    | nil =>
        obtain ⟨hnext, hends, -⟩ := h.stop
        -- a line end is not EQU
        have hequ : Statement.isEqu stop = false := by
          simp only [Token.endsLine, Bool.or_eq_true, beq_iff_eq] at hends
          rcases hends with hkind | hkind <;> simp [Statement.isEqu, hkind]
        rw [bind_of_ok (peek_of_ok hnext), hequ]
        exact outcome_instruction h t
    | cons item items =>
        obtain ⟨hnext, -, hbehind⟩ := h.cons
        cases item with
        | error e =>
            rw [bind_of_error (peek_of_error hnext)]
            exact .failed hbehind
        | ok u =>
            rw [bind_of_ok (peek_of_ok hnext)]
            dsimp only
            split
            · exact outcome_constant h t
            · exact outcome_instruction h t

/-- **A statement has the effect of the rest of its line**, and after an error the reader is still on
the line. -/
theorem outcome_statement {c : Cursor} {line : Line} {ls : List Line} (h : c.OnLine line ls)
    (l : Layout) : Outcome line.stop ls (l.add line.statement) (statement.run ⟨c, l⟩) := by
  obtain ⟨items, stop⟩ := line
  unfold statement Line.statement
  cases items with
  | nil =>
      obtain ⟨hnext, hends, hbehind⟩ := h.stop
      rw [bind_of_ok (next_of_ok hnext), if_pos hends]
      exact .done hbehind
  | cons item items =>
      obtain ⟨hnext, hin, hbehind⟩ := h.cons
      cases item with
      | error e =>
          rw [bind_of_error (next_of_error hnext)]
          exact .failed hbehind
      | ok t =>
          rw [bind_of_ok (next_of_ok hnext), if_neg (Bool.eq_false_iff.1 (hin t rfl))]
          dsimp only
          split
          · -- the label takes effect before anything behind it is looked at
            cases items with
            | nil =>
                obtain ⟨hstop, hends, -⟩ := hbehind.stop
                refine outcome_label hbehind fun l' => ?_
                rw [bind_of_ok (peek_of_ok hstop), if_pos hends]
                exact outcome_endOfStatement hbehind
            | cons item items =>
                obtain ⟨hnext, hin, hon⟩ := hbehind.cons
                cases item with
                | error e =>
                    refine outcome_label hbehind fun l' => ?_
                    rw [bind_of_error (peek_of_error hnext)]
                    exact .failed hon
                | ok u =>
                    refine outcome_label hbehind fun l' => ?_
                    rw [bind_of_ok (peek_of_ok hnext),
                      if_neg (Bool.eq_false_iff.1 (hin u rfl)), bind_of_ok (next_of_ok hnext)]
                    exact outcome_body hon u
          · exact outcome_body hbehind t

/-- A statement does what the rest of its line does, and has the same error. -/
theorem statement_cases (r : Reader) : ∃ line ls, r.cursor.OnLine line ls ∧
    ((∃ goesOn r', statement.run r = .ok goesOn r' ∧
        r.layout.add line.statement = (r'.layout, none)) ∨
      ∃ e r', statement.run r = .error e r' ∧
        r.layout.add line.statement = (r'.layout, some e)) := by
  obtain ⟨line, ls, hline⟩ := r.cursor.exists_onLine
  have hout := outcome_statement hline r.layout
  refine ⟨line, ls, hline, ?_⟩
  generalize r.layout.add line.statement = step at hout
  generalize statement.run ⟨r.cursor, r.layout⟩ = result at hout
  cases hout with
  | done _ => exact Or.inl ⟨_, _, rfl, rfl⟩
  | failed _ => exact Or.inr ⟨_, _, rfl, rfl⟩

/-! ### Statement after statement -/

/-- Statements are read up to the end of the source.  After an error reading goes on behind the line. -/
inductive Runs : Reader → Layout × List Error → Prop
  | done {r r' : Reader} (h : statement.run r = .ok false r') : Runs r (r'.layout, [])
  | line {r r' : Reader} {l : Layout} {es : List Error} (h : statement.run r = .ok true r')
      (hrest : Runs r' (l, es)) : Runs r (l, es)
  | error {r r' : Reader} {e : Error} {l : Layout} {es : List Error}
      (h : statement.run r = .error e r') (hrest : Runs r'.recover (l, es)) : Runs r (l, e :: es)

/-- There is one result. -/
theorem Runs.unique {r : Reader} {x y : Layout × List Error} (hx : Runs r x) (hy : Runs r y) :
    x = y := by
  induction hx generalizing y with
  | done h =>
      cases hy with
      | done h' => cases h.symm.trans h'; rfl
      | line h' _ => cases h.symm.trans h'
      | error h' _ => cases h.symm.trans h'
  | line h _ ih =>
      cases hy with
      | done h' => cases h.symm.trans h'
      | line h' hrest =>
          cases h.symm.trans h'
          exact ih hrest
      | error h' _ => cases h.symm.trans h'
  | error h _ ih =>
      cases hy with
      | done h' => cases h.symm.trans h'
      | line h' _ => cases h.symm.trans h'
      | error h' hrest =>
          cases h.symm.trans h'
          cases ih hrest
          rfl

/-- Where nothing is left there is one more statement, an empty one. -/
theorem runs_of_rest_nil {c : Cursor} (h : c.rest = []) (l : Layout) : Runs ⟨c, l⟩ (l, []) := by
  obtain ⟨t, hkind, hline⟩ : ∃ t : Token, t.kind = .endOfFile ∧ c.OnLine ⟨[], t⟩ [] :=
    ⟨_, rfl, by rw [Cursor.OnLine, Cursor.items_of_rest_nil h]; rfl⟩
  have hout := outcome_statement hline l
  generalize hstep : l.add (Line.statement ⟨[], t⟩) = step at hout
  generalize hrun : statement.run ⟨c, l⟩ = result at hout
  cases hout with
  | done _ =>
      rw [hkind] at hrun
      cases hstep
      exact .done hrun
  | failed _ => cases hstep

/-- A line is read, right or wrong, and then the lines below. -/
theorem runs_onLine {c : Cursor} {line : Line} {ls : List Line} (h : c.OnLine line ls)
    (hbelow : ∀ (c : Cursor) (l : Layout), c.IsBehind line.stop ls → Runs ⟨c, l⟩ (l.keepGoing ls))
    (l : Layout) : Runs ⟨c, l⟩ (l.keepGoing (line :: ls)) := by
  have hout := outcome_statement h l
  rw [Layout.keepGoing]
  generalize l.add line.statement = step at hout
  generalize hrun : statement.run ⟨c, l⟩ = result at hout
  cases hout with
  | @done l' c' hbehind =>
      have hrest := hbelow c' l' hbehind
      rcases hbehind with ⟨hkind, -⟩ | ⟨hkind, rfl, -⟩
      · rw [hkind] at hrun
        exact .line hrun hrest
      · rw [hkind] at hrun
        exact .done hrun
  | @failed l' e c' items hline =>
      have hbehind := Cursor.isBehind_recover hline
      exact .error hrun (hbelow c'.recover l' hbehind)

/-- Behind a line the lines below are read. -/
theorem runs_of_isBehind {ls : List Line} {c : Cursor} {stop : Token} (h : c.IsBehind stop ls)
    (l : Layout) : Runs ⟨c, l⟩ (l.keepGoing ls) := by
  induction ls generalizing c stop l with
  | nil =>
      rcases h with ⟨-, hitems⟩ | ⟨-, -, hrest⟩
      · obtain ⟨line, ls, hline⟩ := c.exists_onLine
        cases hline.symm.trans hitems
      · exact runs_of_rest_nil hrest l
  | cons line ls ih =>
      rcases h with ⟨-, hline⟩ | ⟨-, hnil, -⟩
      · exact runs_onLine hline (fun _ l hbehind => ih hbehind l) l
      · cases hnil

/-- **Statement after statement gives the layout of the lines and all their errors**, and nothing
else. -/
theorem runs_ofSource_iff {source : String} {base : UInt16} {result : Layout × List Error} :
    Runs (ofSource source base) result ↔
      result = (Layout.start base).keepGoing (Line.ofSource source) := by
  have hruns :
      Runs (ofSource source base) ((Layout.start base).keepGoing (Line.ofSource source)) := by
    obtain ⟨line, ls, h⟩ := (Cursor.ofSource source).exists_onLine
    rw [Line.ofSource, h]
    exact runs_onLine h (fun _ l hbehind => runs_of_isBehind hbehind l) _
  refine ⟨fun h => h.unique hruns, ?_⟩
  rintro rfl
  exact hruns

end Reader

end GameBoyAssembler
