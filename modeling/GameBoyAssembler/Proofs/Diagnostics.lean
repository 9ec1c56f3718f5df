import GameBoyAssembler.Proofs.AllErrors
import GameBoyAssembler.Proofs.Branches
import GameBoyAssembler.Proofs.Coverage
import GameBoyAssembler.Proofs.TextLines

/-!
# Errors point into the source

An error is shown with the line that it is about and a mark below.  For this its place has to be a
place of the text.  Two things stand in the way: the reader counts line feeds, whereas the excerpt
takes a line from the list of lines, which drops carriage returns and has no empty line at the end;
and an error may come up far from the token that it is about, behind a chain of constants.

The first is settled token by token: all that is taken for a token or a lexical error stands on one
line of the text.  The second is settled by an invariant of the layout: its symbols and instructions
are made of tokens of the source.

Main definitions:

* `StandsOn`, `Item.IsMarked` — characters on a line of the text at a place, and an item that points
  at such characters or right behind them;
* `Token.IsOf`, `Layout.TokensIn` — the tokens inside the lines of a source, and a layout that is made
  of some tokens;
* `Span.IsOn`, `Span.HoldsToken`, `Error.PointsAt` — a span on a line of the source, and what it holds;
* `Span.shown` — a line with a mark under a span of it.

Main results:

* `Cursor.isMarked_next` — what is read stands on a line of the text;
* `Layout.TokensIn.keepGoing` — **a layout is made of tokens of its lines**;
* `faulty_or_isAbout` — an error is a lexical error of the source, or about one of its tokens;
* `error_points_into_source` — **every error points at a line of the source, and shows this line**.
-/

set_option relaxedAutoImplicit false
set_option autoImplicit false

namespace GameBoyAssembler

/-! ### Words on lines -/

/-- The characters stand on a line of the text, at the given place. -/
def StandsOn (source word : List Char) (pos : Position) : Prop :=
  ∃ k pre post, (lines source)[k]? = some (pre ++ (word ++ post)) ∧ pos = ⟨1 + k, pre.length + 1⟩

/-- Behind the blanks stands no blank, and so no carriage return. -/
theorem isBlank_of_drop_blankLength {cs : List Char} {c : Char}
    (h : (cs.drop (blankLength cs)).head? = some c) : isBlank c = false := by
  rcases atLineEnd_or_startsToken cs with hend | ⟨d, ds, hrest, hd⟩
  · rw [hend c h]
    rfl
  · rw [hrest] at h
    obtain rfl : d = c := Option.some.inj h
    simp only [startsToken, Bool.and_eq_true, Bool.not_eq_true'] at hd
    exact hd.1.1

theorem kind_of_bracketLexeme {opening : Char} {cs : List Char} {cause : Cause}
    (h : (bracketLexeme opening cs).outcome = .error cause) : cause.kind = .lexical := by
  cases cs with
  | nil => cases h; rfl
  | cons c cs =>
      simp only [bracketLexeme] at h
      repeat' split at h
      all_goals cases h
      all_goals rfl

theorem nameLexeme_ne_error (n : Nat) (cs : List Char) (cause : Cause) :
    (nameLexeme n cs).outcome ≠ .error cause := by
  simp only [nameLexeme]
  repeat' split
  all_goals rintro ⟨⟩

/-- A fault of the characters in front is a lexical one. -/
theorem kind_of_lexeme {cs : List Char} {cause : Cause} (h : (lexeme cs).outcome = .error cause) :
    cause.kind = .lexical := by
  cases cs with
  | nil => cases h
  | cons c cs =>
      have hbracket := @kind_of_bracketLexeme c cs cause
      have hname := nameLexeme_ne_error (runLength isNameChar (c :: cs)) (c :: cs) cause
      grind [lexeme, Cause.kind]

/-- An item that points into the text: a token with its characters, a lexical error about some
characters, or one about the place right behind them. -/
inductive Item.IsMarked (source : List Char) : Item → Prop
  | token {t : Token} (hne : t.text ≠ "") (h : StandsOn source t.text.toList t.pos) :
      IsMarked source (.ok t)
  | fault {cause : Cause} {word : List Char} {pos : Position} (hkind : cause.kind = .lexical)
      (hne : word ≠ []) (h : StandsOn source word pos) :
      IsMarked source (.error ⟨cause, ⟨pos, word.length⟩, none⟩)
  | behind {cause : Cause} {word : List Char} {pos : Position} (hkind : cause.kind = .lexical)
      (hne : word ≠ []) (h : StandsOn source word pos) :
      IsMarked source (.error ⟨cause, ⟨⟨pos.line, pos.column + word.length⟩, 1⟩, none⟩)

/-- The span of a text that is not empty is as wide as the text. -/
theorem Token.spanOf_eq {text : String} (hne : text ≠ "") (pos : Position) :
    spanOf pos text = ⟨pos, text.toList.length⟩ := by
  have hlength : text.length ≠ 0 := by simpa using hne
  rw [spanOf, String.length_toList, Nat.max_eq_left (Nat.pos_of_ne_zero hlength)]

theorem Item.isMarked_ofText {source word : List Char} {pos : Position} (hne : word ≠ [])
    (h : StandsOn source word pos) (kind : TokenKind) :
    Item.IsMarked source (Token.ofText kind (String.ofList word) pos) := by
  have hne' : String.ofList word ≠ "" := by simpa using hne
  have htext : (String.ofList word).toList = word := String.toList_ofList
  unfold Token.ofText
  split
  · split
    · exact .token hne' (htext.symm ▸ h)
    · rw [Token.spanOf_eq hne', htext]
      exact .fault rfl hne h
  · exact .token hne' (htext.symm ▸ h)

namespace Cursor

variable {c : Cursor} {source : List Char}

theorem IsIn.standsOn (hc : c.IsIn source) {word rest : List Char} (hne : word ≠ [])
    (hword : IsOneLine word) (hrest : c.rest = word ++ rest) : StandsOn source word c.pos := by
  obtain ⟨front, hsource, hpos⟩ := hc
  obtain ⟨k, pre, post, hline, hplace⟩ := exists_line_of_stretch hne hword front rest 1
  refine ⟨k, pre, post, ?_, hpos.trans hplace⟩
  rw [hsource, hrest, hline]

theorem isMarked_word (hc : c.IsIn source) (hne : c.rest ≠ []) (hfeed : c.rest.head? ≠ some '\n')
    (hreturn : c.rest.head? ≠ some '\r') : Item.IsMarked source c.word.1 := by
  have hone := isOneLine_lexeme hfeed hreturn
  have htaken : c.rest.take (lexeme c.rest).length ≠ [] := by
    have hpos := length_lexeme_pos hne
    rw [ne_eq, List.take_eq_nil_iff]
    exact fun h => h.elim (by omega) hne
  have hstands : StandsOn source (c.rest.take (lexeme c.rest).length) c.pos :=
    hc.standsOn htaken hone (List.take_append_drop _ _).symm
  simp only [word]
  split
  · rename_i cause hcause
    rw [Error.atPosition, pos_advance hone.1]
    exact .behind (kind_of_lexeme hcause) htaken hstands
  · rw [Token.spanOf_eq (by simpa using htaken), String.toList_ofList]
    exact .fault rfl htaken hstands
  · exact Item.isMarked_ofText htaken hstands _

/-- **What is read inside a line stands on a line of the text.** -/
theorem isMarked_next (hc : c.IsIn source) (hline : c.next.1.InLine) :
    Item.IsMarked source c.next.1 := by
  simp only [next] at hline ⊢
  split at hline
  · -- a run of line ends is never inside a line
    simp only [lineBreak] at hline
    split at hline
    · cases hline _ rfl
    · cases hline _ rfl
  · rename_i hfeed
    rw [if_neg hfeed]
    have hblank : c.skipBlanks.rest.head? ≠ some '\r' := by
      intro hreturn
      cases isBlank_of_drop_blankLength hreturn
    exact isMarked_word (hc.advance _) (word_end hline.isEnd_eq) hfeed hblank

/-- All items but the last are kept when the end of the source is dropped. -/
theorem mem_dropLast_items {item : Item} (h : item ∈ c.items) (hend : item.isEnd = false) :
    item ∈ c.items.dropLast := by
  induction c using Cursor.items.induct with
  | case1 c hlast =>
      rw [items, if_pos hlast] at h
      rw [List.mem_singleton.1 h, hlast] at hend
      cases hend
  | case2 c hlast ih =>
      have hne : c.next.2.items ≠ [] := by
        rw [items]
        split <;> exact List.cons_ne_nil _ _
      rw [items, if_neg hlast] at h ⊢
      rw [List.dropLast_cons_of_ne_nil hne]
      rcases List.mem_cons.1 h with rfl | h
      · exact List.mem_cons_self
      · exact List.mem_cons_of_mem _ (ih h)

end Cursor

/-- Whatever stands inside a line of a source is read from it, and points into its text. -/
theorem Line.isMarked_of_mem {source : String} {line : Line} (hline : line ∈ ofSource source)
    {item : Item} (h : item ∈ line.items) :
    item ∈ tokenize source ∧ item.IsMarked source.toList := by
  obtain ⟨hmem, hends⟩ := mem_of_mem_ofItems hline h
  have hstart : (Cursor.ofSource source).IsIn source.toList := ⟨[], rfl, rfl⟩
  obtain ⟨c, hc, rfl⟩ := Cursor.exists_next_of_mem (I := (Cursor.IsIn · source.toList))
    (fun _ hc => hc.next) hstart hmem
  have hinLine : c.next.1.InLine := hends
  exact ⟨Cursor.mem_dropLast_items hmem hinLine.isEnd_eq, Cursor.isMarked_next hc hinLine⟩

/-! ### Layouts made of tokens -/

namespace Layout

/-- The tokens of symbols and instructions are in `P`. -/
structure TokensIn (P : Token → Prop) (l : Layout) : Prop where
  symbols : l.symbols.TokensIn P P
  pending : ∀ q ∈ l.pending.toList, P q.name ∧ ∀ t ∈ q.operands, P t

namespace TokensIn

variable {P : Token → Prop} {l : Layout} (h : l.TokensIn P)

include h

theorem of_frame {l' : Layout} (hsymbols : l'.symbols.TokensIn P P)
    (hpending : l'.pending = l.pending) : l'.TokensIn P :=
  ⟨hsymbols, hpending ▸ h.pending⟩

theorem place {name : Token} {operands : List Token} (hname : P name)
    (hoperands : ∀ t ∈ operands, P t) (mnemonic : Mnemonic) :
    (l.place mnemonic name operands).1.TokensIn P := by
  unfold Layout.place
  dsimp only
  split
  · exact h
  · split
    · exact h
    · refine ⟨h.symbols, ?_⟩
      intro q hq
      rw [Array.toList_push, List.mem_append, List.mem_singleton] at hq
      rcases hq with hq | rfl
      · exact h.pending q hq
      · exact ⟨hname, hoperands⟩

theorem body {items : List Item} (hitems : ∀ t, .ok t ∈ items → P t) {body : Except Error Body}
    (hbody : Says items body) : (l.add ⟨none, body⟩).1.TokensIn P := by
  cases hbody with
  | nothing => exact h
  | fault _ => exact h
  | instruction hkind hname =>
      refine h.place (hitems _ List.mem_cons_self) ?_ _
      intro t ht
      exact hitems t (List.mem_cons_of_mem _ (List.mem_map_of_mem ht))
  | @constant name equ t value items hkind hname hbracket hvalue =>
      have hconstant : (l.defineConstant name value).1.TokensIn P := by
        refine h.of_frame (tokensIn_defineConstant h.symbols (hitems _ List.mem_cons_self) ?_)
          (l.defineConstant_frame name value).1
        rintro u rfl
        rw [Statement.eq_of_constantValue hvalue]
        exact hitems t (by simp)
      exact Step.andThen_keeps (P := TokensIn P) hconstant hconstant

theorem add {line : Line} (hline : ∀ t, .ok t ∈ line.items → P t) :
    (l.add line.statement).1.TokensIn P := by
  obtain ⟨items, hitems, -, hbody⟩ := line.exists_says
  rw [hitems] at hline
  generalize line.statement = s at *
  obtain ⟨label, body⟩ := s
  cases label with
  | none => exact h.body hline hbody
  | some t =>
      have hlabel : (l.defineLabel t).1.TokensIn P :=
        h.of_frame (tokensIn_defineLabel h.symbols (hline t List.mem_cons_self))
          (l.defineLabel_frame t).1
      rw [add_some]
      refine Step.andThen_keeps hlabel (hlabel.body ?_ hbody)
      intro u hu
      exact hline u (List.mem_append_right _ hu)

/-- **A layout is made of tokens of its lines**, and so are its errors. -/
theorem keepGoing {lines : List Line} (hlines : ∀ line ∈ lines, ∀ t, .ok t ∈ line.items → P t) :
    (l.keepGoing lines).1.TokensIn P ∧
      ∀ e ∈ (l.keepGoing lines).2, ∃ line ∈ lines, Blamed P line.items e := by
  induction lines generalizing l with
  | nil => exact ⟨h, List.forall_mem_nil _⟩
  | cons line lines ih =>
      obtain ⟨hline, hlines⟩ := List.forall_mem_cons.1 hlines
      have houtcome := outcome_add line h.symbols hline
      obtain ⟨hlayout, herrors⟩ := ih (h.add hline) hlines
      refine ⟨hlayout, ?_⟩
      intro e he
      rw [Layout.keepGoing] at he
      rcases List.mem_append.1 he with he | he
      · refine ⟨line, List.mem_cons_self, ?_⟩
        generalize l.add line.statement = step at houtcome he
        cases houtcome with
        | fault _ hblamed =>
            cases List.mem_singleton.1 he
            exact hblamed
        | quiet _ => cases he
        | placed _ _ => cases he
      · obtain ⟨line', hline', hblamed⟩ := herrors e he
        exact ⟨line', List.mem_cons_of_mem _ hline', hblamed⟩

/-- The error of an instruction that gets its values is about a token of the layout. -/
theorem isAbout_of_resolve {q : Pending} (hq : q ∈ l.pending.toList) {e : Error}
    (he : q.resolve l.symbols = .error e) : e.IsAbout P P := by
  have hbuild : q.build (some l.symbols) = .error e := by
    unfold Pending.resolve at he
    cases hbuild : q.build (some l.symbols) with
    | ok i => rw [hbuild] at he; cases he
    | error f => rw [hbuild] at he; cases he; rfl
  obtain ⟨hname, hoperands⟩ := h.pending q hq
  refine (Context.reads_select ?_ hname hoperands q.mnemonic).isAbout hbuild
  rintro _ ⟨⟩
  exact h.symbols

end TokensIn

theorem tokensIn_start (P : Token → Prop) (base : UInt16) : (start base).TokensIn P :=
  ⟨fun _ _ hsymbol => by simp [start] at hsymbol, List.forall_mem_nil _⟩

end Layout

/-- The token stands inside a line of the source. -/
def Token.IsOf (source : String) (t : Token) : Prop :=
  ∃ line ∈ Line.ofSource source, .ok t ∈ line.items

/-- An error is a lexical error of the source, or it is about one of its tokens. -/
theorem faulty_or_isAbout {source : String} {base : UInt16} {e : Error}
    (h : e ∈ layoutErrors source base ++ valueErrors source base) :
    (∃ line ∈ Line.ofSource source, .error e ∈ line.items) ∨
      e.IsAbout (Token.IsOf source) (Token.IsOf source) := by
  obtain ⟨hlayout, herrors⟩ := (Layout.tokensIn_start (Token.IsOf source) base).keepGoing
    fun line hline t ht => ⟨line, hline, ht⟩
  rcases List.mem_append.1 h with h | h
  · obtain ⟨line, hline, hfault | ⟨⟨t, ht, hspan⟩, href⟩⟩ := herrors e h
    · exact Or.inl ⟨line, hline, hfault⟩
    · exact Or.inr ⟨⟨t, ⟨line, hline, ht⟩, hspan⟩, href⟩
  · obtain ⟨x, hx, he⟩ := List.mem_filterMap.1 h
    obtain ⟨q, hq, rfl⟩ := List.mem_map.1 hx
    refine Or.inr (hlayout.isAbout_of_resolve hq ?_)
    cases hresolve : q.resolve _ with
    | ok a => rw [hresolve] at he; cases he
    | error f => rw [hresolve] at he; cases he; rfl

/-- The errors of a source, whichever way it is assembled. -/
theorem mem_errors {source : String} {base : UInt16} {e : Error}
    (h : assemble source base = .error e ∨
      ∃ es, assembleAll source base = .error es ∧ e ∈ es) :
    e ∈ layoutErrors source base ++ valueErrors source base := by
  rcases h with h | ⟨es, hes, he⟩
  · exact (assembleAll_of_assemble_error h).2
  · rw [assembleAll_eq] at hes
    dsimp only at hes
    split at hes
    · cases hes
    · cases hes
      exact List.mem_mergeSort.1 he

/-! ### Spans -/

/-- The span is on the line `text` of the source, and goes at most one place beyond its end. -/
structure Span.IsOn (source text : List Char) (s : Span) : Prop where
  line_pos : 1 ≤ s.pos.line
  line_le : s.pos.line ≤ (lines source).length
  text_eq : (lines source)[s.pos.line - 1]? = some text
  column_pos : 1 ≤ s.pos.column
  width_pos : 1 ≤ s.width
  stop_le : s.pos.column + s.width - 1 ≤ text.length + 1

/-- The span is inside the line `text` and holds a token, which is read at this place. -/
structure Span.HoldsToken (source : String) (text : List Char) (s : Span) : Prop where
  stop_le : s.pos.column + s.width - 1 ≤ text.length
  exists_token : ∃ t, .ok t ∈ tokenize source ∧ t.pos = s.pos ∧
    (text.drop (s.pos.column - 1)).take s.width = t.text.toList

/-- The error points at a span of the line `text`; only a lexical error need not point at a token. -/
def Error.PointsAt (source : String) (e : Error) (s : Span) (text : List Char) : Prop :=
  s.IsOn source.toList text ∧ (e.kind ≠ .lexical → s.HoldsToken source text)

namespace StandsOn

variable {source word : List Char} {pos : Position} (h : StandsOn source word pos)
  (hne : word ≠ [])

include h hne

/-- The characters on their line. -/
theorem exists_isOn :
    ∃ text, (⟨pos, word.length⟩ : Span).IsOn source text ∧
      pos.column + word.length - 1 ≤ text.length ∧
      (text.drop (pos.column - 1)).take word.length = word := by
  obtain ⟨k, pre, post, hline, rfl⟩ := h
  have hlength := List.length_pos_iff.2 hne
  obtain ⟨hk, -⟩ := List.getElem?_eq_some_iff.1 hline
  refine ⟨pre ++ (word ++ post), ⟨?_, ?_, ?_, ?_, hlength, ?_⟩, ?_, ?_⟩
  · exact Nat.le_add_right 1 k
  · change 1 + k ≤ _
    omega
  · rw [← hline, Nat.add_sub_cancel_left]
  · exact Nat.le_add_left 1 _
  · simp only [List.length_append]
    omega
  · simp only [List.length_append]
    omega
  · rw [Nat.add_sub_cancel, List.drop_left, List.take_left]

/-- The place right behind the characters, which may be the end of their line. -/
theorem exists_isOn_behind :
    ∃ text, (⟨⟨pos.line, pos.column + word.length⟩, 1⟩ : Span).IsOn source text := by
  obtain ⟨text, hon, hstop, -⟩ := h.exists_isOn hne
  have hcolumn := hon.column_pos
  refine ⟨text, hon.line_pos, hon.line_le, hon.text_eq, ?_, Nat.le_refl 1, ?_⟩
  · exact Nat.le_trans hcolumn (Nat.le_add_right _ _)
  · dsimp only at hcolumn ⊢
    omega

end StandsOn

/-- An error may point at any token of the source. -/
theorem Token.IsOf.exists_pointsAt {source : String} {t : Token} (h : t.IsOf source) (e : Error) :
    ∃ text, e.PointsAt source t.span text := by
  obtain ⟨line, hline, ht⟩ := h
  obtain ⟨hmem, hmarked⟩ := Line.isMarked_of_mem hline ht
  cases hmarked with
  | token hne hstands =>
      obtain ⟨text, hon, hstop, htext⟩ := hstands.exists_isOn (by simpa using hne)
      rw [span, spanOf_eq hne]
      exact ⟨text, hon, fun _ => ⟨hstop, t, hmem, rfl, htext⟩⟩

/-- A lexical error points at its line and at nothing else. -/
theorem Line.exists_pointsAt {source : String} {line : Line} (hline : line ∈ ofSource source)
    {e : Error} (he : .error e ∈ line.items) :
    e.reference = none ∧ ∃ text, e.PointsAt source e.span text := by
  obtain ⟨-, hmarked⟩ := isMarked_of_mem hline he
  cases hmarked with
  | fault hkind hne hstands =>
      obtain ⟨text, hon, -⟩ := hstands.exists_isOn hne
      exact ⟨rfl, text, hon, fun hnot => absurd hkind hnot⟩
  | behind hkind hne hstands =>
      obtain ⟨text, hon⟩ := hstands.exists_isOn_behind hne
      exact ⟨rfl, text, hon, fun hnot => absurd hkind hnot⟩

/-! ### Excerpts -/

/-- The line `text` with its number, and below it a mark under the span. -/
def Span.shown (s : Span) (text : List Char) : List String :=
  let number := Nat.repr s.pos.line
  let gap := (text.take (s.pos.column - 1)).map fun c => if c = '\t' then '\t' else ' '
  [number ++ " | " ++ String.ofList text,
    String.ofList (List.replicate number.length ' ') ++ " | "
      ++ String.ofList (gap ++ '^' :: List.replicate (s.width - 1) '~')]

/-- **An excerpt shows the line that the span is on.** -/
theorem Span.IsOn.excerpt_eq {source : String} {text : List Char} {s : Span}
    (h : s.IsOn source.toList text) :
    excerpt source s = "\n".intercalate (s.shown text) := by
  have hcolumn : s.pos.column - 1 ≤ text.length := by
    have := h.width_pos
    have := h.stop_le
    omega
  have hpadding : markPadding text (s.pos.column - 1)
      = (text.take (s.pos.column - 1)).map fun c => if c = '\t' then '\t' else ' ' := by
    rw [markPadding, List.take_append_of_le_length hcolumn]
  have htext : lineText source.toList s.pos.line = text := by
    rw [lineText, h.text_eq]
    rfl
  rw [excerpt, htext, hpadding]
  simp only [shown, String.intercalate_cons_cons, String.intercalate_singleton,
    String.append_assoc]

/-- **Every error points at a line of the source, and shows this line.**  The span of an error and the
span that it refers to are on lines of the source and hold tokens, but for lexical errors, which may
point at other characters or at the end of a line; and the rendered error shows these lines. -/
theorem error_points_into_source {source : String} {base : UInt16} {e : Error}
    (h : assemble source base = .error e ∨
      ∃ es, assembleAll source base = .error es ∧ e ∈ es) :
    ∃ text, e.PointsAt source e.span text ∧
      match e.reference with
      | none => e.render source = "\n".intercalate (e.header :: e.span.shown text)
      | some s => ∃ text', e.PointsAt source s text' ∧
          e.render source = "\n".intercalate
            (e.header :: e.span.shown text ++ "The expression is referring to" :: s.shown text') := by
  have hpoints : (∃ text, e.PointsAt source e.span text) ∧
      ∀ s, e.reference = some s → ∃ text, e.PointsAt source s text := by
    rcases faulty_or_isAbout (mem_errors h) with ⟨line, hline, he⟩ | ⟨⟨t, ht, hspan⟩, href⟩
    · obtain ⟨hnone, hpoints⟩ := Line.exists_pointsAt hline he
      refine ⟨hpoints, ?_⟩
      intro s hs
      rw [hnone] at hs
      cases hs
    · refine ⟨hspan ▸ ht.exists_pointsAt e, ?_⟩
      intro s hs
      obtain ⟨u, hu, rfl⟩ := href s hs
      exact hu.exists_pointsAt e
  obtain ⟨⟨text, htext⟩, href⟩ := hpoints
  refine ⟨text, htext, ?_⟩
  have hline : "\nThe expression is referring to\n"
      = "\n" ++ "The expression is referring to" ++ "\n" := by decide
  unfold Error.render report
  cases hreference : e.reference with
  | none =>
      simp only [htext.1.excerpt_eq, Span.shown, String.intercalate_cons_cons]
  | some s =>
      obtain ⟨text', htext'⟩ := href s hreference
      refine ⟨text', htext', ?_⟩
      simp only [hline, htext.1.excerpt_eq, htext'.1.excerpt_eq, Span.shown, List.cons_append,
        List.nil_append, String.intercalate_cons_cons, String.intercalate_singleton,
        String.append_assoc]

/-- A constant that is too large for the instruction which uses it, between line ends of both
kinds. -/
def largeLimit : String :=
  "LIMIT EQU 0x100\r\n\tLD A, LIMIT ; too large\n"

/-- The error points at the operand and refers to the constant, on lines that are shown without
their line ends and with the mark behind a tab. -/
theorem error_points_into_source_largeLimit :
    ∃ e, assemble largeLimit 0 = .error e ∧
      e.PointsAt largeLimit ⟨⟨2, 8⟩, 5⟩ "\tLD A, LIMIT ; too large".toList ∧
      e.PointsAt largeLimit ⟨⟨1, 1⟩, 5⟩ "LIMIT EQU 0x100".toList ∧
      e.render largeLimit = "\n".intercalate
        ["2:8: range error: 0x100 is out of range for an 8-bit operand (-0x80..=0xFF)",
          "2 | \tLD A, LIMIT ; too large", "  | \t      ^~~~~",
          "The expression is referring to", "1 | LIMIT EQU 0x100", "  | ^~~~~"] := by
  have herror : errorOf? (assemble largeLimit 0)
      = some ⟨.outOfRange .either8 0x100, ⟨⟨2, 8⟩, 5⟩, some ⟨⟨1, 1⟩, 5⟩⟩ := by decide +kernel
  cases h : assemble largeLimit 0 with
  | ok p => rw [h] at herror; cases herror
  | error e =>
      rw [h] at herror
      cases herror
      obtain ⟨text, hpoints, text', hpoints', hrender⟩ := error_points_into_source (Or.inl h)
      -- the lines are the ones with these numbers
      obtain rfl : "\tLD A, LIMIT ; too large".toList = text :=
        Option.some.inj (Eq.trans (by decide +kernel) hpoints.1.text_eq)
      obtain rfl : "LIMIT EQU 0x100".toList = text' :=
        Option.some.inj (Eq.trans (by decide +kernel) hpoints'.1.text_eq)
      refine ⟨_, rfl, hpoints, hpoints', hrender.trans ?_⟩
      decide +kernel

end GameBoyAssembler
