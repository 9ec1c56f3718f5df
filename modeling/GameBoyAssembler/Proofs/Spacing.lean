import GameBoyAssembler.Proofs.SeparateLines

/-!
# The layout of the text

Blanks, comments and blank lines mean nothing.  A token is never the longer for a blank or a comment
behind it: even where the reader looks one or two characters ahead, as behind SP, an open bracket or a
sign, a separator is as good as the end of the line.  Only the wording of a fault may name it.  So a
line can be indented, and blanks and a comment can be put behind it, and blank lines can be put between
the lines: the same program comes out, or an error of the same kind.

Main definitions:

* `IsPadding` — a text without tokens: blanks, then perhaps a comment;
* `Relaid` — lines that are laid out in another way.

Main results:

* `Cursor.sameItems_of_rest` — the place of a text has no part in its words;
* `Cursor.sameItems_append` — padding behind a line has no part in its words;
* `sameLines_relaid` — lines that are laid out in another way are read in the same way;
* `assemble_relaid` — **the layout of the text does not matter**.
-/

set_option relaxedAutoImplicit false
set_option autoImplicit false

namespace GameBoyAssembler

/-! ### Blanks and comments -/

theorem isBlankLine_append {tail : List Char} (htail : isBlankLine tail = true)
    (line : List Char) : isBlankLine (line ++ tail) = isBlankLine line := by
  induction line with
  | nil => exact htail
  | cons c line ih =>
      rw [List.cons_append]
      cases hc : isBlank c with
      | true => rw [isBlankLine_cons_of_isBlank hc, isBlankLine_cons_of_isBlank hc, ih]
      | false => rw [isBlankLine_cons hc, isBlankLine_cons hc]

/-- Blanks and a comment come to an end in front of a token, whatever follows it. -/
theorem blankLength_append_of_written {line : List Char} (hline : isBlankLine line = false)
    (tail : List Char) : blankLength (line ++ tail) = blankLength line := by
  induction line with
  | nil => cases hline
  | cons c line ih =>
      rw [List.cons_append]
      cases hc : isBlank c with
      | true =>
          rw [isBlankLine_cons_of_isBlank hc] at hline
          rw [blankLength_cons_of_isBlank hc, blankLength_cons_of_isBlank hc, ih hline]
      | false =>
          rw [isBlankLine_cons hc, Bool.or_eq_false_iff, beq_eq_false_iff_ne] at hline
          rw [blankLength_cons hc hline.1, blankLength_cons hc hline.1]

section Indent

variable {indent : List Char} (hindent : ∀ c ∈ indent, isBlank c = true)

include hindent

theorem isBlankLine_indent (line : List Char) :
    isBlankLine (indent ++ line) = isBlankLine line := by
  induction indent with
  | nil => rfl
  | cons c indent ih =>
      obtain ⟨hc, hrest⟩ := List.forall_mem_cons.1 hindent
      rw [List.cons_append, isBlankLine_cons_of_isBlank hc, ih hrest]

theorem blankLength_indent (line : List Char) :
    blankLength (indent ++ line) = indent.length + blankLength line := by
  induction indent with
  | nil => exact (Nat.zero_add _).symm
  | cons c indent ih =>
      obtain ⟨hc, hrest⟩ := List.forall_mem_cons.1 hindent
      rw [List.cons_append, blankLength_cons_of_isBlank hc, ih hrest, List.length_cons]
      omega

theorem lineFeed_notMem_indent : '\n' ∉ indent := by
  intro h
  cases hindent '\n' h

end Indent

/-- Nothing but blanks and perhaps a comment, on one line. -/
def IsPadding (text : List Char) : Prop :=
  '\n' ∉ text ∧ isBlankLine text = true

namespace IsPadding

variable {text : List Char} (h : IsPadding text)

include h

/-- A token does not go on into padding. -/
theorem separated : Separated text := by
  obtain ⟨-, hblank⟩ := h
  intro c hc
  cases text with
  | nil => cases hc
  | cons d text =>
      obtain rfl : d = c := Option.some.inj hc
      cases hd : isBlank d with
      | true =>
          simp only [isBlank, Bool.or_eq_true, beq_iff_eq, or_assoc] at hd
          rcases hd with rfl | rfl | rfl <;> decide
      | false =>
          rw [isBlankLine_cons hd, Bool.or_eq_true, beq_iff_eq, beq_iff_eq] at hblank
          rcases hblank with rfl | rfl <;> decide

theorem readLines_eq : readLines text = [] := by
  rw [readLines_last h.1, if_pos h.2]

end IsPadding

/-! ### Words at other places -/

theorem sameItem_ofText (kind : TokenKind) (text : String) (p q : Position) :
    SameItem (Token.ofText kind text p) (Token.ofText kind text q) := by
  unfold Token.ofText
  split
  · split <;> exact rfl
  · exact rfl

theorem SameItem.isEnd_eq {x y : Item} (h : SameItem x y) : x.isEnd = y.isEnd := by
  rcases h.cases with ⟨t, u, rfl, rfl, htu⟩ | ⟨e, f, rfl, rfl, -⟩
  · rw [Item.isEnd, Item.isEnd, htu.kind_eq]
  · rfl

namespace Cursor

theorem sameItem_word {c d : Cursor} (h : c.rest = d.rest) :
    SameItem c.word.1 d.word.1 ∧ c.word.2.rest = d.word.2.rest := by
  refine ⟨?_, by rw [word_behind, word_behind, rest_advance, rest_advance, h]⟩
  simp only [word, h]
  split
  · exact rfl
  · exact rfl
  · exact sameItem_ofText _ _ _ _

theorem sameItem_lineBreak {c d : Cursor} (h : c.rest = d.rest) :
    SameItem c.lineBreak.1 d.lineBreak.1 ∧ c.lineBreak.2.rest = d.lineBreak.2.rest := by
  simp only [lineBreak, rest_advance, h, and_true]
  exact sameItem_ofText _ _ _ _

theorem sameItem_next {c d : Cursor} (h : c.rest = d.rest) :
    SameItem c.next.1 d.next.1 ∧ c.next.2.rest = d.next.2.rest := by
  have hskip : c.skipBlanks.rest = d.skipBlanks.rest := by
    rw [skipBlanks, skipBlanks, rest_advance, rest_advance, h]
  simp only [next, hskip]
  split
  · exact sameItem_lineBreak hskip
  · exact sameItem_word hskip

/-- **The place of a text has no part in its words.** -/
theorem sameItems_of_rest {c d : Cursor} (h : c.rest = d.rest) :
    List.Forall₂ SameItem c.items d.items := by
  -- on what is left of the text, as each reading takes something of it
  induction hlen : c.rest.length using Nat.strongRecOn generalizing c d with
  | _ len ih =>
      subst hlen
      obtain ⟨hitem, hrest⟩ := sameItem_next h
      rw [items.eq_def c, items.eq_def d, ← hitem.isEnd_eq]
      split
      · exact .cons hitem .nil
      · rename_i hend
        exact .cons hitem (ih _ (length_next_lt (Bool.eq_false_iff.2 hend)) hrest rfl)

theorem items_ne_nil (c : Cursor) : c.items ≠ [] := by
  rw [items]
  split <;> exact List.cons_ne_nil _ _

/-! ### Padding in front of a line and behind it -/

theorem items_indent {indent : List Char} (hindent : ∀ c ∈ indent, isBlank c = true)
    (line : List Char) (n column : Nat) :
    items ⟨indent ++ line, ⟨n, column⟩⟩ = items ⟨line, ⟨n, column + indent.length⟩⟩ := by
  refine items_congr (next_congr ?_)
  have hfirst : advance ⟨indent ++ line, ⟨n, column⟩⟩ indent.length
      = ⟨line, ⟨n, column + indent.length⟩⟩ := by
    rw [advance_append (lineFeed_notMem_indent hindent) (Nat.le_refl _), List.drop_length]
    rfl
  rw [skipBlanks, blankLength_indent hindent, advance_add, hfirst]
  rfl

/-- **Padding behind a line has no part in its words.** -/
theorem sameItems_append {tail : List Char} (ht : IsPadding tail) (n : Nat) {line : List Char}
    (hfeed : '\n' ∉ line) (column : Nat) :
    List.Forall₂ SameItem (items ⟨line ++ tail, ⟨n, column⟩⟩).dropLast
      (items ⟨line, ⟨n, column⟩⟩).dropLast := by
  -- on what is left of the line: each token takes at least one character of it
  induction hlen : line.length using Nat.strongRecOn generalizing line column with
  | _ len ih =>
      subst hlen
      have hfeed' : '\n' ∉ line ++ tail := by
        rw [List.mem_append, not_or]
        exact ⟨hfeed, ht.1⟩
      cases hblank : isBlankLine line with
      | true =>
          obtain ⟨s, hs, -⟩ := items_of_blank hfeed hblank n column
          obtain ⟨s', hs', -⟩ :=
            items_of_blank hfeed' ((isBlankLine_append ht.2 line).trans hblank) n column
          rw [hs, hs']
          exact .nil
      | false =>
          obtain ⟨rest, hrest⟩ : ∃ rest, line.drop (blankLength line) = rest := ⟨_, rfl⟩
          have hne : rest ≠ [] := hrest ▸ (drop_blankLength_of_written hblank).1
          have hrestFeed : '\n' ∉ rest := fun h => hfeed (List.mem_of_mem_drop (hrest ▸ h))
          have hrest' : (line ++ tail).drop (blankLength (line ++ tail)) = rest ++ tail := by
            rw [blankLength_append_of_written hblank, drop_append_tail (blankLength_le line), hrest]
          obtain ⟨hitems, -⟩ := items_append_of_rest hfeed atLineEnd_nil hrest hne n column
          obtain ⟨hitems', -⟩ := items_append_of_rest hfeed' atLineEnd_nil hrest'
            (List.append_ne_nil_of_left_ne_nil hne tail) n column
          have hnil := atLineEnd_nil.separated
          have hword := word_append hrestFeed hne ht.separated hnil n n (column + blankLength line)
          have hlength := (lexeme_append ht.separated hnil hne).length_eq
          have hle := hnil.length_lexeme_append_le hne hrestFeed
          simp only [List.append_nil] at hitems hitems' hword hlength hle
          rw [blankLength_append_of_written hblank, hlength, drop_append_tail hle] at hitems'
          have hpos : 0 < (lexeme rest).length := length_lexeme_pos hne
          have hshorter : rest.length ≤ line.length := by
            rw [← hrest, List.length_drop]
            omega
          have hbehind := ih (rest.drop (lexeme rest).length).length
            (by rw [List.length_drop]; omega) (fun h => hrestFeed (List.mem_of_mem_drop h))
            (column + blankLength line + (lexeme rest).length) rfl
          rw [hitems, hitems', List.dropLast_cons_of_ne_nil (items_ne_nil _),
            List.dropLast_cons_of_ne_nil (items_ne_nil _)]
          exact .cons hword.sameItem hbehind

end Cursor

theorem forall₂_trans {α : Type} {R : α → α → Prop} (hR : ∀ {a b c}, R a b → R b c → R a c)
    {xs ys zs : List α} (h : List.Forall₂ R xs ys) (h' : List.Forall₂ R ys zs) :
    List.Forall₂ R xs zs := by
  induction h generalizing zs with
  | nil => exact h'
  | cons hxy _ ih =>
      cases h' with
      | cons hyz hrest => exact .cons (hR hxy hyz) (ih hrest)

/-- The same lines, word by word. -/
abbrev SameLines : List (List Item) → List (List Item) → Prop :=
  List.Forall₂ (List.Forall₂ SameItem)

theorem sameLines_refl (itemss : List (List Item)) : SameLines itemss itemss :=
  List.forall₂_same.2 fun _ _ => List.forall₂_same.2 fun x _ => sameItem_refl x

theorem sameLines_trans {xs ys zs : List (List Item)} (h : SameLines xs ys) (h' : SameLines ys zs) :
    SameLines xs zs :=
  forall₂_trans (forall₂_trans fun h h' => h.trans h' (fun _ _ _ => Eq.trans) fun _ _ _ => Eq.trans)
    h h'

theorem sameItems_tokenize {c d : List Char}
    (h : List.Forall₂ SameItem (Cursor.items ⟨c, .start⟩).dropLast
      (Cursor.items ⟨d, .start⟩).dropLast) :
    List.Forall₂ SameItem (tokenize (String.ofList c)) (tokenize (String.ofList d)) := by
  rw [tokenize, tokenize, Cursor.ofSource, Cursor.ofSource, String.toList_ofList,
    String.toList_ofList]
  exact h

/-- A text is read in the same way behind an indent. -/
theorem sameLines_indent {indent : List Char} (hindent : ∀ c ∈ indent, isBlank c = true)
    (text : List Char) : SameLines (readLines (indent ++ text)) (readLines text) := by
  have hnone := lineFeed_notMem_indent hindent
  have hwords (line : List Char) : List.Forall₂ SameItem
      (tokenize (String.ofList (indent ++ line))) (tokenize (String.ofList line)) := by
    refine sameItems_tokenize ?_
    have hsame : List.Forall₂ SameItem (Cursor.items ⟨indent ++ line, .start⟩)
        (Cursor.items ⟨line, .start⟩) := by
      rw [Position.start, Cursor.items_indent hindent]
      exact Cursor.sameItems_of_rest rfl
    rw [List.dropLast_eq_take, List.dropLast_eq_take, hsame.length_eq]
    exact List.forall₂_take _ hsame
  cases text using line_induction with
  | last _ hfeed =>
      rw [readLines_last (List.not_mem_append hnone hfeed), readLines_last hfeed,
        isBlankLine_indent hindent]
      split
      · exact .nil
      · exact .cons (hwords text) .nil
  | step line cs hfeed _ =>
      rw [← List.append_assoc, readLines_cons (List.not_mem_append hnone hfeed),
        readLines_cons hfeed, isBlankLine_indent hindent]
      split
      · exact sameLines_refl _
      · exact .cons (hwords line) (sameLines_refl _)

/-- A text is read in the same way with padding behind its last line. -/
theorem sameLines_append {tail : List Char} (ht : IsPadding tail) (text : List Char) :
    SameLines (readLines (text ++ tail)) (readLines text) := by
  induction text using line_induction with
  | last line hfeed =>
      rw [readLines_last (List.not_mem_append hfeed ht.1), readLines_last hfeed,
        isBlankLine_append ht.2]
      split
      · exact .nil
      · exact .cons (sameItems_tokenize (Cursor.sameItems_append ht 1 hfeed 1)) .nil
  | step line cs hfeed ih =>
      rw [List.append_assoc, List.cons_append, readLines_cons hfeed, readLines_cons hfeed]
      split
      · exact ih
      · exact .cons (List.forall₂_same.2 fun x _ => sameItem_refl x) ih

/-! ### Lines laid out in another way -/

/-- The second lines are the first, laid out in another way: lines without a token are put between
them, and each line may be indented and have padding behind it. -/
inductive Relaid : List String → List String → Prop
  | nil : Relaid [] []
  | padding {lines lines' : List String} (text : String) (htext : IsPadding text.toList)
      (hrest : Relaid lines lines') : Relaid lines (text :: lines')
  | line {lines lines' : List String} (indent line trailing : String)
      (hindent : ∀ c ∈ indent.toList, isBlank c = true) (htrailing : IsPadding trailing.toList)
      (hrest : Relaid lines lines') : Relaid (line :: lines) ((indent ++ line ++ trailing) :: lines')

/-- **Lines that are laid out in another way are read in the same way.** -/
theorem sameLines_relaid {lines lines' : List String} (h : Relaid lines lines') :
    SameLines (readLines ("\n".intercalate lines').toList)
      (readLines ("\n".intercalate lines).toList) := by
  rw [readLines_intercalate, readLines_intercalate]
  induction h with
  | nil => exact .nil
  | padding text htext _ ih =>
      rw [List.flatMap_cons, htext.readLines_eq, List.nil_append]
      exact ih
  | line indent line trailing hindent htrailing _ ih =>
      rw [List.flatMap_cons, List.flatMap_cons, String.toList_append, String.toList_append]
      refine List.rel_append ?_ ih
      exact sameLines_trans (sameLines_append htrailing _) (sameLines_indent hindent _)

/-- A carriage return in front of each line feed is padding behind the line. -/
theorem sameLines_carriageReturn (lines : List String) :
    SameLines (readLines ("\r\n".intercalate lines).toList)
      (readLines ("\n".intercalate lines).toList) := by
  have hreturn : IsPadding ['\r'] := ⟨by decide, rfl⟩
  rw [readLines_intercalate, String.toList_intercalate]
  induction lines with
  | nil => exact .nil
  | cons line lines ih =>
      cases lines with
      | nil =>
          rw [List.map_singleton, List.intercalate_singleton, List.flatMap_singleton]
          exact sameLines_refl _
      | cons next lines =>
          have hjoin : "\r\n".toList.intercalate ((line :: next :: lines).map String.toList)
              = (line.toList ++ ['\r']) ++ '\n' ::
                "\r\n".toList.intercalate ((next :: lines).map String.toList) := by
            simp [List.intercalate]
          rw [hjoin, readLines_append, List.flatMap_cons]
          exact List.rel_append (sameLines_append hreturn _) ih

/-- Sources with the same lines are assembled alike. -/
theorem agrees_assemble_of_sameLines {source source' : String}
    (h : SameLines (readLines source'.toList) (readLines source.toList)) (base : UInt16) :
    Agrees Program.Same (assemble source base) (assemble source' base) := by
  have hlines : Agrees Program.Same
      (assembleLines ((readLines source'.toList).map Line.alone) base)
      (assembleLines ((readLines source.toList).map Line.alone) base) := by
    refine agrees_assembleLines ?_ base
    exact List.forall₂_map_left_iff.2 (List.forall₂_map_right_iff.2 h)
  have hsource' := (agrees_assemble_readLines source' base).trans hlines (fun _ _ _ => Eq.trans)
    fun _ _ _ => Program.Same.trans
  refine (agrees_assemble_readLines source base).trans
    (hsource'.symm (fun _ _ => Eq.symm) fun _ _ => Program.Same.symm) (fun _ _ _ => Eq.trans)
    fun _ _ _ => Program.Same.trans

/-- **The layout of the text does not matter.**  Put lines without a token anywhere between the lines
of a source, indent its lines and put blanks and comments behind them, or end them with a carriage
return and a line feed.  If the source was assembled it is assembled still, to the same instructions
at the same addresses and to the same keys, with the kinds and the values that they had; if it was
not, there is still an error of the same kind. -/
theorem assemble_relaid {lines lines' : List String} (h : Relaid lines lines') (base : UInt16) :
    let source := "\n".intercalate lines
    let relaid := "\n".intercalate lines'
    let returned := "\r\n".intercalate lines
    let same (p q : Program) : Prop :=
      p.instructions = q.instructions ∧
        ∀ key : String,
          p.symbols[key]?.map Symbol.kind = q.symbols[key]?.map Symbol.kind ∧
            p.symbols.value? key = q.symbols.value? key
    Agrees same (assemble source base) (assemble relaid base) ∧
      Agrees same (assemble source base) (assemble returned base) := by
  intro source relaid returned same
  have hsame (p q : Program) (hpq : p.Same q) : same p q :=
    ⟨hpq.instructions, fun key => ⟨hpq.symbols.kind_eq key, hpq.symbols.value?_eq key⟩⟩
  constructor
  · exact (agrees_assemble_of_sameLines (sameLines_relaid h) base).imp hsame
  · exact (agrees_assemble_of_sameLines (sameLines_carriageReturn lines) base).imp hsame

/-- Lines that end in a comment and in SP with an offset, laid out in another way, and a line that
ends in an open bracket. -/
theorem assemble_relaid_padded :
    (∃ q, assemble
        "; head\n\tK EQU 5\t\n\n  MAIN: LD A, K; load\nLD HL, SP+4\r\n.L JR .L ; loop ;\n \r" 0x150
          = .ok q ∧
      q.instructions = [⟨0x150, .loadImm .a 5⟩, ⟨0x152, .loadHLSP 4⟩, ⟨0x154, .jumpRel none (-2)⟩] ∧
      q.symbols.value? "MAIN.L" = some 0x154) ∧
    ∃ e, assemble "LD A, (0x10\r\n" 0 = .error e ∧ e.kind = .lexical := by
  have hnone : ∀ c ∈ "".toList, isBlank c = true := List.all_eq_true.1 rfl
  have hempty : IsPadding "".toList := ⟨by decide, rfl⟩
  constructor
  · have hlines : Relaid ["K EQU 5", "MAIN: LD A, K", "LD HL, SP+4", ".L JR .L ; loop"]
        ["; head", "\t" ++ "K EQU 5" ++ "\t", "", "  " ++ "MAIN: LD A, K" ++ "; load",
          "" ++ "LD HL, SP+4" ++ "\r", "" ++ ".L JR .L ; loop" ++ " ;", " \r"] := by
      refine .padding "; head" ⟨by decide, rfl⟩ ?_
      refine .line "\t" "K EQU 5" "\t" (List.all_eq_true.1 rfl) ⟨by decide, rfl⟩ ?_
      refine .padding "" hempty ?_
      refine .line "  " "MAIN: LD A, K" "; load" (List.all_eq_true.1 rfl) ⟨by decide, rfl⟩ ?_
      refine .line "" "LD HL, SP+4" "\r" hnone ⟨by decide, rfl⟩ ?_
      refine .line "" ".L JR .L ; loop" " ;" hnone ⟨by decide, rfl⟩ ?_
      exact .padding " \r" ⟨by decide, rfl⟩ .nil
    have hagrees := (assemble_relaid hlines 0x150).1
    have hrun : (assemble ("\n".intercalate
          ["K EQU 5", "MAIN: LD A, K", "LD HL, SP+4", ".L JR .L ; loop"]) 0x150).toOption.map
        (fun p => (p.instructions, p.symbols.value? "MAIN.L"))
        = some ([⟨0x150, .loadImm .a 5⟩, ⟨0x152, .loadHLSP 4⟩, ⟨0x154, .jumpRel none (-2)⟩],
          some 0x154) := by decide +kernel
    rcases hagrees.cases with ⟨p, q, hp, hq, hinstructions, hkeys⟩ | ⟨e, f, he, -, -⟩
    · rw [hp] at hrun
      obtain ⟨hrun, hvalue⟩ := Prod.mk.inj (Option.some.inj hrun)
      exact ⟨q, hq, hinstructions ▸ hrun, (hkeys "MAIN.L").2 ▸ hvalue⟩
    · rw [he] at hrun
      cases hrun
  · have hlines : Relaid ["LD A, (0x10", ""] ["" ++ "LD A, (0x10" ++ "", "" ++ "" ++ ""] :=
      .line "" _ "" hnone hempty (.line "" _ "" hnone hempty .nil)
    have hagrees := (assemble_relaid hlines 0).2
    have hrun : (match assemble ("\n".intercalate ["LD A, (0x10", ""]) 0 with
        | .ok _ => none
        | .error e => some e.kind) = some ErrorKind.lexical := by decide +kernel
    rcases hagrees.cases with ⟨p, q, hp, -, -⟩ | ⟨e, f, he, hf, hkind⟩
    · rw [hp] at hrun
      cases hrun
    · rw [he] at hrun
      exact ⟨f, hf, hkind ▸ Option.some.inj hrun⟩

end GameBoyAssembler
