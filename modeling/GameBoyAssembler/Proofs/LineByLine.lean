import GameBoyAssembler.Proofs.Places
import Mathlib.Data.List.Forall2

/-!
# Reading line by line

A token ends with its line, and so does a comment.  What stands on one line is therefore read in the
same way wherever the line stands and whatever follows it; only a fault at the very end of a line
tells whether a line feed or the end of the source came instead of what was wanted.  A run of line
ends, blank lines and comments is read as one token.  From these two facts the items of a source are
put together from its lines, each read as a source of its own.

Main definitions:

* `AtLineEnd` — a text that is empty or goes on with a line feed;
* `Separated` — a text that is empty or goes on with a blank, a comment or a line feed;
* `Lexeme.SameUnless`, `Item.SameUnless` — two readings that are the same, or both faults if what
  follows is not the same;
* `rawLines`, `isBlankLine`, `writtenLines` — the lines of a text, those that hold no token, and the
  others with their numbers;
* `lineItems`, `lineEnd`, `joinLines` — the items of a line read alone, the token for its end, and the
  items of lines put together;
* `Cursor.settled` — the cursor behind blank lines.

Main results:

* `lexeme_append` — what is set off by a blank, a comment or a line end has no part in a token;
* `Cursor.items_append` — a line is read in the same way whatever follows it;
* `Cursor.items_settled` — behind blank lines come the lines that are not blank;
* `tokenize_line_by_line` — **a source is read line by line**.
-/

set_option relaxedAutoImplicit false
set_option autoImplicit false

namespace GameBoyAssembler

/-! ### The end of a line -/

/-- Nothing follows, or a line feed does. -/
def AtLineEnd (tail : List Char) : Prop :=
  ∀ c, tail.head? = some c → c = '\n'

theorem atLineEnd_nil : AtLineEnd [] := by
  intro c hc
  cases hc

theorem atLineEnd_lineFeed (cs : List Char) : AtLineEnd ('\n' :: cs) := by
  intro c hc
  exact (Option.some.inj hc).symm

section Tail

variable {tail : List Char} (ht : AtLineEnd tail)

include ht

theorem AtLineEnd.cases : tail = [] ∨ ∃ cs, tail = '\n' :: cs := by
  cases tail with
  | nil => exact Or.inl rfl
  | cons c cs =>
      obtain rfl := ht c rfl
      exact Or.inr ⟨cs, rfl⟩

/-- A run of a class without the line feed ends with the line. -/
theorem AtLineEnd.runLength_append {p : Char → Bool} (hp : p '\n' = false) (line : List Char) :
    runLength p (line ++ tail) = runLength p line := by
  have htail : tail.takeWhile p = [] := by
    rcases ht.cases with rfl | ⟨cs, rfl⟩
    · rfl
    · rw [List.takeWhile_cons, hp]
      rfl
  unfold runLength
  rw [List.takeWhile_append]
  split
  · rw [htail, List.append_nil]
    rename_i h
    rw [h]
  · rfl

end Tail

/-! ### What sets tokens off -/

/-- Blanks, the line feed and the semicolon of a comment are part of no token. -/
def separators : List Char :=
  [' ', '\t', '\r', '\n', ';']

/-- Nothing follows, or a character that is part of no token. -/
def Separated (tail : List Char) : Prop :=
  ∀ c, tail.head? = some c → c ∈ separators

theorem AtLineEnd.separated {tail : List Char} (ht : AtLineEnd tail) : Separated tail := by
  intro c hc
  rw [ht c hc]
  decide

theorem class_of_mem_separators {p : Char → Bool} (hp : separators.any p = false) {c : Char}
    (hc : c ∈ separators) : p c = false :=
  Bool.eq_false_iff.2 (List.any_eq_false.1 hp c hc)

theorem ne_of_mem_separators {c d : Char} (hd : d ∉ separators) (hc : c ∈ separators) : c ≠ d :=
  ne_of_mem_of_not_mem hc hd

theorem ne_closingBracket_of_mem_separators (opening : Char) {c : Char} (hc : c ∈ separators) :
    c ≠ closingBracket opening := by
  refine ne_of_mem_separators ?_ hc
  unfold closingBracket
  split <;> decide

section Tail

variable {tail : List Char} (ht : Separated tail)

include ht

theorem Separated.cases : tail = [] ∨ ∃ c cs, tail = c :: cs ∧ c ∈ separators := by
  cases tail with
  | nil => exact Or.inl rfl
  | cons c cs => exact Or.inr ⟨c, cs, rfl, ht c rfl⟩

/-- A run of a class without separators ends in front of them. -/
theorem Separated.runLength_append {p : Char → Bool} (hp : separators.any p = false)
    (line : List Char) : runLength p (line ++ tail) = runLength p line := by
  have htail : tail.takeWhile p = [] := by
    rcases ht.cases with rfl | ⟨c, cs, rfl, hc⟩
    · rfl
    · rw [List.takeWhile_cons, class_of_mem_separators hp hc]
      rfl
  unfold runLength
  rw [List.takeWhile_append]
  split
  · rw [htail, List.append_nil]
    rename_i h
    rw [h]
  · rfl

theorem Separated.any_head?_append {p : Char → Bool} (hp : separators.any p = false)
    (line : List Char) : (line ++ tail).head?.any p = line.head?.any p := by
  cases line with
  | cons c line => rfl
  | nil =>
      rcases ht.cases with rfl | ⟨c, cs, rfl, hc⟩
      · rfl
      · exact class_of_mem_separators hp hc

theorem Separated.head?_append_eq_some {d : Char} (hd : d ∉ separators) (line : List Char) :
    (line ++ tail).head? = some d ↔ line.head? = some d := by
  cases line with
  | cons c line => exact Iff.rfl
  | nil =>
      refine ⟨fun h => absurd (ht d h) hd, fun h => ?_⟩
      cases h

end Tail

theorem runLength_le (p : Char → Bool) (cs : List Char) : runLength p cs ≤ cs.length :=
  (List.takeWhile_prefix p).length_le

theorem drop_append_tail {n : Nat} {line : List Char} (h : n ≤ line.length) (tail : List Char) :
    (line ++ tail).drop n = line.drop n ++ tail :=
  List.drop_append_of_le_length h

theorem take_append_tail {n : Nat} {line : List Char} (h : n ≤ line.length) (tail : List Char) :
    (line ++ tail).take n = line.take n :=
  List.take_append_of_le_length h

/-! ### Tokens end in front of a separator -/

/-- The lexemes take the same characters.  They are of the same kind, or both are faults that differ
in their cause, which is possible only under `P`. -/
structure Lexeme.SameUnless (P : Prop) (x y : Lexeme) : Prop where
  length_eq : x.length = y.length
  outcome_eq : x.outcome = y.outcome ∨
    P ∧ ∃ e f, x.outcome = .error e ∧ y.outcome = .error f ∧ e.kind = f.kind

theorem Lexeme.SameUnless.refl (P : Prop) (x : Lexeme) : Lexeme.SameUnless P x x :=
  ⟨rfl, Or.inl rfl⟩

/-- A name with a separator behind it. -/
theorem nameLexeme_of_separated {n : Nat} {cs : List Char} (h : Separated (cs.drop n)) :
    nameLexeme n cs = ⟨.ok .identifier, n⟩ := by
  rcases h.cases with hdrop | ⟨c, rest, hdrop, hc⟩
  · simp [nameLexeme, hdrop]
  · have hsign : isSign c = false := class_of_mem_separators rfl hc
    have hcolon : c ≠ ':' := ne_of_mem_separators (by decide) hc
    cases rest <;> simp [nameLexeme, hdrop, hsign, hcolon]

/-- A name with one character between it and a separator. -/
theorem nameLexeme_of_one {n : Nat} {cs rest : List Char} {c : Char}
    (hdrop : cs.drop n = c :: rest) (h : Separated rest) :
    nameLexeme n cs = if c = ':' then ⟨.ok .globalLabel, n + 1⟩ else ⟨.ok .identifier, n⟩ := by
  rcases h.cases with rfl | ⟨d, rest, rfl, hd⟩
  · simp [nameLexeme, hdrop]
  · have hdigit : d.isDigit = false := class_of_mem_separators rfl hd
    simp [nameLexeme, hdrop, hdigit]

/-- A fault that names the character behind the text. -/
theorem Lexeme.sameUnless_fault (tail tail' : List Char) {cause : Option Char → Cause}
    (hcause : ∀ next, (cause next).kind = .lexical) (n : Nat) :
    Lexeme.SameUnless (tail.head? ≠ tail'.head?) ⟨.error (cause tail.head?), n⟩
      ⟨.error (cause tail'.head?), n⟩ := by
  refine ⟨rfl, ?_⟩
  by_cases h : tail.head? = tail'.head?
  · exact Or.inl (by rw [h])
  · exact Or.inr ⟨h, _, _, rfl, rfl, (hcause _).trans (hcause _).symm⟩

section Lexemes

variable {tail tail' : List Char} (ht : Separated tail) (ht' : Separated tail')

/-- A dot without a name behind it. -/
theorem Lexeme.sameUnless_noName (line : List Char) :
    Lexeme.SameUnless (tail.head? ≠ tail'.head?)
      ⟨.error (.noLabelName (line ++ tail).head?), 1⟩
      ⟨.error (.noLabelName (line ++ tail').head?), 1⟩ := by
  cases line with
  | nil => exact Lexeme.sameUnless_fault tail tail' (fun _ => rfl) 1
  | cons c line => exact .refl _ _

include ht ht'

/-- A bracket that is not closed in front of a separator is a fault. -/
theorem Lexeme.sameUnless_closing (opening : Char) (kind : TokenKind) (n : Nat)
    (line : List Char) :
    Lexeme.SameUnless (tail.head? ≠ tail'.head?)
      (match line ++ tail with
        | c :: _ =>
            if c = closingBracket opening then ⟨.ok kind, n + 2⟩
            else ⟨.error (.unclosedBracket opening (some c)), n + 1⟩
        | [] => ⟨.error (.unclosedBracket opening none), n + 1⟩)
      (match line ++ tail' with
        | c :: _ =>
            if c = closingBracket opening then ⟨.ok kind, n + 2⟩
            else ⟨.error (.unclosedBracket opening (some c)), n + 1⟩
        | [] => ⟨.error (.unclosedBracket opening none), n + 1⟩) := by
  cases line with
  | cons c line => exact .refl _ _
  | nil =>
      have hfault : Lexeme.SameUnless (tail.head? ≠ tail'.head?)
          ⟨.error (.unclosedBracket opening tail.head?), n + 1⟩
          ⟨.error (.unclosedBracket opening tail'.head?), n + 1⟩ :=
        Lexeme.sameUnless_fault tail tail' (fun _ => rfl) (n + 1)
      have hopen {c : Char} (hc : c ∈ separators) : c ≠ closingBracket opening :=
        ne_closingBracket_of_mem_separators opening hc
      rcases ht.cases with rfl | ⟨c, cs, rfl, hc⟩ <;> rcases ht'.cases with rfl | ⟨d, ds, rfl, hd⟩
      · exact hfault
      · simp only [List.nil_append, if_neg (hopen hd)]
        exact hfault
      · simp only [List.nil_append, if_neg (hopen hc)]
        exact hfault
      · simp only [List.nil_append, if_neg (hopen hc), if_neg (hopen hd)]
        exact hfault

theorem bracketLexeme_append (opening : Char) (line : List Char) :
    Lexeme.SameUnless (tail.head? ≠ tail'.head?) (bracketLexeme opening (line ++ tail))
      (bracketLexeme opening (line ++ tail')) := by
  cases line with
  | nil =>
      have hempty {rest : List Char} (hrest : Separated rest) :
          bracketLexeme opening rest = ⟨.error (.badBracketContent opening rest.head?), 1⟩ := by
        rcases hrest.cases with rfl | ⟨c, cs, rfl, hc⟩
        · rfl
        · have hstart : isNameStart c = false := class_of_mem_separators rfl hc
          have hdigit : c.isDigit = false := class_of_mem_separators rfl hc
          simp [bracketLexeme, hstart, hdigit]
      rw [List.nil_append, List.nil_append, hempty ht, hempty ht']
      exact Lexeme.sameUnless_fault tail tail' (fun _ => rfl) 1
  | cons c line =>
      have hclosed (kind : TokenKind) (p : Char → Bool) :=
        Lexeme.sameUnless_closing ht ht' opening kind (runLength p (c :: line))
          ((c :: line).drop (runLength p (c :: line)))
      simp only [← drop_append_tail (runLength_le _ (c :: line))] at hclosed
      simp only [bracketLexeme, List.cons_append]
      simp only [← List.cons_append, ht.runLength_append (p := isBracketedChar) rfl,
        ht.runLength_append (p := isNameChar) rfl, ht'.runLength_append (p := isBracketedChar) rfl,
        ht'.runLength_append (p := isNameChar) rfl]
      split
      · exact hclosed .identifier isBracketedChar
      · split
        · exact hclosed .address isNameChar
        · exact .refl _ _

theorem nameLexeme_append {n : Nat} {line : List Char} (hn : n ≤ line.length) :
    nameLexeme n (line ++ tail) = nameLexeme n (line ++ tail') := by
  have hdrop := drop_append_tail hn tail
  have hdrop' := drop_append_tail hn tail'
  rcases hrest : line.drop n with _ | ⟨c, _ | ⟨d, rest⟩⟩
  · rw [hrest, List.nil_append] at hdrop hdrop'
    rw [nameLexeme_of_separated (by rwa [hdrop]), nameLexeme_of_separated (by rwa [hdrop'])]
  · rw [hrest] at hdrop hdrop'
    rw [nameLexeme_of_one hdrop ht, nameLexeme_of_one hdrop' ht']
  · simp only [nameLexeme, take_append_tail hn, drop_append_tail hn, hrest, List.cons_append]
    rw [← List.cons_append, ht.runLength_append rfl, ← List.cons_append, ht'.runLength_append rfl]

/-- **What is set off by a separator has no part in the token in front**: only the cause of a fault
right in front of the separator may name it. -/
theorem lexeme_append {line : List Char} (hline : line ≠ []) :
    Lexeme.SameUnless (tail.head? ≠ tail'.head?) (lexeme (line ++ tail))
      (lexeme (line ++ tail')) := by
  obtain ⟨c, line, rfl⟩ := List.exists_cons_of_ne_nil hline
  have hbracket := bracketLexeme_append ht ht' c line
  have hrun := ht.runLength_append (p := isNameChar) rfl
  have hrun' := ht'.runLength_append (p := isNameChar) rfl
  have hname : nameLexeme (runLength isNameChar (c :: (line ++ tail))) (c :: (line ++ tail))
      = nameLexeme (runLength isNameChar (c :: (line ++ tail'))) (c :: (line ++ tail')) := by
    rw [← List.cons_append, ← List.cons_append, hrun, hrun']
    exact nameLexeme_append ht ht' (runLength_le isNameChar (c :: line))
  simp only [lexeme, List.cons_append, hname, hrun, hrun',
    drop_append_tail (runLength_le isNameChar line),
    ht.head?_append_eq_some (d := ':') (by decide), ht.any_head?_append (p := Char.isDigit) rfl,
    ht'.head?_append_eq_some (d := ':') (by decide), ht'.any_head?_append (p := Char.isDigit) rfl]
  split
  · exact .refl _ _
  · split
    · split
      · exact Lexeme.sameUnless_noName line
      · exact .refl _ _
    · split
      · exact hbracket
      · exact .refl _ _

end Lexemes

section Tail

variable {tail : List Char} (ht : AtLineEnd tail)

include ht

/-- Blanks and a comment end with the line. -/
theorem AtLineEnd.blankLength_append (line : List Char) :
    blankLength (line ++ tail) = blankLength line := by
  simp only [blankLength, ht.runLength_append (p := isBlank) rfl,
    drop_append_tail (runLength_le isBlank line)]
  cases line.drop (runLength isBlank line) with
  | nil => rcases ht.cases with rfl | ⟨cs, rfl⟩ <;> rfl
  | cons c rest =>
      by_cases hc : c = ';'
      · subst hc
        rw [List.cons_append]
        simp only [ht.runLength_append (p := (· != '\n')) rfl]
      · simp [hc]

end Tail

/-- Tokens and faults do not reach past a separator. -/
theorem Separated.length_lexeme_append_le {tail line : List Char} (ht : Separated tail)
    (hline : line ≠ []) (hfeed : '\n' ∉ line) : (lexeme (line ++ tail)).length ≤ line.length := by
  -- a line feed behind the line is as good as any tail, and is not taken
  rw [(lexeme_append ht (atLineEnd_lineFeed []).separated hline).length_eq]
  by_contra hlong
  have hhead : (line ++ ['\n']).head? ≠ some '\n' := by
    obtain ⟨c, line, rfl⟩ := List.exists_cons_of_ne_nil hline
    intro hc
    exact hfeed (Option.some.inj hc ▸ List.mem_cons_self)
  refine lineFeed_notMem_lexeme hhead ?_
  rw [List.take_of_length_le (by rw [List.length_append, List.length_singleton]; omega)]
  exact List.mem_append_right _ (List.mem_singleton_self _)

theorem blankLength_le (cs : List Char) : blankLength cs ≤ cs.length := by
  have hrun := runLength_le isBlank cs
  simp only [blankLength]
  split
  · rename_i comment hcomment
    have hlength := congrArg List.length hcomment
    have hcomment := runLength_le (· != '\n') comment
    rw [List.length_drop, List.length_cons] at hlength
    omega
  · exact hrun

/-! ### Items of a line -/

/-- The item is no line end. -/
def Item.InLine (item : Item) : Prop :=
  ∀ t, item = .ok t → t.endsLine = false

theorem Item.InLine.isEnd_eq {item : Item} (h : item.InLine) : item.isEnd = false := by
  cases item with
  | error e => rfl
  | ok t =>
      have ht := h t rfl
      simp only [Token.endsLine, Bool.or_eq_false_iff] at ht
      exact ht.2

/-- The item with another line number. -/
def Item.onLine (n : Nat) : Item → Item
  | .ok t => .ok { t with pos := ⟨n, t.pos.column⟩ }
  | .error e => .error { e with span := ⟨⟨n, e.span.pos.column⟩, e.span.width⟩ }

/-- The items are the same but for the line number, which is `n` in the first, or both are errors of
the same kind, which is possible only under `P`. -/
def Item.SameUnless (P : Prop) (n : Nat) (x y : Item) : Prop :=
  x = y.onLine n ∨ P ∧ ∃ e f, x = .error e ∧ y = .error f ∧ e.kind = f.kind

theorem Item.onLine_ofText (kind : TokenKind) (text : String) (n m column : Nat) :
    Item.onLine n (Token.ofText kind text ⟨m, column⟩) = Token.ofText kind text ⟨n, column⟩ := by
  unfold Token.ofText
  split
  · split <;> rfl
  · rfl

theorem Item.eq_map_of_sameUnless {P : Prop} (hP : ¬ P) {n : Nat} {xs ys : List Item}
    (h : List.Forall₂ (Item.SameUnless P n) xs ys) : xs = ys.map (Item.onLine n) := by
  induction h with
  | nil => rfl
  | cons hxy _ ih => rw [List.map_cons, ← ih, ← hxy.resolve_right fun h => hP h.1]

namespace Cursor

theorem word_behind (c : Cursor) : c.word.2 = c.advance (lexeme c.rest).length := by
  simp only [word]
  split <;> rfl

theorem word_inLine {c : Cursor} (h : c.rest ≠ []) : c.word.1.InLine := by
  intro t ht
  simp only [word] at ht
  split at ht
  · cases ht
  · cases ht
  · rename_i kind _ hkind
    have hends := lexeme_not_endsLine h hkind
    rcases Token.ofText_cases kind (String.ofList (c.rest.take (lexeme c.rest).length)) c.pos with
      ⟨t', ht', hkind', -⟩ | ⟨e, he, -⟩
    · rw [ht'] at ht
      cases ht
      simp [Token.endsLine, hkind', hends]
    · rw [he] at ht
      cases ht

theorem items_of_inLine {c : Cursor} (h : c.next.1.InLine) :
    c.items = c.next.1 :: c.next.2.items := by
  rw [items, h.isEnd_eq]
  rfl

theorem items_congr {c d : Cursor} (h : c.next = d.next) : c.items = d.items := by
  rw [items.eq_def c, h, ← items.eq_def d]

theorem next_congr {c d : Cursor} (h : c.skipBlanks = d.skipBlanks) : c.next = d.next := by
  simp only [next, h]

theorem advance_append {line : List Char} (hfeed : '\n' ∉ line) {k : Nat} (hk : k ≤ line.length)
    (tail : List Char) (n column : Nat) :
    advance ⟨line ++ tail, ⟨n, column⟩⟩ k = ⟨line.drop k ++ tail, ⟨n, column + k⟩⟩ := by
  have htake : '\n' ∉ line.take k := fun h => hfeed (List.mem_of_mem_take h)
  simp only [advance, drop_append_tail hk, take_append_tail hk, Position.after_of_notMem htake,
    List.length_take, Nat.min_eq_left hk]

theorem skipBlanks_append {line tail : List Char} (hfeed : '\n' ∉ line) (ht : AtLineEnd tail)
    (n column : Nat) :
    skipBlanks ⟨line ++ tail, ⟨n, column⟩⟩
      = ⟨line.drop (blankLength line) ++ tail, ⟨n, column + blankLength line⟩⟩ := by
  rw [skipBlanks, ht.blankLength_append line]
  exact advance_append hfeed (blankLength_le line) tail n column

theorem word_append {line tail tail' : List Char} (hfeed : '\n' ∉ line) (hline : line ≠ [])
    (ht : Separated tail) (ht' : Separated tail') (n m column : Nat) :
    Item.SameUnless (tail.head? ≠ tail'.head?) n (word ⟨line ++ tail, ⟨n, column⟩⟩).1
      (word ⟨line ++ tail', ⟨m, column⟩⟩).1 := by
  have hle := ht.length_lexeme_append_le hline hfeed
  obtain ⟨hlength, houtcome⟩ := lexeme_append ht ht' hline
  have hle' := hlength ▸ hle
  simp only [word, hlength, advance_append hfeed hle', take_append_tail hle']
  rcases houtcome with hsame | ⟨hdiffer, e, f, he, hf, hkind⟩
  · rw [hsame]
    refine Or.inl ?_
    cases (lexeme (line ++ tail')).outcome with
    | error cause => rfl
    | ok kind =>
        split
        · rename_i heq
          cases heq
        · rfl
        · rename_i heq
          cases heq
          exact (Item.onLine_ofText _ _ _ _ _).symm
  · rw [he, hf]
    exact Or.inr ⟨hdiffer, _, _, rfl, rfl, hkind⟩

/-- A line without a token on it. -/
theorem items_append_of_blank {line tail : List Char} (hfeed : '\n' ∉ line) (ht : AtLineEnd tail)
    (hblank : blankLength line = line.length) (n column : Nat) :
    items ⟨line ++ tail, ⟨n, column⟩⟩ = items ⟨tail, ⟨n, column + line.length⟩⟩ := by
  have hnone : skipBlanks ⟨tail, ⟨n, column + line.length⟩⟩ = ⟨tail, ⟨n, column + line.length⟩⟩ :=
    skipBlanks_append List.not_mem_nil ht n (column + line.length)
  refine items_congr (next_congr ?_)
  rw [skipBlanks_append hfeed ht, hblank, List.drop_length, hnone, List.nil_append]

/-- The first token of a line, and what is left of the line behind it. -/
theorem items_append_of_rest {line tail rest : List Char} (hfeed : '\n' ∉ line)
    (ht : AtLineEnd tail) (hrest : line.drop (blankLength line) = rest) (hne : rest ≠ [])
    (n column : Nat) :
    let c : Cursor := ⟨rest ++ tail, ⟨n, column + blankLength line⟩⟩
    let k := (lexeme (rest ++ tail)).length
    items ⟨line ++ tail, ⟨n, column⟩⟩
        = c.word.1 :: items ⟨rest.drop k ++ tail, ⟨n, column + blankLength line + k⟩⟩ ∧
      c.word.1.InLine := by
  intro c k
  have hfeed' : '\n' ∉ rest := fun h => hfeed (List.mem_of_mem_drop (hrest ▸ h))
  have hinLine : c.word.1.InLine := word_inLine (List.append_ne_nil_of_left_ne_nil hne tail)
  have hnext : next ⟨line ++ tail, ⟨n, column⟩⟩ = c.word := by
    have hhead : (rest ++ tail).head? ≠ some '\n' := by
      obtain ⟨a, rest, rfl⟩ := List.exists_cons_of_ne_nil hne
      intro ha
      exact hfeed' (Option.some.inj ha ▸ List.mem_cons_self)
    rw [next, skipBlanks_append hfeed ht, hrest]
    exact if_neg hhead
  refine ⟨?_, hinLine⟩
  rw [items_of_inLine (hnext ▸ hinLine), hnext, word_behind,
    advance_append hfeed' (ht.separated.length_lexeme_append_le hne hfeed')]

/-- **A line is read in the same way whatever follows it**, and reading goes on behind it. -/
theorem items_append {tail tail' : List Char} (ht : AtLineEnd tail) (ht' : AtLineEnd tail')
    (n m : Nat) {line : List Char} (hfeed : '\n' ∉ line) (column : Nat) :
    ∃ xs ys : List Item,
      items ⟨line ++ tail, ⟨n, column⟩⟩ = xs ++ items ⟨tail, ⟨n, column + line.length⟩⟩ ∧
      items ⟨line ++ tail', ⟨m, column⟩⟩ = ys ++ items ⟨tail', ⟨m, column + line.length⟩⟩ ∧
      List.Forall₂ (Item.SameUnless (tail.head? ≠ tail'.head?) n) xs ys ∧
      ∀ x ∈ xs, Item.InLine x := by
  -- on what is left of the line: each token takes at least one character of it
  induction hlen : line.length using Nat.strongRecOn generalizing line column with
  | _ len ih =>
      subst hlen
      by_cases hblank : blankLength line = line.length
      · exact ⟨[], [], items_append_of_blank hfeed ht hblank n column,
          items_append_of_blank hfeed ht' hblank m column, .nil, List.forall_mem_nil _⟩
      obtain ⟨rest, hrest⟩ : ∃ rest, line.drop (blankLength line) = rest := ⟨_, rfl⟩
      have hne : rest ≠ [] := by
        rw [← hrest]
        intro hnil
        exact hblank (Nat.le_antisymm (blankLength_le line) (List.drop_eq_nil_iff.1 hnil))
      have hfeed' : '\n' ∉ rest := fun h => hfeed (List.mem_of_mem_drop (hrest ▸ h))
      obtain ⟨hitems, hinLine⟩ := items_append_of_rest hfeed ht hrest hne n column
      obtain ⟨hitems', -⟩ := items_append_of_rest hfeed ht' hrest hne m column
      have hword := word_append hfeed' hne ht.separated ht'.separated n m (column + blankLength line)
      have hpos : 0 < (lexeme (rest ++ tail)).length :=
        length_lexeme_pos (List.append_ne_nil_of_left_ne_nil hne tail)
      have hle := ht.separated.length_lexeme_append_le hne hfeed'
      rw [← (lexeme_append ht.separated ht'.separated hne).length_eq] at hitems'
      have hlength : rest.length + blankLength line = line.length := by
        rw [← hrest, List.length_drop]
        exact Nat.sub_add_cancel (blankLength_le line)
      obtain ⟨xs, ys, hxs, hys, hsame, hin⟩ := ih (rest.drop (lexeme (rest ++ tail)).length).length
        (by rw [List.length_drop]; omega) (fun h => hfeed' (List.mem_of_mem_drop h))
        (column + blankLength line + (lexeme (rest ++ tail)).length) rfl
      have hcolumn : column + blankLength line + (lexeme (rest ++ tail)).length
          + (rest.drop (lexeme (rest ++ tail)).length).length = column + line.length := by
        rw [List.length_drop]
        omega
      rw [hcolumn] at hxs hys
      refine ⟨_ :: xs, _ :: ys, ?_, ?_, .cons hword hsame, List.forall_mem_cons.2 ⟨hinLine, hin⟩⟩
      · rw [hitems, hxs, List.cons_append]
      · rw [hitems', hys, List.cons_append]

end Cursor

/-! ### Lines of a text -/

/-- Every line but the last with its line feed. -/
def terminated : List (List Char) → List (List Char)
  | [] => []
  | [last] => [last]
  | line :: lines => (line ++ ['\n']) :: terminated lines

/-- The lines of a text, split at line feeds, each with the line feed that ends it. -/
def rawLines (cs : List Char) : List (List Char) :=
  terminated (cs.splitOn '\n')

theorem splitOn_of_notMem {line : List Char} (hfeed : '\n' ∉ line) :
    line.splitOn '\n' = [line] := by
  refine List.splitOnP_eq_singleton fun c hc => ?_
  exact beq_eq_false_iff_ne.2 fun h => hfeed (h ▸ hc)

theorem splitOn_append {line : List Char} (hfeed : '\n' ∉ line) (cs : List Char) :
    (line ++ '\n' :: cs).splitOn '\n' = line :: cs.splitOn '\n' := by
  refine List.splitOnP_append_cons_of_forall_mem (fun c hc => ?_) _ (by decide) cs
  exact beq_eq_false_iff_ne.2 fun h => hfeed (h ▸ hc)

theorem rawLines_of_notMem {line : List Char} (hfeed : '\n' ∉ line) : rawLines line = [line] := by
  rw [rawLines, splitOn_of_notMem hfeed, terminated]

theorem rawLines_append {line : List Char} (hfeed : '\n' ∉ line) (cs : List Char) :
    rawLines (line ++ '\n' :: cs) = (line ++ ['\n']) :: rawLines cs := by
  obtain ⟨first, rest, hsplit⟩ : ∃ first rest, cs.splitOn '\n' = first :: rest :=
    List.exists_cons_of_ne_nil (List.splitOnP_ne_nil (· == '\n') cs)
  rw [rawLines, rawLines, splitOn_append hfeed, hsplit, terminated]
  exact nofun

/-- A text is one line without a line feed, or such a line, a line feed and a text. -/
theorem line_induction {motive : List Char → Prop}
    (last : ∀ line, '\n' ∉ line → motive line)
    (step : ∀ line cs, '\n' ∉ line → motive cs → motive (line ++ '\n' :: cs)) (cs : List Char) :
    motive cs := by
  induction hlen : cs.length using Nat.strongRecOn generalizing cs with
  | _ len ih =>
      subst hlen
      by_cases hfeed : '\n' ∈ cs
      · obtain ⟨line, rest, rfl, hline⟩ := List.eq_append_cons_of_mem hfeed
        exact step line rest hline (ih _ (by simp; omega) rest rfl)
      · exact last cs hfeed

/-- Nothing but blanks and a comment stands on the line. -/
def isBlankLine (line : List Char) : Bool :=
  (line.dropWhile isBlank).head?.all fun c => c == ';' || c == '\n'

theorem isBlankLine_cons_of_isBlank {c : Char} (hc : isBlank c = true) (line : List Char) :
    isBlankLine (c :: line) = isBlankLine line := by
  rw [isBlankLine, List.dropWhile_cons_of_pos hc]
  rfl

theorem isBlankLine_cons {c : Char} (hc : isBlank c = false) (line : List Char) :
    isBlankLine (c :: line) = (c == ';' || c == '\n') := by
  rw [isBlankLine, List.dropWhile_cons_of_neg (by simp [hc])]
  rfl

theorem AtLineEnd.isBlankLine_append {tail : List Char} (ht : AtLineEnd tail) (line : List Char) :
    isBlankLine (line ++ tail) = isBlankLine line := by
  induction line with
  | nil => rcases ht.cases with rfl | ⟨cs, rfl⟩ <;> rfl
  | cons c line ih =>
      cases hc : isBlank c with
      | true =>
          rw [List.cons_append, isBlankLine_cons_of_isBlank hc, isBlankLine_cons_of_isBlank hc, ih]
      | false => rw [List.cons_append, isBlankLine_cons hc, isBlankLine_cons hc]

/-- A blank line, or what is left of a comment, is skipped as a whole. -/
theorem AtLineEnd.breakLength_of_blank {tail : List Char} (ht : AtLineEnd tail) {line : List Char}
    (hfeed : '\n' ∉ line) {comment : Bool} (h : comment = true ∨ isBlankLine line = true) :
    breakLength comment (line ++ tail) = line.length + breakLength false tail := by
  induction line generalizing comment with
  | nil => rcases ht.cases with rfl | ⟨cs, rfl⟩ <;> simp [breakLength]
  | cons c line ih =>
      rw [List.mem_cons, not_or] at hfeed
      rw [List.cons_append, breakLength, if_neg (Ne.symm hfeed.1), List.length_cons]
      split
      · rw [ih hfeed.2 (Or.inl rfl)]
        omega
      · rename_i hcomment
        simp only [Bool.or_eq_true, decide_eq_true_eq, not_or] at hcomment
        have hblank := h.resolve_left hcomment.1
        cases hc : isBlank c with
        | true =>
            rw [isBlankLine_cons_of_isBlank hc] at hblank
            rw [if_pos rfl, ih hfeed.2 (Or.inr hblank)]
            omega
        | false =>
            rw [isBlankLine_cons hc] at hblank
            simp [hcomment.2, Ne.symm hfeed.1] at hblank

theorem blankLength_cons_of_isBlank {c : Char} (hc : isBlank c = true) (cs : List Char) :
    blankLength (c :: cs) = blankLength cs + 1 := by
  have hrun : runLength isBlank (c :: cs) = runLength isBlank cs + 1 := by
    simp [runLength, hc]
  simp only [blankLength, hrun, List.drop_succ_cons]
  split
  · omega
  · rfl

theorem blankLength_cons {c : Char} (hc : isBlank c = false) (hcomment : c ≠ ';')
    (cs : List Char) : blankLength (c :: cs) = 0 := by
  have hrun : runLength isBlank (c :: cs) = 0 := by
    simp [runLength, hc]
  simp [blankLength, hrun, hcomment]

theorem takeWhile_append_lineFeed {line tail : List Char} (hfeed : '\n' ∉ line)
    (ht : AtLineEnd tail) : (line ++ tail).takeWhile (· != '\n') = line := by
  have hline : ∀ c ∈ line, (c != '\n') = true := by
    intro c hc
    exact bne_iff_ne.2 fun h => hfeed (h ▸ hc)
  rw [List.takeWhile_append_of_pos hline]
  rcases ht.cases with rfl | ⟨cs, rfl⟩ <;> simp

/-- A blank line is blanks and a comment up to its end. -/
theorem blankLength_of_blank {line : List Char} (hfeed : '\n' ∉ line)
    (hblank : isBlankLine line = true) : blankLength line = line.length := by
  induction line with
  | nil => rfl
  | cons c line ih =>
      rw [List.mem_cons, not_or] at hfeed
      cases hc : isBlank c with
      | true =>
          rw [isBlankLine_cons_of_isBlank hc] at hblank
          rw [blankLength_cons_of_isBlank hc, ih hfeed.2 hblank, List.length_cons]
      | false =>
          obtain rfl : c = ';' := by
            simpa [isBlankLine_cons hc, Ne.symm hfeed.1] using hblank
          have hcomment := takeWhile_append_lineFeed hfeed.2 atLineEnd_nil
          rw [List.append_nil] at hcomment
          have hlength : blankLength (';' :: line) = 0 + 1 + runLength (· != '\n') line := rfl
          rw [hlength, runLength, hcomment, List.length_cons]
          omega

/-- Behind the blanks of a line that is not blank stands a token. -/
theorem drop_blankLength_of_written {line : List Char} (hwritten : isBlankLine line = false) :
    line.drop (blankLength line) ≠ [] ∧ blankLength (line.drop (blankLength line)) = 0 := by
  induction line with
  | nil => cases hwritten
  | cons c line ih =>
      cases hc : isBlank c with
      | true =>
          rw [isBlankLine_cons_of_isBlank hc] at hwritten
          rw [blankLength_cons_of_isBlank hc, List.drop_succ_cons]
          exact ih hwritten
      | false =>
          rw [isBlankLine_cons hc, Bool.or_eq_false_iff, beq_eq_false_iff_ne] at hwritten
          have hnone := blankLength_cons hc hwritten.1 line
          rw [hnone, List.drop_zero]
          exact ⟨List.cons_ne_nil c line, hnone⟩

/-- In front of a token only blanks are skipped. -/
theorem breakLength_of_written {line : List Char} (hwritten : isBlankLine line = false)
    (tail : List Char) : breakLength false (line ++ tail) = blankLength line := by
  induction line with
  | nil => cases hwritten
  | cons c line ih =>
      cases hc : isBlank c with
      | true =>
          rw [isBlankLine_cons_of_isBlank hc] at hwritten
          have hbreak : breakLength false (c :: (line ++ tail))
              = breakLength false (line ++ tail) + 1 := by
            simp only [isBlank, Bool.or_eq_true, beq_iff_eq] at hc
            rcases hc with (rfl | rfl) | rfl <;> rfl
          rw [List.cons_append, hbreak, blankLength_cons_of_isBlank hc, ih hwritten]
      | false =>
          rw [isBlankLine_cons hc, Bool.or_eq_false_iff, beq_eq_false_iff_ne,
            beq_eq_false_iff_ne] at hwritten
          rw [List.cons_append, blankLength_cons hc hwritten.1]
          simp [breakLength, hc, hwritten]

/-! ### Behind blank lines -/

namespace Cursor

theorem advance_add (c : Cursor) (m n : Nat) : c.advance (m + n) = (c.advance m).advance n := by
  simp only [advance, List.take_add, Position.after_append, List.drop_drop]

/-- The cursor behind all blanks, comments and line ends. -/
def settled (c : Cursor) : Cursor :=
  c.advance (breakLength false c.rest)

theorem rest_settled_of_blank {line : List Char} (hfeed : '\n' ∉ line)
    (hblank : isBlankLine line = true) (p : Position) : (settled ⟨line, p⟩).rest = [] := by
  have hbreak : breakLength false (line ++ []) = line.length + breakLength false [] :=
    atLineEnd_nil.breakLength_of_blank hfeed (Or.inr hblank)
  rw [List.append_nil] at hbreak
  rw [settled, hbreak]
  exact List.drop_length

theorem settled_append_of_blank {line : List Char} (hfeed : '\n' ∉ line)
    (hblank : isBlankLine line = true) (cs : List Char) (n column : Nat) :
    settled ⟨line ++ '\n' :: cs, ⟨n, column⟩⟩ = settled ⟨cs, ⟨n + 1, 1⟩⟩ := by
  rw [settled, (atLineEnd_lineFeed cs).breakLength_of_blank hfeed (Or.inr hblank), advance_add,
    advance_append hfeed (Nat.le_refl _), List.drop_length, List.nil_append, breakLength,
    if_pos rfl]
  rfl

/-- A line that is not blank is read from its first token on. -/
theorem items_settled_of_written {line tail : List Char} (hfeed : '\n' ∉ line)
    (ht : AtLineEnd tail) (hwritten : isBlankLine line = false) (n column : Nat) :
    items (settled ⟨line ++ tail, ⟨n, column⟩⟩) = items ⟨line ++ tail, ⟨n, column⟩⟩ ∧
      (settled ⟨line ++ tail, ⟨n, column⟩⟩).rest ≠ [] := by
  obtain ⟨hne, hnone⟩ := drop_blankLength_of_written hwritten
  have hfeed' : '\n' ∉ line.drop (blankLength line) := fun h => hfeed (List.mem_of_mem_drop h)
  have hsettled : settled ⟨line ++ tail, ⟨n, column⟩⟩
      = ⟨line.drop (blankLength line) ++ tail, ⟨n, column + blankLength line⟩⟩ := by
    rw [settled, breakLength_of_written hwritten]
    exact advance_append hfeed (blankLength_le line) tail n column
  rw [hsettled]
  refine ⟨items_congr (next_congr ?_), List.append_ne_nil_of_left_ne_nil hne tail⟩
  rw [skipBlanks_append hfeed' ht, hnone, skipBlanks_append hfeed ht]
  rfl

/-- A line feed is read with the blank lines behind it, and if nothing else follows it ends the
source. -/
theorem items_lineFeed (cs : List Char) (n column : Nat) :
    items ⟨'\n' :: cs, ⟨n, column⟩⟩ = if (settled ⟨cs, ⟨n + 1, 1⟩⟩).rest = []
      then [.ok ⟨.endOfFile, "\n", ⟨n, column⟩, none⟩]
      else .ok ⟨.endOfLine, "\n", ⟨n, column⟩, none⟩ :: items (settled ⟨cs, ⟨n + 1, 1⟩⟩) := by
  have hnext : next ⟨'\n' :: cs, ⟨n, column⟩⟩
      = (Token.ofText (if (settled ⟨cs, ⟨n + 1, 1⟩⟩).rest = [] then .endOfFile else .endOfLine) "\n"
          ⟨n, column⟩, settled ⟨cs, ⟨n + 1, 1⟩⟩) := rfl
  rw [items, hnext]
  split <;> rfl

theorem items_nil (p : Position) : items ⟨[], p⟩ = [.ok ⟨.endOfFile, "", p, none⟩] := by
  rw [items]
  rfl

theorem items_of_rest_nil {c : Cursor} (h : c.rest = []) :
    c.items = [.ok ⟨.endOfFile, "", c.pos, none⟩] := by
  obtain ⟨rest, p⟩ := c
  obtain rfl : rest = [] := h
  exact items_nil p

end Cursor

/-! ### The lines of a source, one by one -/

/-- The lines that are not blank, numbered from `n` on. -/
def writtenLines (n : Nat) (cs : List Char) : List (List Char × Nat) :=
  ((rawLines cs).zipIdx n).filter fun l => !isBlankLine l.1

theorem writtenLines_last {line : List Char} (hfeed : '\n' ∉ line) (n : Nat) :
    writtenLines n line = if isBlankLine line then [] else [(line, n)] := by
  rw [writtenLines, rawLines_of_notMem hfeed, List.zipIdx_singleton]
  cases h : isBlankLine line <;> simp [h]

theorem writtenLines_append {line : List Char} (hfeed : '\n' ∉ line) (n : Nat) (cs : List Char) :
    writtenLines n (line ++ '\n' :: cs) = if isBlankLine line then writtenLines (n + 1) cs
      else (line ++ ['\n'], n) :: writtenLines (n + 1) cs := by
  have hline := (atLineEnd_lineFeed []).isBlankLine_append line
  rw [writtenLines, rawLines_append hfeed, List.zipIdx_cons]
  cases h : isBlankLine line <;> simp [h, hline, writtenLines]

/-- The first line of a source, if it is blank and a later one is not. -/
def leadingBlank (cs : List Char) : List (List Char × Nat) :=
  if (writtenLines 1 cs).isEmpty then []
  else (((rawLines cs).zipIdx 1).take 1).filter fun l => isBlankLine l.1

/-- The items of a line that is read alone, with its number. -/
def lineItems (l : List Char × Nat) : List Item :=
  (tokenize (String.ofList l.1)).map (Item.onLine l.2)

/-- The token for the end of a line. -/
def lineEnd (l : List Char × Nat) : Item :=
  .ok ⟨.endOfLine, "\n", ⟨l.2, (l.1.takeWhile (· != '\n')).length + 1⟩, none⟩

/-- The items of lines, with one line end between two lines. -/
def joinLines : List (List Char × Nat) → List Item
  | [] => []
  | l :: ls => lineItems l ++ if ls.isEmpty then [] else lineEnd l :: joinLines ls

theorem lineEnd_append {line : List Char} (hfeed : '\n' ∉ line) (n : Nat) :
    lineEnd (line ++ ['\n'], n) = .ok ⟨.endOfLine, "\n", ⟨n, 1 + line.length⟩, none⟩ := by
  rw [lineEnd, takeWhile_append_lineFeed hfeed (atLineEnd_lineFeed []), Nat.add_comm]

namespace Cursor

/-- The items of a source go on from those of its first line, read alone. -/
theorem items_eq_lineItems {line tail : List Char} (hfeed : '\n' ∉ line) (ht : AtLineEnd tail)
    (n : Nat) :
    items ⟨line ++ tail, ⟨n, 1⟩⟩
      = lineItems (line ++ tail.take 1, n) ++ items ⟨tail, ⟨n, 1 + line.length⟩⟩ := by
  have hhead : tail.head? = (tail.take 1).head? := by
    cases tail <;> rfl
  obtain ⟨ht', e, he⟩ : AtLineEnd (tail.take 1) ∧
      ∃ e, items ⟨tail.take 1, ⟨1, 1 + line.length⟩⟩ = [e] := by
    rcases ht.cases with rfl | ⟨cs, rfl⟩
    · exact ⟨atLineEnd_nil, _, items_nil _⟩
    · exact ⟨atLineEnd_lineFeed [], _, items_lineFeed [] 1 _⟩
  obtain ⟨xs, ys, hxs, hys, hsame, -⟩ := items_append ht ht' n 1 hfeed 1
  have hmap := Item.eq_map_of_sameUnless (not_not_intro hhead) hsame
  have halone : tokenize (String.ofList (line ++ tail.take 1)) = ys := by
    rw [tokenize, ofSource, String.toList_ofList, Position.start, hys, he, List.dropLast_concat]
  rw [hxs, hmap, lineItems, halone]

theorem rest_settled_eq_nil_iff (n : Nat) (cs : List Char) :
    (settled ⟨cs, ⟨n, 1⟩⟩).rest = [] ↔ writtenLines n cs = [] := by
  induction cs using line_induction generalizing n with
  | last line hfeed =>
      rw [writtenLines_last hfeed]
      cases hblank : isBlankLine line with
      | true => exact iff_of_true (rest_settled_of_blank hfeed hblank _) rfl
      | false =>
          have hne := (items_settled_of_written hfeed atLineEnd_nil hblank n 1).2
          rw [List.append_nil] at hne
          exact iff_of_false hne (List.cons_ne_nil _ _)
  | step line cs hfeed ih =>
      rw [writtenLines_append hfeed]
      cases hblank : isBlankLine line with
      | true =>
          rw [settled_append_of_blank hfeed hblank]
          exact ih (n + 1)
      | false =>
          exact iff_of_false (items_settled_of_written hfeed (atLineEnd_lineFeed cs) hblank n 1).2
            (List.cons_ne_nil _ _)

/-- A line end comes behind a line if there is another one below that is not blank. -/
theorem items_lineFeed_eq {line : List Char} (hfeed : '\n' ∉ line) {cs : List Char} {n : Nat}
    (hitems : ∃ e, items (settled ⟨cs, ⟨n + 1, 1⟩⟩) = joinLines (writtenLines (n + 1) cs) ++ [e]) :
    ∃ e, items ⟨'\n' :: cs, ⟨n, 1 + line.length⟩⟩ = (if (writtenLines (n + 1) cs).isEmpty then []
      else lineEnd (line ++ ['\n'], n) :: joinLines (writtenLines (n + 1) cs)) ++ [e] := by
  simp only [items_lineFeed, rest_settled_eq_nil_iff, List.isEmpty_iff, lineEnd_append hfeed]
  split
  · exact ⟨_, rfl⟩
  · obtain ⟨e, he⟩ := hitems
    exact ⟨e, by rw [he, List.cons_append]⟩

/-- Behind blank lines come the lines that are not blank, with one line end between two, and then
the end of the source. -/
theorem items_settled (n : Nat) (cs : List Char) :
    ∃ e, items (settled ⟨cs, ⟨n, 1⟩⟩) = joinLines (writtenLines n cs) ++ [e] := by
  induction cs using line_induction generalizing n with
  | last line hfeed =>
      rw [writtenLines_last hfeed]
      cases hblank : isBlankLine line with
      | true =>
          rw [items_of_rest_nil (rest_settled_of_blank hfeed hblank ⟨n, 1⟩)]
          exact ⟨_, rfl⟩
      | false =>
          have hitems := (items_settled_of_written hfeed atLineEnd_nil hblank n 1).1
          have hline := items_eq_lineItems hfeed atLineEnd_nil n
          rw [List.take_nil, List.append_nil] at hline
          rw [List.append_nil] at hitems
          have hjoin : joinLines [(line, n)] = lineItems (line, n) := List.append_nil _
          rw [hitems, hline, items_nil, if_neg Bool.false_ne_true, hjoin]
          exact ⟨_, rfl⟩
  | step line cs hfeed ih =>
      rw [writtenLines_append hfeed]
      cases hblank : isBlankLine line with
      | true =>
          rw [settled_append_of_blank hfeed hblank]
          exact ih (n + 1)
      | false =>
          have ht := atLineEnd_lineFeed cs
          obtain ⟨e, he⟩ := items_lineFeed_eq hfeed (ih (n + 1))
          rw [(items_settled_of_written hfeed ht hblank n 1).1, items_eq_lineItems hfeed ht, he]
          exact ⟨e, (List.append_assoc _ _ _).symm⟩

theorem items_start (cs : List Char) :
    ∃ e, items ⟨cs, ⟨1, 1⟩⟩
      = (leadingBlank cs).map lineEnd ++ joinLines (writtenLines 1 cs) ++ [e] := by
  have hsettled := items_settled 1 cs
  cases cs using line_induction with
  | last _ hfeed =>
      rw [leadingBlank, rawLines_of_notMem hfeed, writtenLines_last hfeed]
      rw [writtenLines_last hfeed] at hsettled
      cases hblank : isBlankLine cs with
      | true =>
          have hnone := blankLength_of_blank hfeed hblank
          have hitems := items_append_of_blank hfeed atLineEnd_nil hnone 1 1
          rw [List.append_nil] at hitems
          exact ⟨_, hitems.trans (items_nil _)⟩
      | false =>
          have hitems := (items_settled_of_written hfeed atLineEnd_nil hblank 1 1).1
          rw [List.append_nil] at hitems
          rw [hblank] at hsettled
          simpa [hblank, hitems] using hsettled
  | step line cs hfeed _ =>
      have hline := (atLineEnd_lineFeed []).isBlankLine_append line
      rw [leadingBlank, rawLines_append hfeed, writtenLines_append hfeed]
      rw [writtenLines_append hfeed] at hsettled
      cases hblank : isBlankLine line with
      | true =>
          have hnone := blankLength_of_blank hfeed hblank
          obtain ⟨e, he⟩ := items_lineFeed_eq hfeed (items_settled 2 cs)
          rw [items_append_of_blank hfeed (atLineEnd_lineFeed cs) hnone, he]
          refine ⟨e, ?_⟩
          cases writtenLines 2 cs with
          | nil => rfl
          | cons l ls => simp [hline, hblank]
      | false =>
          rw [hblank] at hsettled
          rw [(items_settled_of_written hfeed (atLineEnd_lineFeed cs) hblank 1 1).1] at hsettled
          simpa [hline, hblank] using hsettled

end Cursor

/-- **A source is read line by line.**  Its items are those of the lines that are not blank, each
read alone and numbered, with one line end between two of them.  One line end stands in front if the
first line is blank and a later one is not, and none at the end. -/
theorem tokenize_line_by_line (source : String) :
    let lines := (rawLines source.toList).zipIdx 1
    let written := lines.filter fun l => !isBlankLine l.1
    let leading := if written.isEmpty then [] else (lines.take 1).filter fun l => isBlankLine l.1
    tokenize source = leading.map lineEnd ++ joinLines written := by
  intro lines written leading
  obtain ⟨e, he⟩ := Cursor.items_start source.toList
  rw [tokenize, Cursor.ofSource, Position.start, he, List.dropLast_concat]
  rfl

end GameBoyAssembler
