import GameBoyAssembler.Operand
import GameBoyAssembler.Proofs.Lexing
import GameBoyAssembler.Statement

/-!
# Spellings of a word

Letters are read in either case where a word is known by its name: as a mnemonic, a register, a
condition, a digit.  Brackets are round or square.  Names are looked up in many places, so for each of
them there is one lemma here that says that the spelling has no part in it.

Main definitions:

* `IgnoresCase` — what is the same for small letters and their capitals;
* `Recased` — the same letters, in another case where that is allowed;
* `Spelling` — the same word, up to letter case and the kind of its brackets.

Main results:

* `class_recased` — what does not tell the case of a letter apart;
* `Spelling.mnemonic_eq`, `Spelling.shape_eq`, `Spelling.stackPairName_eq`,
  `Spelling.conditionName_eq` — **names that are looked up**;
* `Spelling.literal_eq` — **the values of numerals**.
-/

set_option relaxedAutoImplicit false
set_option autoImplicit false

namespace GameBoyAssembler

/-! ### Letter case -/

/-- The letters that have a capital. -/
def smallLetters : List Char :=
  ['a', 'b', 'c', 'd', 'e', 'f', 'g', 'h', 'i', 'j', 'k', 'l', 'm', 'n', 'o', 'p', 'q', 'r', 's',
    't', 'u', 'v', 'w', 'x', 'y', 'z']

theorem mem_smallLetters {n : Nat} (h : 97 ≤ n ∧ n ≤ 122) : Char.ofNat n ∈ smallLetters := by
  have hall : ∀ n < 123, 97 ≤ n → Char.ofNat n ∈ smallLetters := by decide
  exact hall n (by omega) h.1

theorem toUpper_cases (c : Char) : c.toUpper = c ∨ c ∈ smallLetters := by
  by_cases h : 'a'.val ≤ c.val ∧ c.val ≤ 'z'.val
  · refine Or.inr ?_
    rw [UInt32.le_iff_toNat_le, UInt32.le_iff_toNat_le] at h
    rw [← Char.ofNat_toNat c]
    exact mem_smallLetters h
  · exact Or.inl (dif_neg h)

section Case

variable {α : Type} {p : Char → α}

/-- The function is the same for small letters and their capitals. -/
def IgnoresCase (p : Char → α) : Prop :=
  ∀ c ∈ smallLetters, p c.toUpper = p c

-- by the list of letters, and not by all characters
instance [DecidableEq α] (p : Char → α) : Decidable (IgnoresCase p) :=
  List.decidableBAll (fun c => p c.toUpper = p c) smallLetters

instance (p : Char → Prop) [DecidablePred p] : Decidable (IgnoresCase p) :=
  List.decidableBAll (fun c => p c.toUpper = p c) smallLetters

/-- What is the same for small letters and their capitals does not tell letter case apart. -/
theorem class_toUpper (hp : IgnoresCase p) (c : Char) : p c.toUpper = p c := by
  rcases toUpper_cases c with hc | hc
  · rw [hc]
  · exact hp c hc

theorem class_recased (hp : IgnoresCase p) {c d : Char} (h : c.toUpper = d.toUpper) :
    p c = p d := by
  rw [← class_toUpper hp c, h, class_toUpper hp d]

end Case

/-- A character that is no letter has one case only. -/
theorem eq_of_toUpper_eq {c d : Char} (hd : d ∉ smallLetters.map Char.toUpper)
    (h : c.toUpper = d) : c = d := by
  rcases toUpper_cases c with hc | hc
  · rw [← hc, h]
  · exact absurd (h ▸ List.mem_map_of_mem hc) hd

/-- The same letters, in the same case unless `free`. -/
def Recased (free : Bool) (cs ds : List Char) : Prop :=
  cs = ds ∨ free = true ∧ cs.map Char.toUpper = ds.map Char.toUpper

instance (free : Bool) (cs ds : List Char) : Decidable (Recased free cs ds) :=
  inferInstanceAs (Decidable (_ ∨ _))

namespace Recased

variable {free : Bool} {cs ds : List Char}

theorem map_eq (h : Recased free cs ds) : cs.map Char.toUpper = ds.map Char.toUpper := by
  rcases h with rfl | h
  · rfl
  · exact h.2

theorem symm (h : Recased free cs ds) : Recased free ds cs :=
  h.imp Eq.symm fun h => ⟨h.1, h.2.symm⟩

theorem eq_of_not_free (h : Recased false cs ds) : cs = ds :=
  h.resolve_right fun h => Bool.false_ne_true h.1

end Recased

/-! ### Brackets -/

def isOpening (c : Char) : Bool :=
  c == '(' || c == '['

theorem isOpening_cases {o : Char} (ho : isOpening o = true) : o = '(' ∨ o = '[' := by
  simpa [isOpening] using ho

/-- The same word: letters may change case if `free`, and brackets around it may be swapped for
the other pair if `swap`. -/
inductive Spelling (free swap : Bool) : List Char → List Char → Prop
  | letters {cs ds : List Char} (h : Recased free cs ds) : Spelling free swap cs ds
  | brackets {o o' : Char} {cs ds : List Char} (hswap : swap = true) (ho : isOpening o = true)
      (ho' : isOpening o' = true) (h : Recased free cs ds) :
      Spelling free swap (o :: (cs ++ [closingBracket o])) (o' :: (ds ++ [closingBracket o']))

/-- The text is a word in matching brackets. -/
def InBrackets (inner text : List Char) : Prop :=
  ∃ o, isOpening o = true ∧ text = o :: (inner ++ [closingBracket o])

/-- The text starts with a bracket and ends in the one that closes it. -/
def isEnclosed (cs : List Char) : Bool :=
  cs.head?.any fun o => isOpening o && cs.tail.getLast? == some (closingBracket o)

theorem isEnclosed_iff {cs : List Char} :
    isEnclosed cs = true ↔ ∃ inner, InBrackets inner cs := by
  rw [isEnclosed, Option.any_eq_true]
  constructor
  · rintro ⟨o, hcs, h⟩
    obtain ⟨cs, rfl⟩ := List.head?_eq_some_iff.1 hcs
    rw [Bool.and_eq_true, beq_iff_eq] at h
    obtain ⟨inner, rfl⟩ := List.getLast?_eq_some_iff.1 h.2
    exact ⟨inner, o, h.1, rfl⟩
  · rintro ⟨inner, o, ho, rfl⟩
    refine ⟨o, rfl, ?_⟩
    rw [List.tail_cons, List.getLast?_concat, ho]
    exact beq_self_eq_true _

theorem spelling_iff {free swap : Bool} {cs ds : List Char} :
    Spelling free swap cs ds ↔ Recased free cs ds ∨ swap = true ∧ isEnclosed cs = true ∧
      isEnclosed ds = true ∧ Recased free cs.tail.dropLast ds.tail.dropLast := by
  constructor
  · rintro (h | ⟨hswap, ho, ho', h⟩)
    · exact Or.inl h
    · refine Or.inr ⟨hswap, isEnclosed_iff.2 ⟨_, _, ho, rfl⟩, isEnclosed_iff.2 ⟨_, _, ho', rfl⟩, ?_⟩
      rwa [List.tail_cons, List.tail_cons, List.dropLast_concat, List.dropLast_concat]
  · rintro (h | ⟨hswap, hcs, hds, h⟩)
    · exact .letters h
    · obtain ⟨as, o, ho, rfl⟩ := isEnclosed_iff.1 hcs
      obtain ⟨bs, o', ho', rfl⟩ := isEnclosed_iff.1 hds
      rw [List.tail_cons, List.tail_cons, List.dropLast_concat, List.dropLast_concat] at h
      exact .brackets hswap ho ho' h

instance (free swap : Bool) (cs ds : List Char) : Decidable (Spelling free swap cs ds) :=
  decidable_of_iff _ spelling_iff.symm

theorem toUpper_bracket {o : Char} (ho : isOpening o = true) :
    o.toUpper = o ∧ (closingBracket o).toUpper = closingBracket o := by
  rcases isOpening_cases ho with rfl | rfl <;> decide

theorem notMem_capitals_bracket {o : Char} (ho : isOpening o = true) :
    o ∉ smallLetters.map Char.toUpper ∧ closingBracket o ∉ smallLetters.map Char.toUpper := by
  rcases isOpening_cases ho with rfl | rfl <;> decide

theorem Recased.inBrackets {free : Bool} {cs ds inner : List Char} (h : Recased free cs ds)
    (hcs : InBrackets inner cs) : ∃ inner', InBrackets inner' ds ∧ Recased free inner inner' := by
  rcases h with rfl | ⟨hfree, hmap⟩
  · exact ⟨inner, hcs, Or.inl rfl⟩
  obtain ⟨o, ho, rfl⟩ := hcs
  rw [List.map_cons, List.map_append, List.map_singleton, (toUpper_bracket ho).1,
    (toUpper_bracket ho).2, eq_comm, List.map_eq_cons_iff] at hmap
  obtain ⟨a, rest, rfl, ha, hrest⟩ := hmap
  obtain ⟨inner', last, rfl, hinner, hlast⟩ := List.map_eq_append_iff.1 hrest
  obtain ⟨z, last, rfl, hz, hnil⟩ := List.map_eq_cons_iff.1 hlast
  obtain rfl := List.map_eq_nil_iff.1 hnil
  obtain rfl := eq_of_toUpper_eq (notMem_capitals_bracket ho).1 ha
  obtain rfl := eq_of_toUpper_eq (notMem_capitals_bracket ho).2 hz
  exact ⟨inner', ⟨a, ho, rfl⟩, Or.inr ⟨hfree, hinner.symm⟩⟩

theorem InBrackets.inner_eq {inner inner' text : List Char} (h : InBrackets inner text)
    (h' : InBrackets inner' text) : inner = inner' := by
  obtain ⟨o, -, rfl⟩ := h
  obtain ⟨o', -, htext⟩ := h'
  obtain ⟨rfl, hrest⟩ := List.cons.inj htext
  exact List.append_cancel_right hrest

namespace Spelling

variable {free swap : Bool} {cs ds : List Char}

theorem symm (h : Spelling free swap cs ds) : Spelling free swap ds cs := by
  cases h with
  | letters h => exact .letters h.symm
  | brackets hswap ho ho' h => exact .brackets hswap ho' ho h.symm

/-- **A word in brackets stays a word in brackets.** -/
theorem inBrackets (h : Spelling free swap cs ds) {inner : List Char} (hcs : InBrackets inner cs) :
    ∃ inner', InBrackets inner' ds ∧ Recased free inner inner' := by
  cases h with
  | letters h => exact h.inBrackets hcs
  | brackets hswap ho ho' h =>
      obtain rfl := hcs.inner_eq ⟨_, ho, rfl⟩
      exact ⟨_, ⟨_, ho', rfl⟩, h⟩

/-- Without brackets only the case of letters may change. -/
theorem recased_of_not_inBrackets (h : Spelling free swap cs ds)
    (hcs : ∀ inner, ¬ InBrackets inner cs) : Recased free cs ds := by
  cases h with
  | letters h => exact h
  | brackets _ ho _ _ => exact absurd ⟨_, ho, rfl⟩ (hcs _)

theorem weaken (h : Spelling free swap cs ds) : Spelling true true cs ds := by
  have hrecased {as bs : List Char} (h : Recased free as bs) : Recased true as bs :=
    h.imp_right fun h => ⟨rfl, h.2⟩
  cases h with
  | letters h => exact .letters (hrecased h)
  | brackets _ ho ho' h => exact .brackets rfl ho ho' (hrecased h)

theorem length_eq (h : Spelling free swap cs ds) : cs.length = ds.length := by
  have hmap {as bs : List Char} (h : Recased free as bs) : as.length = bs.length := by
    have hlength := congrArg List.length h.map_eq
    rwa [List.length_map, List.length_map] at hlength
  cases h with
  | letters h => exact hmap h
  | brackets _ _ _ h => simp [hmap h]

end Spelling

/-! ### Names that are looked up -/

theorem dropLast?_eq_some_iff {α : Type} [DecidableEq α] {a : α} {as bs : List α} :
    dropLast? a as = some bs ↔ as = bs ++ [a] := by
  unfold dropLast?
  constructor
  · intro h
    split at h
    · rename_i hlast
      obtain ⟨front, rfl⟩ := List.getLast?_eq_some_iff.1 hlast
      rw [List.dropLast_concat] at h
      rw [Option.some.inj h]
    · cases h
  · rintro rfl
    rw [List.getLast?_concat, if_pos rfl, List.dropLast_concat]

theorem insideBrackets?_eq_some_iff {name inner : String} :
    insideBrackets? name = some inner ↔ InBrackets inner.toList name.toList := by
  have hclosed (z : Char) (cs : List Char) :
      (dropLast? z cs).map String.ofList = some inner ↔ cs = inner.toList ++ [z] := by
    rw [Option.map_eq_some_iff]
    refine ⟨?_, fun h => ⟨inner.toList, dropLast?_eq_some_iff.2 h, String.ofList_toList⟩⟩
    rintro ⟨bs, hbs, rfl⟩
    rw [String.toList_ofList]
    exact dropLast?_eq_some_iff.1 hbs
  unfold insideBrackets?
  constructor
  · intro h
    split at h
    · rename_i cs hname
      rw [(hclosed ')' cs).1 h] at hname
      exact ⟨'(', rfl, hname⟩
    · rename_i cs hname
      rw [(hclosed ']' cs).1 h] at hname
      exact ⟨'[', rfl, hname⟩
    · cases h
  · rintro ⟨o, ho, hname⟩
    rw [hname]
    rcases isOpening_cases ho with rfl | rfl
    · exact (hclosed ')' _).2 rfl
    · exact (hclosed ']' _).2 rfl

theorem find?_congr {α : Type} {p q : α → Bool} {as : List α} (h : ∀ a ∈ as, p a = q a) :
    as.find? p = as.find? q := by
  induction as with
  | nil => rfl
  | cons a as ih =>
      obtain ⟨ha, has⟩ := List.forall_mem_cons.1 h
      rw [List.find?_cons, List.find?_cons, ha, ih has]

theorem sameLetters_congr {s t s' t' : String} (hs : capitals s = capitals s')
    (ht : capitals t = capitals t') : sameLetters s t = sameLetters s' t' := by
  rw [sameLetters, sameLetters, hs, ht]

theorem sameLetters_comm (s t : String) : sameLetters s t = sameLetters t s :=
  BEq.comm

/-- A name that can be looked up without brackets. -/
def isBare (name : String) : Bool :=
  name.toList.head?.all fun c => !isOpening c

/-- A text in brackets is no name without brackets. -/
theorem sameLetters_inBrackets {word text : String} (hword : isBare word = true) {inner : List Char}
    (htext : InBrackets inner text.toList) : sameLetters word text = false := by
  obtain ⟨o, ho, htext⟩ := htext
  rw [Bool.eq_false_iff, Ne, sameLetters_iff, capitals, capitals, htext, List.map_cons,
    (toUpper_bracket ho).1]
  intro hmap
  obtain ⟨c, rest, hcs, hc, -⟩ := List.map_eq_cons_iff.1 hmap
  obtain rfl := eq_of_toUpper_eq (notMem_capitals_bracket ho).1 hc
  rw [isBare, hcs] at hword
  simp [ho] at hword

namespace Spelling

variable {free swap : Bool} {name name' : String}
  (h : Spelling free swap name.toList name'.toList)

include h

/-- A name without brackets is met by both spellings or by none. -/
theorem sameLetters_eq {word : String} (hword : isBare word = true) :
    sameLetters word name = sameLetters word name' := by
  by_cases hname : ∃ inner, InBrackets inner name.toList
  · obtain ⟨inner, hinner⟩ := hname
    obtain ⟨inner', hinner', -⟩ := h.inBrackets hinner
    rw [sameLetters_inBrackets hword hinner, sameLetters_inBrackets hword hinner']
  · exact sameLetters_congr rfl (h.recased_of_not_inBrackets (not_exists.1 hname)).map_eq

/-- A name is looked up in a list of names without brackets. -/
theorem find?_eq {α : Type} {text : α → String} {as : List α}
    (has : ∀ a ∈ as, isBare (text a) = true) :
    as.find? (fun a => sameLetters (text a) name) = as.find? fun a => sameLetters (text a) name' :=
  find?_congr fun a ha => h.sameLetters_eq (has a ha)

theorem mnemonic_eq : Mnemonic.ofName? name = Mnemonic.ofName? name' := by
  rw [Mnemonic.ofName?, Mnemonic.ofName?, h.find?_eq (by decide)]

theorem reg16_eq : Reg16.ofName? name = Reg16.ofName? name' :=
  h.find?_eq (by decide)

theorem stackPairName_eq : StackPair.ofName? name = StackPair.ofName? name' :=
  h.find?_eq (by decide)

theorem conditionName_eq : Condition.ofName? name = Condition.ofName? name' :=
  h.find?_eq (by decide)

/-- Neither spelling is in brackets, or both are, with the same letters inside. -/
theorem inside_cases :
    (insideBrackets? name = none ∧ insideBrackets? name' = none ∧ capitals name = capitals name') ∨
      ∃ inner inner', insideBrackets? name = some inner ∧ insideBrackets? name' = some inner' ∧
        capitals inner = capitals inner' := by
  have hother {s t : String} (hst : Spelling free swap s.toList t.toList)
      (hs : insideBrackets? s = none) : insideBrackets? t = none := by
    rw [Option.eq_none_iff_forall_ne_some] at hs ⊢
    intro inner hinner
    obtain ⟨inner', hinner', -⟩ := hst.symm.inBrackets (insideBrackets?_eq_some_iff.1 hinner)
    refine hs (String.ofList inner') (insideBrackets?_eq_some_iff.2 ?_)
    rwa [String.toList_ofList]
  cases hname : insideBrackets? name with
  | none =>
      refine Or.inl ⟨rfl, hother h hname, ?_⟩
      refine (h.recased_of_not_inBrackets fun inner hinner => ?_).map_eq
      rw [← String.toList_ofList (l := inner), ← insideBrackets?_eq_some_iff, hname] at hinner
      cases hinner
  | some inner =>
      obtain ⟨inner', hinner', hsame⟩ := h.inBrackets (insideBrackets?_eq_some_iff.1 hname)
      refine Or.inr ⟨inner, String.ofList inner', rfl, ?_, ?_⟩
      · rw [insideBrackets?_eq_some_iff, String.toList_ofList]
        exact hinner'
      · rw [capitals, capitals, String.toList_ofList]
        exact hsame.map_eq

theorem reg8_eq : Reg8.ofName? name = Reg8.ofName? name' := by
  unfold Reg8.ofName?
  rcases h.inside_cases with ⟨hname, hname', hsame⟩ | ⟨inner, inner', hname, hname', hsame⟩
  · rw [hname, hname']
    exact find?_congr fun r _ => sameLetters_congr rfl hsame
  · rw [hname, hname']
    dsimp only
    rw [sameLetters_congr hsame rfl]

theorem pointer_eq : Pointer.ofName? name = Pointer.ofName? name' := by
  unfold Pointer.ofName?
  rcases h.inside_cases with ⟨hname, hname', -⟩ | ⟨inner, inner', hname, hname', hsame⟩
  · rw [hname, hname']
  · rw [hname, hname', Option.bind_some, Option.bind_some]
    refine find?_congr fun p _ => ?_
    exact congrArg p.spellings.any (funext fun spelling => sameLetters_congr hsame rfl)

theorem isHighC_eq : isHighC name = isHighC name' := by
  unfold isHighC
  rcases h.inside_cases with ⟨hname, hname', -⟩ | ⟨inner, inner', hname, hname', hsame⟩
  · rw [hname, hname']
  · rw [hname, hname', Option.any_some, Option.any_some, sameLetters_congr rfl hsame]

theorem isRegisterName_eq : isRegisterName name = isRegisterName name' := by
  have hpair : ((insideBrackets? name).any fun inner => (Reg16.ofName? inner).isSome)
      = (insideBrackets? name').any fun inner => (Reg16.ofName? inner).isSome := by
    rcases h.inside_cases with ⟨hname, hname', -⟩ | ⟨inner, inner', hname, hname', hsame⟩
    · rw [hname, hname']
    · have hinner : Reg16.ofName? inner = Reg16.ofName? inner' :=
        find?_congr fun rr _ => sameLetters_congr rfl hsame
      rw [hname, hname', Option.any_some, Option.any_some, hinner]
  rw [isRegisterName, isRegisterName, h.reg8_eq, h.reg16_eq, h.stackPairName_eq, h.pointer_eq,
    h.isHighC_eq, hpair]

/-- **The shape of a name does not depend on its spelling.** -/
theorem shape_eq (bracketed : Bool) :
    Shape.ofName name bracketed = Shape.ofName name' bracketed := by
  have haf : sameLetters name "AF" = sameLetters name' "AF" := by
    rw [sameLetters_comm, h.sameLetters_eq (by decide), sameLetters_comm]
  rw [Shape.ofName, Shape.ofName, h.reg8_eq, h.reg16_eq, h.pointer_eq, haf, h.isHighC_eq,
    h.isRegisterName_eq]

end Spelling

/-! ### Numerals -/

section Numerals

theorem digitValue?_recased {radix : Nat} (hradix : radix = 10 ∨ radix = 16) {c d : Char}
    (h : c.toUpper = d.toUpper) : digitValue? radix c = digitValue? radix d := by
  refine class_recased ?_ h
  rcases hradix with rfl | rfl <;> decide

theorem ofDigitsFrom?_recased {radix : Nat} (hradix : radix = 10 ∨ radix = 16) (n : Nat)
    {cs ds : List Char} (h : cs.map Char.toUpper = ds.map Char.toUpper) :
    ofDigitsFrom? radix n cs = ofDigitsFrom? radix n ds := by
  induction cs generalizing ds n with
  | nil => rw [List.map_eq_nil_iff.1 h.symm]
  | cons c cs ih =>
      obtain ⟨d, ds, rfl, hcd, hrest⟩ := List.map_eq_cons_iff.1 h.symm
      rw [ofDigitsFrom?, ofDigitsFrom?, digitValue?_recased hradix hcd]
      split
      · exact ih _ hrest.symm
      · rfl

theorem ofDigits?_recased {radix : Nat} (hradix : radix = 10 ∨ radix = 16) {cs ds : List Char}
    (h : cs.map Char.toUpper = ds.map Char.toUpper) : ofDigits? radix cs = ofDigits? radix ds := by
  cases cs with
  | nil => rw [List.map_eq_nil_iff.1 h.symm]
  | cons c cs =>
      obtain ⟨d, ds, rfl, -⟩ := List.map_eq_cons_iff.1 h.symm
      exact ofDigitsFrom?_recased hradix 0 h

theorem magnitude?_cons (a b : Char) (cs : List Char) :
    magnitude? (a :: b :: cs) = if a = '0' ∧ (b = 'x' ∨ b = 'X') then ofDigits? 16 cs
      else ofDigits? 10 (a :: b :: cs) := by
  unfold magnitude?
  split <;> simp_all

theorem magnitude?_singleton (a : Char) : magnitude? [a] = ofDigits? 10 [a] := by
  unfold magnitude?
  split <;> simp_all

theorem magnitude?_recased {cs ds : List Char} (h : cs.map Char.toUpper = ds.map Char.toUpper) :
    magnitude? cs = magnitude? ds := by
  cases cs with
  | nil => rw [List.map_eq_nil_iff.1 h.symm]
  | cons a cs =>
      obtain ⟨a', ds, rfl, ha, hds⟩ := List.map_eq_cons_iff.1 h.symm
      cases cs with
      | nil =>
          obtain rfl := List.map_eq_nil_iff.1 hds
          rw [magnitude?_singleton, magnitude?_singleton]
          exact ofDigits?_recased (Or.inl rfl) h
      | cons b cs =>
          obtain ⟨b', ds, rfl, hb, hds⟩ := List.map_eq_cons_iff.1 hds
          have hzero : (a = '0') = (a' = '0') := class_recased (p := (· = '0')) (by decide) ha.symm
          have hmark : (b = 'x' ∨ b = 'X') = (b' = 'x' ∨ b' = 'X') :=
            class_recased (p := fun b => b = 'x' ∨ b = 'X') (by decide) hb.symm
          rw [magnitude?_cons, magnitude?_cons, ofDigits?_recased (Or.inr rfl) hds.symm,
            ofDigits?_recased (Or.inl rfl) h]
          simp only [hzero, hmark]

theorem numeral?_cons (a : Char) (cs : List Char) :
    numeral? (a :: cs) = (if a = '-' then (magnitude? cs).map fun n => -(n : Int)
      else if a = '+' then (magnitude? cs).map fun n => (n : Int)
      else (magnitude? (a :: cs)).map fun n => (n : Int)).filter fun v => FitsWord v := by
  unfold numeral?
  split <;> simp_all

theorem numeral?_recased {cs ds : List Char} (h : cs.map Char.toUpper = ds.map Char.toUpper) :
    numeral? cs = numeral? ds := by
  cases cs with
  | nil => rw [List.map_eq_nil_iff.1 h.symm]
  | cons a cs =>
      obtain ⟨b, ds, rfl, hab, hrest⟩ := List.map_eq_cons_iff.1 h.symm
      have hminus : (a = '-') = (b = '-') := class_recased (p := (· = '-')) (by decide) hab.symm
      have hplus : (a = '+') = (b = '+') := class_recased (p := (· = '+')) (by decide) hab.symm
      rw [numeral?_cons, numeral?_cons, magnitude?_recased hrest.symm, magnitude?_recased h]
      simp only [hminus, hplus]

theorem dropBytes?_recased (n : Nat) {cs ds : List Char}
    (h : cs.map Char.toUpper = ds.map Char.toUpper) :
    (dropBytes? n cs).map (List.map Char.toUpper) = (dropBytes? n ds).map (List.map Char.toUpper) := by
  induction cs generalizing ds n with
  | nil => rw [List.map_eq_nil_iff.1 h.symm]
  | cons c cs ih =>
      obtain ⟨d, ds, rfl, hcd, hrest⟩ := List.map_eq_cons_iff.1 h.symm
      have hsize : c.utf8Size = d.utf8Size := class_recased (by decide) hcd.symm
      cases n with
      | zero => rw [dropBytes?, dropBytes?, Option.map_some, Option.map_some, h]
      | succ n =>
          rw [dropBytes?, dropBytes?, hsize]
          split
          · exact ih _ hrest.symm
          · rfl

theorem withoutEnds?_inBrackets {inner text : List Char} (h : InBrackets inner text) :
    withoutEnds? text = some inner := by
  obtain ⟨o, ho, rfl⟩ := h
  rcases isOpening_cases ho with rfl | rfl <;> exact withoutEnds?_ends rfl rfl inner

/-- **The numeral of a token does not depend on its spelling.** -/
theorem Spelling.literal_eq {free swap : Bool} {cs ds : List Char} (h : Spelling free swap cs ds)
    {kind : TokenKind} (hkind : (kind = .identifier ∨ kind = .address) ∧
      (∃ inner, InBrackets inner cs) ∨ kind ≠ .address ∧ ∀ inner, ¬ InBrackets inner cs) :
    (literalPart? kind cs).bind numeral? = (literalPart? kind ds).bind numeral? := by
  rcases hkind with ⟨rfl | rfl, inner, hinner⟩ | ⟨hkind, hbare⟩
  · rfl
  · obtain ⟨inner', hinner', hsame⟩ := h.inBrackets hinner
    rw [literalPart?, literalPart?, withoutEnds?_inBrackets hinner,
      withoutEnds?_inBrackets hinner', Option.bind_some, Option.bind_some,
      numeral?_recased hsame.map_eq]
  · have hmap := (h.recased_of_not_inBrackets hbare).map_eq
    cases kind with
    | number => exact numeral?_recased hmap
    | address => exact absurd rfl hkind
    | spShifted =>
        have hbehind := dropBytes?_recased 2 hmap
        rw [literalPart?, literalPart?]
        cases hcs : dropBytes? 2 cs with
        | none =>
            rw [hcs, eq_comm, Option.map_none, Option.map_eq_none_iff] at hbehind
            rw [hbehind]
        | some digits =>
            rw [hcs, Option.map_some, eq_comm, Option.map_eq_some_iff] at hbehind
            obtain ⟨digits', hds, hdigits⟩ := hbehind
            rw [hds, Option.bind_some, Option.bind_some, numeral?_recased hdigits]
    | _ => rfl

end Numerals

end GameBoyAssembler
