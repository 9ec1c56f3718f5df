import GameBoyAssembler.Proofs.Numerals
import GameBoyAssembler.Token.Literal
import Mathlib.Data.List.Forall2
import Mathlib.Data.Nat.Digits.Defs
import Mathlib.Tactic.IntervalCases

/-!
# Literals are read exactly

A number is read digit by digit, from the left to the right.  What it stands for is said here without
the reader: every digit has a value, and the digits of a base stand for the sum of their values times
powers of the base.  In a token the number is all of the text, or what the brackets of an address or
the SP in front leave of it.  These are counted in bytes, and the bytes that are left may be no text
at all.

Main definitions:

* `SpellsDigit`, `SpellsDigits`, `SpellsMagnitude`, `SpellsNumber` — what a digit, a run of digits and
  a number with its sign and its mark for base sixteen stand for;
* `literalBytes`, `IsLiteral` — the bytes of a token that hold its number, and the number that they hold.

Main results:

* `numeral?_eq_some_iff` — the reader accepts the numbers of 32 bits, and gives their value;
* `exists_dropBytes?`, `takeBytes?_of_take_utf8` — text can be cut in front of an ASCII character and
  behind one;
* `literalPart?_of_literalBytes` — bytes that hold a number can be cut out of a text;
* `Token.literals_read_exactly` — **a token has the number that is written in it, or there is none**.
-/

set_option relaxedAutoImplicit false
set_option autoImplicit false

namespace GameBoyAssembler

/-! ### What digits and numbers stand for -/

/-- The character is the digit of value `d` in a base of at most sixteen. -/
def SpellsDigit (radix : Nat) (c : Char) (d : Nat) : Prop :=
  d < radix ∧
    ("0123456789abcdef".toList[d]? = some c ∨ "0123456789ABCDEF".toList[d]? = some c)

/-- The characters are the digits of `n`, the highest first, perhaps with zeros in front. -/
def SpellsDigits (radix : Nat) (cs : List Char) (n : Nat) : Prop :=
  cs ≠ [] ∧ ∃ ds, List.Forall₂ (SpellsDigit radix) cs ds ∧ Nat.ofDigits radix ds.reverse = n

/-- The characters are a number without a sign: decimal, or hexadecimal behind `0x` or `0X`. -/
inductive SpellsMagnitude : List Char → Nat → Prop
  | decimal {cs : List Char} {n : Nat} (h : SpellsDigits 10 cs n) : SpellsMagnitude cs n
  | hexadecimal {x : Char} {cs : List Char} {n : Nat} (hx : x = 'x' ∨ x = 'X')
      (h : SpellsDigits 16 cs n) : SpellsMagnitude ('0' :: x :: cs) n

/-- The characters are a number with at most one sign. -/
inductive SpellsNumber : List Char → Int → Prop
  | plain {cs : List Char} {n : Nat} (h : SpellsMagnitude cs n) : SpellsNumber cs n
  | plus {cs : List Char} {n : Nat} (h : SpellsMagnitude cs n) : SpellsNumber ('+' :: cs) n
  | minus {cs : List Char} {n : Nat} (h : SpellsMagnitude cs n) : SpellsNumber ('-' :: cs) (-n)

/-! ### Digits -/

theorem digitValue?_sixteen : ∀ d < 16,
    ("0123456789abcdef".toList[d]?.bind (digitValue? 16)) = some d ∧
      ("0123456789ABCDEF".toList[d]?.bind (digitValue? 16)) = some d := by
  decide

theorem digitValue?_eq_filter {radix : Nat} (hradix : radix ≤ 16) (c : Char) :
    digitValue? radix c = (digitValue? 16 c).filter (· < radix) := by
  unfold digitValue?
  dsimp only
  rw [Option.filter_filter]
  congr 1
  funext d
  rw [Bool.eq_iff_iff]
  simp only [Bool.and_eq_true, decide_eq_true_eq]
  omega

theorem spellsDigit_of_digitValue? {c : Char} {d : Nat} (h : digitValue? 16 c = some d) :
    SpellsDigit 16 c d := by
  obtain ⟨hd, hlt⟩ := Option.filter_eq_some_iff.1 h
  refine ⟨of_decide_eq_true hlt, ?_⟩
  -- the value says how far behind the first of its kind the character stands
  have hchar (first : Nat) (hc : c.toNat = first + d) : c = Char.ofNat (first + d) := by
    rw [← hc, Char.ofNat_toNat]
  split at hd
  · rename_i hrange
    obtain ⟨hlow, hhigh⟩ : 48 ≤ c.toNat ∧ c.toNat ≤ 57 := hrange
    have hvalue : c.toNat - 48 = d := Option.some.inj hd
    rw [hchar 48 (by omega)]
    have : d ≤ 9 := by omega
    interval_cases d <;> exact Or.inl rfl
  · split at hd
    · rename_i hrange
      obtain ⟨hlow, hhigh⟩ : 97 ≤ c.toNat ∧ c.toNat ≤ 102 := hrange
      have hvalue : c.toNat - 97 + 10 = d := Option.some.inj hd
      rw [show c = Char.ofNat (87 + d) from hchar 87 (by omega)]
      have : 10 ≤ d := by omega
      have : d ≤ 15 := by omega
      interval_cases d <;> exact Or.inl rfl
    · split at hd
      · rename_i hrange
        obtain ⟨hlow, hhigh⟩ : 65 ≤ c.toNat ∧ c.toNat ≤ 70 := hrange
        have hvalue : c.toNat - 65 + 10 = d := Option.some.inj hd
        rw [show c = Char.ofNat (55 + d) from hchar 55 (by omega)]
        have : 10 ≤ d := by omega
        have : d ≤ 15 := by omega
        interval_cases d <;> exact Or.inr rfl
      · cases hd

theorem digitValue?_eq_some_iff {radix : Nat} (hradix : radix ≤ 16) {c : Char} {d : Nat} :
    digitValue? radix c = some d ↔ SpellsDigit radix c d := by
  rw [digitValue?_eq_filter hradix, Option.filter_eq_some_iff, decide_eq_true_eq]
  constructor
  · rintro ⟨h, hlt⟩
    exact ⟨hlt, (spellsDigit_of_digitValue? h).2⟩
  · rintro ⟨hlt, hc⟩
    refine ⟨?_, hlt⟩
    obtain ⟨hlower, hupper⟩ := digitValue?_sixteen d (by omega)
    rcases hc with hc | hc
    · rwa [hc] at hlower
    · rwa [hc] at hupper

/-- The digits behind a number add up with it. -/
theorem ofDigitsFrom?_eq_some_iff {radix : Nat} (hradix : radix ≤ 16) {n m : Nat} {cs : List Char} :
    ofDigitsFrom? radix n cs = some m ↔
      ∃ ds, List.Forall₂ (SpellsDigit radix) cs ds ∧
        n * radix ^ cs.length + Nat.ofDigits radix ds.reverse = m := by
  induction cs generalizing n with
  | nil => simp [ofDigitsFrom?]
  | cons c cs ih =>
      have hsum (d : Nat) (ds : List Nat) (hlength : cs.length = ds.length) :
          n * radix ^ (c :: cs).length + Nat.ofDigits radix (d :: ds).reverse
            = (n * radix + d) * radix ^ cs.length + Nat.ofDigits radix ds.reverse := by
        rw [List.reverse_cons, Nat.ofDigits_append, Nat.ofDigits_singleton, List.length_reverse,
          List.length_cons, ← hlength]
        ring
      rw [ofDigitsFrom?]
      constructor
      · intro h
        cases hd : digitValue? radix c with
        | none => rw [hd] at h; cases h
        | some d =>
            rw [hd] at h
            obtain ⟨ds, hds, hm⟩ := ih.1 h
            refine ⟨d :: ds, .cons ((digitValue?_eq_some_iff hradix).1 hd) hds, ?_⟩
            rw [hsum d ds hds.length_eq, hm]
      · rintro ⟨_, hall, hm⟩
        obtain ⟨d, ds, hd, hds, rfl⟩ := List.forall₂_cons_left_iff.1 hall
        rw [(digitValue?_eq_some_iff hradix).2 hd]
        rw [hsum d ds hds.length_eq] at hm
        exact ih.2 ⟨ds, hds, hm⟩

theorem ofDigits?_eq_some_iff {radix : Nat} (hradix : radix ≤ 16) {cs : List Char} {n : Nat} :
    ofDigits? radix cs = some n ↔ SpellsDigits radix cs n := by
  cases cs with
  | nil => simp [ofDigits?, SpellsDigits]
  | cons c cs =>
      rw [ofDigits?, ofDigitsFrom?_eq_some_iff hradix, SpellsDigits]
      simp

/-! ### Numbers -/

theorem SpellsDigits.isSome_digitValue? {radix : Nat} (hradix : radix ≤ 16) {cs : List Char} {n : Nat}
    (h : SpellsDigits radix cs n) : ∀ c ∈ cs, (digitValue? radix c).isSome := by
  have hread := (ofDigits?_eq_some_iff hradix).2 h
  rw [ofDigits?_eq_ofDigitsFrom? radix h.1] at hread
  exact isSome_digitValue?_of_mem hread

/-- A character that is no digit stands in no run of digits. -/
theorem SpellsDigits.notMem {radix : Nat} (hradix : radix ≤ 16) {cs : List Char} {n : Nat}
    (h : SpellsDigits radix cs n) {c : Char} (hc : digitValue? radix c = none) : c ∉ cs := by
  intro hmem
  have hsome := h.isSome_digitValue? hradix c hmem
  rw [hc] at hsome
  cases hsome

theorem magnitude?_eq_some_iff {cs : List Char} {n : Nat} :
    magnitude? cs = some n ↔ SpellsMagnitude cs n := by
  have hmark {x : Char} {ds : List Char} (hx : x = 'x' ∨ x = 'X') :
      ofDigits? 16 ds = some n ↔ SpellsMagnitude ('0' :: x :: ds) n := by
    rw [ofDigits?_eq_some_iff (Nat.le_refl 16)]
    constructor
    · exact .hexadecimal hx
    · intro h
      cases h with
      | decimal h =>
          -- the mark is no decimal digit
          have hnone : digitValue? 10 x = none := by rcases hx with rfl | rfl <;> rfl
          exact absurd (by simp) (h.notMem (by decide) hnone)
      | hexadecimal _ h => exact h
  unfold magnitude?
  split
  · exact hmark (Or.inl rfl)
  · exact hmark (Or.inr rfl)
  · rename_i hlower hupper
    rw [ofDigits?_eq_some_iff (by decide)]
    constructor
    · exact .decimal
    · intro h
      cases h with
      | decimal h => exact h
      | @hexadecimal x ds _ hx _ =>
          rcases hx with rfl | rfl
          · exact absurd rfl (hlower ds)
          · exact absurd rfl (hupper ds)

/-- A number without a sign starts with none. -/
theorem SpellsMagnitude.head_ne {c : Char} {cs : List Char} {n : Nat} (h : SpellsMagnitude (c :: cs) n) :
    c ≠ '+' ∧ c ≠ '-' := by
  cases h with
  | decimal h =>
      constructor
      · rintro rfl
        exact h.notMem (by decide) rfl List.mem_cons_self
      · rintro rfl
        exact h.notMem (by decide) rfl List.mem_cons_self
  | hexadecimal _ _ => decide

theorem fitsWord_iff {v : Int} : FitsWord v ↔ -2 ^ 31 ≤ v ∧ v ≤ 2 ^ 31 - 1 := by
  unfold FitsWord
  norm_num

/-- **The reader of numbers accepts the numbers of 32 bits, and gives their value.** -/
theorem numeral?_eq_some_iff {cs : List Char} {v : Int} :
    numeral? cs = some v ↔ SpellsNumber cs v ∧ FitsWord v := by
  unfold numeral?
  dsimp only
  rw [Option.filter_eq_some_iff, decide_eq_true_eq]
  refine and_congr_left fun _ => ?_
  split
  · rename_i ds
    simp only [bind_pure_comp, Option.map_eq_map, Option.map_map, Option.map_eq_some_iff,
      Function.comp_apply]
    constructor
    · rintro ⟨n, hn, rfl⟩
      exact .minus (magnitude?_eq_some_iff.1 hn)
    · intro h
      cases h with
      | plain h => exact absurd rfl h.head_ne.2
      | minus h => exact ⟨_, magnitude?_eq_some_iff.2 h, rfl⟩
  · rename_i ds
    simp only [bind_pure_comp, Option.map_eq_map, Option.map_map, Option.map_eq_some_iff,
      Function.comp_apply]
    constructor
    · rintro ⟨n, hn, rfl⟩
      exact .plus (magnitude?_eq_some_iff.1 hn)
    · intro h
      cases h with
      | plain h => exact absurd rfl h.head_ne.1
      | plus h => exact ⟨_, magnitude?_eq_some_iff.2 h, rfl⟩
  · rename_i hminus hplus
    simp only [bind_pure_comp, Option.map_eq_map, Option.map_map, Option.map_eq_some_iff,
      Function.comp_apply]
    constructor
    · rintro ⟨n, hn, rfl⟩
      exact .plain (magnitude?_eq_some_iff.1 hn)
    · intro h
      cases h with
      | plain h => exact ⟨_, magnitude?_eq_some_iff.2 h, rfl⟩
      | @plus ds _ _ => exact absurd rfl (hplus ds)
      | @minus ds _ _ => exact absurd rfl (hminus ds)

/-! ### Numbers are ASCII -/

theorem utf8Size_of_spellsDigit {radix : Nat} {c : Char} {d : Nat} (h : SpellsDigit radix c d) :
    c.utf8Size = 1 := by
  have hascii (digits : String) (hdigits : digits.toList.all (fun c => c.utf8Size == 1) = true)
      (hc : digits.toList[d]? = some c) : c.utf8Size = 1 := by
    simpa using List.all_eq_true.1 hdigits c (List.mem_of_getElem? hc)
  exact h.2.elim (hascii _ (by decide)) (hascii _ (by decide))

theorem SpellsDigits.utf8Size_of_mem {radix : Nat} {cs : List Char} {n : Nat}
    (h : SpellsDigits radix cs n) : ∀ c ∈ cs, c.utf8Size = 1 := by
  obtain ⟨-, ds, hall, -⟩ := h
  induction hall with
  | nil => exact List.forall_mem_nil _
  | cons hd _ ih => exact List.forall_mem_cons.2 ⟨utf8Size_of_spellsDigit hd, ih⟩

theorem SpellsMagnitude.utf8Size_of_mem {cs : List Char} {n : Nat} (h : SpellsMagnitude cs n) :
    cs ≠ [] ∧ ∀ c ∈ cs, c.utf8Size = 1 := by
  cases h with
  | decimal h => exact ⟨h.1, h.utf8Size_of_mem⟩
  | hexadecimal hx h =>
      refine ⟨List.cons_ne_nil _ _, List.forall_mem_cons.2 ⟨rfl, List.forall_mem_cons.2 ⟨?_, ?_⟩⟩⟩
      · rcases hx with rfl | rfl <;> rfl
      · exact h.utf8Size_of_mem

/-- A number has a character, and every character of it is ASCII. -/
theorem SpellsNumber.utf8Size_of_mem {cs : List Char} {v : Int} (h : SpellsNumber cs v) :
    cs ≠ [] ∧ ∀ c ∈ cs, c.utf8Size = 1 := by
  cases h with
  | plain h => exact h.utf8Size_of_mem
  | plus h | minus h =>
      exact ⟨List.cons_ne_nil _ _, List.forall_mem_cons.2 ⟨rfl, h.utf8Size_of_mem.2⟩⟩

/-! ### Bytes -/

/-- The bytes of the UTF-8 form of some characters. -/
def utf8 (cs : List Char) : List UInt8 :=
  cs.flatMap String.utf8EncodeChar

@[simp] theorem utf8_nil : utf8 [] = [] := rfl

@[simp] theorem utf8_cons (c : Char) (cs : List Char) :
    utf8 (c :: cs) = String.utf8EncodeChar c ++ utf8 cs := rfl

theorem toList_toUTF8 (s : String) : s.toUTF8.data.toList = utf8 s.toList := by
  rw [String.toUTF8_eq_toByteArray, ← String.ofList_toList (s := s), String.toByteArray_ofList,
    String.toList_ofList]
  exact List.toList_data_toByteArray

theorem utf8_inj {cs ds : List Char} (h : utf8 cs = utf8 ds) : cs = ds := by
  have hbytes : (String.ofList cs).toByteArray = (String.ofList ds).toByteArray := by
    rw [String.toByteArray_ofList, String.toByteArray_ofList]
    exact congrArg List.toByteArray h
  exact String.ofList_injective (String.toByteArray_inj.1 hbytes)

theorem byteSize_eq (cs : List Char) : byteSize cs = (utf8 cs).length := by
  induction cs with
  | nil => rfl
  | cons c cs ih => rw [byteSize, utf8_cons, List.length_append, String.length_utf8EncodeChar, ih]

/-- An ASCII character has one byte, which is low. -/
theorem encode_ascii {c : Char} (h : c.utf8Size = 1) :
    ∃ b : UInt8, String.utf8EncodeChar c = [b] ∧ b.toNat < 128 := by
  refine ⟨_, String.utf8EncodeChar_eq_singleton h, ?_⟩
  have hle := UInt32.le_iff_toNat_le.1 (Char.utf8Size_eq_one_iff.1 h)
  have hlast : (127 : UInt32).toNat = 127 := rfl
  rw [UInt32.toNat_toUInt8]
  omega

/-- All bytes of any other character are high. -/
theorem encode_high {c : Char} (h : c.utf8Size ≠ 1) {b : UInt8}
    (hb : b ∈ String.utf8EncodeChar c) : 128 ≤ b.toNat := by
  have hor (x y : UInt8) (hy : 128 ≤ y.toNat) : 128 ≤ (x ||| y).toNat := by
    rw [UInt8.toNat_or]
    exact Nat.le_trans hy Nat.right_le_or
  rcases Char.utf8Size_eq c with h1 | h2 | h3 | h4
  · exact absurd h1 h
  · rw [String.utf8EncodeChar_eq_cons_cons h2] at hb
    simp only [List.mem_cons, List.not_mem_nil, or_false] at hb
    rcases hb with rfl | rfl <;> exact hor _ _ (by decide)
  · rw [String.utf8EncodeChar_eq_cons_cons_cons h3] at hb
    simp only [List.mem_cons, List.not_mem_nil, or_false] at hb
    rcases hb with rfl | rfl | rfl <;> exact hor _ _ (by decide)
  · rw [String.utf8EncodeChar_eq_cons_cons_cons_cons h4] at hb
    simp only [List.mem_cons, List.not_mem_nil, or_false] at hb
    rcases hb with rfl | rfl | rfl | rfl <;> exact hor _ _ (by decide)

/-! ### Cutting -/

theorem utf8_of_dropBytes? {n : Nat} {cs ds : List Char} (h : dropBytes? n cs = some ds) :
    utf8 ds = (utf8 cs).drop n := by
  fun_induction dropBytes? n cs with
  | case1 cs =>
      cases h
      rfl
  | case2 => cases h
  | case3 n c cs hsize ih =>
      have hskip : (String.utf8EncodeChar c).drop (n + 1) = [] := by
        rw [List.drop_eq_nil_iff, String.length_utf8EncodeChar]
        exact hsize
      rw [ih h, utf8_cons, List.drop_append, hskip, List.nil_append, String.length_utf8EncodeChar]
  | case4 => cases h

theorem utf8_of_takeBytes? {n : Nat} {cs ds : List Char} (h : takeBytes? n cs = some ds) :
    utf8 ds = (utf8 cs).take n := by
  fun_induction takeBytes? n cs generalizing ds with
  | case1 cs =>
      cases h
      rfl
  | case2 => cases h
  | case3 n c cs hsize ih =>
      obtain ⟨es, hes, rfl⟩ := Option.map_eq_some_iff.1 h
      have hwhole : (String.utf8EncodeChar c).take (n + 1) = String.utf8EncodeChar c := by
        rw [List.take_of_length_le]
        rw [String.length_utf8EncodeChar]
        exact hsize
      rw [utf8_cons, ih hes, utf8_cons, List.take_append, hwhole, String.length_utf8EncodeChar]
  | case4 => cases h

/-- **Text can be cut in front of an ASCII character.** -/
theorem exists_dropBytes? {n : Nat} {cs : List Char} {b : UInt8} (hb : (utf8 cs)[n]? = some b)
    (hlow : b.toNat < 128) : ∃ ds, dropBytes? n cs = some ds := by
  fun_induction dropBytes? n cs with
  | case1 cs => exact ⟨cs, rfl⟩
  | case2 n => cases hb
  | case3 n c cs hsize ih =>
      refine ih ?_
      rw [utf8_cons, List.getElem?_append_right, String.length_utf8EncodeChar] at hb
      · exact hb
      · rw [String.length_utf8EncodeChar]
        exact hsize
  | case4 n c cs hsize =>
      -- the byte stands inside of a character with several bytes, and these are high
      have hinside : n + 1 < (String.utf8EncodeChar c).length := by
        rw [String.length_utf8EncodeChar]
        omega
      rw [utf8_cons, List.getElem?_append_left hinside] at hb
      have hhigh := encode_high (by omega) (List.mem_of_getElem? hb)
      omega

/-- **Text can be cut behind ASCII characters.** -/
theorem takeBytes?_of_take_utf8 {n : Nat} {cs ds : List Char} (hds : ∀ c ∈ ds, c.utf8Size = 1)
    (hn : n ≤ (utf8 cs).length) (h : (utf8 cs).take n = utf8 ds) : takeBytes? n cs = some ds := by
  induction cs generalizing n ds with
  | nil =>
      obtain rfl : n = 0 := Nat.le_zero.1 hn
      obtain rfl : ds = [] := utf8_inj h.symm
      rfl
  | cons c cs ih =>
      cases n with
      | zero =>
          obtain rfl : ds = [] := utf8_inj h.symm
          rfl
      | succ n =>
          cases ds with
          | nil =>
              have hlength := congrArg List.length h
              rw [List.length_take, utf8_nil, List.length_nil] at hlength
              omega
          | cons d ds =>
              obtain ⟨hd, hrest⟩ := List.forall_mem_cons.1 hds
              obtain ⟨b, hb, hlow⟩ := encode_ascii hd
              rw [utf8_cons, utf8_cons, hb] at h
              -- the first byte is low, so that it is all of the first character
              have hc : c.utf8Size = 1 := by
                by_contra hc
                cases hcode : String.utf8EncodeChar c with
                | nil =>
                    have hpos := c.utf8Size_pos
                    rw [← String.length_utf8EncodeChar, hcode] at hpos
                    cases hpos
                | cons b' bs =>
                    rw [hcode] at h
                    obtain rfl : b' = b := (List.cons.inj h).1
                    have hhigh := encode_high hc (b := b') (by rw [hcode]; exact List.mem_cons_self)
                    omega
              obtain ⟨b', hb', -⟩ := encode_ascii hc
              rw [hb'] at h
              obtain ⟨rfl, htail⟩ := List.cons.inj h
              obtain rfl : c = d := by
                have hcd : [c] = [d] := utf8_inj (by rw [utf8_cons, utf8_cons, hb, hb'])
                exact (List.cons.inj hcd).1
              rw [utf8_cons, List.length_append, String.length_utf8EncodeChar, hc] at hn
              rw [takeBytes?, hc, if_pos (by omega), Nat.add_sub_cancel, ih hrest (by omega) htail]
              rfl

/-! ### The number in a token -/

/-- The bytes of a token that hold its number: all of them, those between the first and the last of an
address, those behind the first two of SP with an offset. -/
def literalBytes (kind : TokenKind) (bytes : List UInt8) : List UInt8 :=
  match kind with
  | .address => (bytes.drop 1).dropLast
  | .spShifted => bytes.drop 2
  | _ => bytes

/-- The number `v` of 32 bits is written in the text of a token. -/
def IsLiteral (kind : TokenKind) (text : String) (v : Int) : Prop :=
  ∃ s : String, s.toUTF8.data.toList = literalBytes kind text.toUTF8.data.toList ∧
    SpellsNumber s.toList v ∧ -2 ^ 31 ≤ v ∧ v ≤ 2 ^ 31 - 1

theorem utf8_of_withoutEnds? {cs ds : List Char} (h : withoutEnds? cs = some ds) :
    utf8 ds = ((utf8 cs).drop 1).dropLast := by
  unfold withoutEnds? at h
  split at h
  · cases h
  · obtain ⟨es, hes, hds⟩ := Option.bind_eq_some_iff.1 h
    rw [utf8_of_takeBytes? hds, utf8_of_dropBytes? hes, List.dropLast_eq_take, List.length_drop,
      byteSize_eq]
    rfl

/-- The part of a text that is read for a number has the bytes that hold it. -/
theorem utf8_of_literalPart? {kind : TokenKind} {cs ds : List Char}
    (h : literalPart? kind cs = some ds) : utf8 ds = literalBytes kind (utf8 cs) := by
  unfold literalPart? at h
  split at h
  · cases h
    rfl
  · exact utf8_of_withoutEnds? h
  · exact utf8_of_dropBytes? h
  · cases h

/-- **Bytes that hold a number can be cut out of a text.** -/
theorem literalPart?_of_literalBytes {kind : TokenKind} (hkind : kind.isNumeric = true)
    {cs ds : List Char} (hne : ds ≠ []) (hds : ∀ c ∈ ds, c.utf8Size = 1)
    (h : utf8 ds = literalBytes kind (utf8 cs)) : literalPart? kind cs = some ds := by
  -- the first byte is that of an ASCII character
  obtain ⟨b, bs, hb, hlow⟩ : ∃ b bs, utf8 ds = b :: bs ∧ b.toNat < 128 := by
    cases ds with
    | nil => exact absurd rfl hne
    | cons d ds =>
        obtain ⟨b, hb, hlow⟩ := encode_ascii (hds d List.mem_cons_self)
        exact ⟨b, utf8 ds, by rw [utf8_cons, hb]; rfl, hlow⟩
  cases kind with
  | number => rw [literalPart?, utf8_inj h]
  | spShifted =>
      have h : utf8 ds = (utf8 cs).drop 2 := h
      have hhead : (utf8 cs)[2]? = some b := by
        rw [← List.head?_drop, ← h, hb, List.head?_cons]
      obtain ⟨es, hes⟩ := exists_dropBytes? hhead hlow
      rw [literalPart?, hes, utf8_inj ((utf8_of_dropBytes? hes).trans h.symm)]
  | address =>
      have h : utf8 ds = ((utf8 cs).drop 1).dropLast := h
      have hlength := congrArg List.length h
      rw [hb, List.length_cons, List.length_dropLast, List.length_drop] at hlength
      have hhead : (utf8 cs)[1]? = some b := by
        have hget := congrArg (fun l => l[0]?) (h.symm.trans hb)
        rw [List.getElem?_dropLast, List.getElem?_drop] at hget
        simpa [show 0 < (utf8 cs).length - 1 - 1 by omega] using hget
      obtain ⟨es, hes⟩ := exists_dropBytes? hhead hlow
      have hbytes := utf8_of_dropBytes? hes
      have hsize : ¬ byteSize cs < 2 := by
        rw [byteSize_eq]
        omega
      rw [literalPart?, withoutEnds?, if_neg hsize, hes]
      refine takeBytes?_of_take_utf8 hds ?_ ?_
      · rw [hbytes, List.length_drop, byteSize_eq]
        omega
      · rw [hbytes, byteSize_eq, h, List.dropLast_eq_take, List.length_drop]
        rfl
  | _ => cases hkind

namespace Token

variable {kind : TokenKind} {text : String} {v : Int}

theorem isLiteral_iff (hkind : kind.isNumeric = true) :
    IsLiteral kind text v ↔ (literalPart? kind text.toList).bind numeral? = some v := by
  unfold IsLiteral
  simp only [toList_toUTF8]
  rw [Option.bind_eq_some_iff]
  constructor
  · rintro ⟨s, hs, hv, hfits⟩
    obtain ⟨hne, hascii⟩ := hv.utf8Size_of_mem
    exact ⟨s.toList, literalPart?_of_literalBytes hkind hne hascii hs,
      numeral?_eq_some_iff.2 ⟨hv, fitsWord_iff.2 hfits⟩⟩
  · rintro ⟨ds, hds, hv⟩
    obtain ⟨hv, hfits⟩ := numeral?_eq_some_iff.1 hv
    refine ⟨.ofList ds, ?_, ?_, fitsWord_iff.1 hfits⟩
    · rw [String.toList_ofList]
      exact utf8_of_literalPart? hds
    · rw [String.toList_ofList]
      exact hv

/-- **Literals are read exactly.**  A text is a numeral with the value `v` if and only if it is an
optional sign and then decimal digits, or hexadecimal digits behind `0x` or `0X`, that stand for `v`,
and `v` is a number of 32 bits.  A token of a number kind, made from any text, has the number that is
written in it: in all of the text of a number, in what is left of an address without its first and its
last byte, in what is left of SP with an offset without its first two bytes.  If no number is written
there, the text is no token, and this is a lexical error about all of it. -/
theorem literals_read_exactly :
    (∀ (s : String) (v : Int), numeral? s.toList = some v ↔
      SpellsNumber s.toList v ∧ -2 ^ 31 ≤ v ∧ v ≤ 2 ^ 31 - 1) ∧
    ∀ (kind : TokenKind) (text : String) (pos : Position), kind.isNumeric = true →
      (∀ v, Token.ofText kind text pos = .ok ⟨kind, text, pos, some v⟩ ↔ IsLiteral kind text v) ∧
      ((∀ v, ¬ IsLiteral kind text v) → ∃ e, Token.ofText kind text pos = .error e ∧
        e.kind = .lexical ∧ e.message = "malformed numeric literal " ++ Cause.quoted text ∧
        e.span = ⟨pos, max text.length 1⟩ ∧ e.reference = none) := by
  refine ⟨fun s v => by rw [numeral?_eq_some_iff, fitsWord_iff], ?_⟩
  intro kind text pos hkind
  simp only [isLiteral_iff hkind]
  cases h : (literalPart? kind text.toList).bind numeral? with
  | none =>
      have herror : ofText kind text pos = .error ⟨.malformedNumber text, spanOf pos text, none⟩ := by
        rw [ofText, if_pos hkind, h]
      refine ⟨fun v => ?_, fun _ => ⟨_, herror, rfl, rfl, rfl, rfl⟩⟩
      rw [herror]
      simp
  | some w =>
      have hok : ofText kind text pos = .ok ⟨kind, text, pos, some w⟩ := by
        rw [ofText, if_pos hkind, h]
      refine ⟨fun v => ?_, fun hnone => absurd rfl (hnone w)⟩
      rw [hok]
      simp

/-- The least number of 32 bits with zeros in front, a number behind a letter of two bytes, and a
number that is one more than 64 bits can count. -/
theorem literals_read_exactly_wide :
    IsLiteral .address "[-0x00000000080000000]" (-2 ^ 31) ∧ IsLiteral .spShifted "é+007" 7 ∧
    (∀ v, ¬ IsLiteral .number "18446744073709551617" v) ∧
    ∃ e, Token.ofText .number "18446744073709551617" ⟨1, 1⟩ = .error e ∧ e.kind = .lexical := by
  obtain ⟨-, hread⟩ := literals_read_exactly
  obtain ⟨hnumber, herror⟩ := hread .number "18446744073709551617" ⟨1, 1⟩ rfl
  have hnone : ∀ v, ¬ IsLiteral .number "18446744073709551617" v := by
    intro v hv
    cases (hnumber v).2 hv
  refine ⟨?_, ?_, hnone, ?_⟩
  · exact ((hread .address "[-0x00000000080000000]" ⟨1, 1⟩ rfl).1 _).1 rfl
  · exact ((hread .spShifted "é+007" ⟨1, 1⟩ rfl).1 _).1 rfl
  · obtain ⟨e, he, hlexical, -⟩ := herror hnone
    exact ⟨e, he, hlexical⟩

end Token

end GameBoyAssembler
