import GameBoyAssembler.CommandLine.Address
import GameBoyAssembler.Proofs.Literals

/-!
# Addresses are read exactly

On the command line an address is read from the left to the right, and reading stops at the first
character that it cannot take.  Which texts are addresses, and what is wrong with the others, is said
here of the whole text: of the mark in front, the sign behind it, and the value of the digits.

Main definitions:

* `SpellsAddress` — what a text stands for that is a mark, a sign and digits;
* `AddressCut` — the mark, the sign and the rest of any text;
* `ReadsUpTo`, `NoAddress` — the character where reading stops, and what is wrong with it.

Main results:

* `parseAddress_of_cut` — the rest is read digit by digit, whatever the mark and the sign;
* `addressDigits_eq_ok_iff`, `addressDigits_eq_error_iff` — digits are read to their end or up to the
  first character that is no digit or takes the value beyond 0xFFFF;
* `addresses_read_exactly` — **a text is the address that is written in it, or the leftmost fault is
  reported**.
-/

set_option relaxedAutoImplicit false
set_option autoImplicit false

namespace GameBoyAssembler

/-! ### What is written in a text -/

/-- The mark of a base. -/
inductive IsMark : List Char → Nat → Prop
  | decimal : IsMark [] 10
  | lower : IsMark ['0', 'x'] 16
  | upper : IsMark ['0', 'X'] 16

/-- The text is an optional mark, an optional plus sign, and the digits of `a`. -/
inductive SpellsAddress : List Char → Nat → Prop
  | intro {mark sign digits : List Char} {radix a : Nat} (hmark : IsMark mark radix)
      (hsign : sign = [] ∨ sign = ['+']) (h : SpellsDigits radix digits a) :
      SpellsAddress (mark ++ sign ++ digits) a

/-- The text is cut behind its mark and its sign.  A plus sign that nothing follows is no sign. -/
structure AddressCut (text mark sign rest : List Char) (radix : Nat) : Prop where
  text_eq : text = mark ++ sign ++ rest
  isMark : IsMark mark radix
  unmarked : mark = [] → ¬ ['0', 'x'] <+: text ∧ ¬ ['0', 'X'] <+: text
  signed : sign = ['+'] ∧ rest ≠ [] ∨ sign = [] ∧ ∀ cs, rest = '+' :: cs → cs = []

/-- Behind its mark and its sign the text has digits whose value `n` is an address, perhaps none, and
then the character `c`. -/
def ReadsUpTo (text : List Char) (radix n : Nat) (c : Char) : Prop :=
  ∃ mark sign digits rest, AddressCut text mark sign (digits ++ c :: rest) radix ∧
    (∃ ds, List.Forall₂ (SpellsDigit radix) digits ds ∧ Nat.ofDigits radix ds.reverse = n) ∧
    n ≤ 0xFFFF

/-- What is wrong with the character `c` behind digits of value `n`: it is no digit of the base, or it is
one that takes the value beyond 0xFFFF. -/
inductive DigitFault (radix n : Nat) (c : Char) : AddressFault → Prop
  | invalidDigit (h : ∀ d, ¬ SpellsDigit radix c d) : DigitFault radix n c .invalidDigit
  | tooLarge {d : Nat} (h : SpellsDigit radix c d) (hlarge : 0xFFFF < n * radix + d) :
      DigitFault radix n c .tooLarge

/-- What is wrong with a text that is no address: nothing follows the mark, or reading stops at a
character. -/
inductive NoAddress (text : List Char) : AddressFault → Prop
  | empty {radix : Nat} (h : IsMark text radix) : NoAddress text .empty
  | stopped {radix n : Nat} {c : Char} {fault : AddressFault} (h : ReadsUpTo text radix n c)
      (hfault : DigitFault radix n c fault) : NoAddress text fault

theorem IsMark.radix_eq {mark : List Char} {radix : Nat} (h : IsMark mark radix) :
    radix = 10 ∨ radix = 16 := by
  cases h <;> decide

theorem IsMark.radix_le {mark : List Char} {radix : Nat} (h : IsMark mark radix) : radix ≤ 16 := by
  rcases h.radix_eq with rfl | rfl <;> decide

theorem IsMark.radix_pos {mark : List Char} {radix : Nat} (h : IsMark mark radix) : 0 < radix := by
  rcases h.radix_eq with rfl | rfl <;> decide

theorem not_spellsDigit_sign (radix d : Nat) :
    ¬ SpellsDigit radix '+' d ∧ ¬ SpellsDigit radix '-' d := by
  have hnot {c : Char} (hlower : c ∉ "0123456789abcdef".toList)
      (hupper : c ∉ "0123456789ABCDEF".toList) : ¬ SpellsDigit radix c d := by
    rintro ⟨-, h | h⟩
    · exact hlower (List.mem_of_getElem? h)
    · exact hupper (List.mem_of_getElem? h)
  exact ⟨hnot (by decide) (by decide), hnot (by decide) (by decide)⟩

/-! ### Reading digits -/

section Digits

variable {radix : Nat}

/-- More digits never make a number smaller. -/
theorem le_of_ofDigitsFrom? (hradix : 0 < radix) {n m : Nat} {cs : List Char}
    (h : ofDigitsFrom? radix n cs = some m) : n ≤ m := by
  induction cs generalizing n with
  | nil =>
      cases h
      exact Nat.le_refl _
  | cons c cs ih =>
      rw [ofDigitsFrom?] at h
      cases hd : digitValue? radix c with
      | none => rw [hd] at h; cases h
      | some d =>
          rw [hd] at h
          have hle := ih h
          have hn : n ≤ n * radix := Nat.le_mul_of_pos_right n hradix
          omega

theorem addressDigits_eq_ok_iff (hradix : 0 < radix) {n m : Nat} (hn : n ≤ 0xFFFF)
    {cs : List Char} :
    addressDigits radix n cs = .ok m ↔ ofDigitsFrom? radix n cs = some m ∧ m ≤ 0xFFFF := by
  induction cs generalizing n with
  | nil =>
      rw [addressDigits, ofDigitsFrom?]
      constructor
      · intro h
        cases h
        exact ⟨rfl, hn⟩
      · rintro ⟨h, -⟩
        cases h
        rfl
  | cons c cs ih =>
      rw [addressDigits, ofDigitsFrom?]
      cases digitValue? radix c with
      | none => simp
      | some d =>
          dsimp only
          split
          · -- the value stays beyond the limit, whatever follows
            rename_i hlarge
            constructor
            · intro h
              cases h
            · rintro ⟨h, hm⟩
              have hle := le_of_ofDigitsFrom? hradix h
              omega
          · exact ih (by omega)

theorem ofDigitsFrom?_zero_eq_some_iff (hradix : radix ≤ 16) {m : Nat} {cs : List Char} :
    ofDigitsFrom? radix 0 cs = some m ↔
      ∃ ds, List.Forall₂ (SpellsDigit radix) cs ds ∧ Nat.ofDigits radix ds.reverse = m := by
  rw [ofDigitsFrom?_eq_some_iff hradix]
  simp only [Nat.zero_mul, Nat.zero_add]

theorem digitValue?_eq_none_iff (hradix : radix ≤ 16) {c : Char} :
    digitValue? radix c = none ↔ ∀ d, ¬ SpellsDigit radix c d := by
  rw [Option.eq_none_iff_forall_ne_some]
  exact forall_congr' fun d => not_congr (digitValue?_eq_some_iff hradix)

/-- **Reading digits fails at the leftmost character that cannot be taken.** -/
theorem addressDigits_eq_error_iff (hpos : 0 < radix) (hradix : radix ≤ 16) {n : Nat}
    (hn : n ≤ 0xFFFF) {cs : List Char} {fault : AddressFault} :
    addressDigits radix n cs = .error fault ↔
      ∃ digits c rest m, cs = digits ++ c :: rest ∧ ofDigitsFrom? radix n digits = some m ∧
        m ≤ 0xFFFF ∧ DigitFault radix m c fault := by
  induction cs generalizing n with
  | nil => simp [addressDigits]
  | cons c cs ih =>
      rw [addressDigits]
      constructor
      · intro h
        cases hd : digitValue? radix c with
        | none =>
            rw [hd] at h
            cases h
            exact ⟨[], c, cs, n, rfl, rfl, hn, .invalidDigit ((digitValue?_eq_none_iff hradix).1 hd)⟩
        | some d =>
            rw [hd] at h
            dsimp only at h
            split at h
            · cases h
              exact ⟨[], c, cs, n, rfl, rfl, hn, .tooLarge ((digitValue?_eq_some_iff hradix).1 hd) ‹_›⟩
            · obtain ⟨digits, c', rest, m, rfl, hm, hle, hfault⟩ := (ih (by omega)).1 h
              refine ⟨c :: digits, c', rest, m, rfl, ?_, hle, hfault⟩
              rw [ofDigitsFrom?, hd]
              exact hm
      · rintro ⟨digits, c', rest, m, hcs, hm, hle, hfault⟩
        cases digits with
        | nil =>
            cases hm
            obtain ⟨rfl, rfl⟩ := List.cons.inj hcs
            cases hfault with
            | invalidDigit h => rw [(digitValue?_eq_none_iff hradix).2 h]
            | tooLarge h hlarge =>
                rw [(digitValue?_eq_some_iff hradix).2 h]
                exact if_pos hlarge
        | cons d digits =>
            obtain ⟨rfl, rfl⟩ := List.cons.inj hcs
            rw [ofDigitsFrom?] at hm
            cases hd : digitValue? radix c with
            | none => rw [hd] at hm; cases hm
            | some v =>
                rw [hd] at hm
                have hv := le_of_ofDigitsFrom? hpos hm
                dsimp only at hm ⊢
                rw [if_neg (by omega)]
                exact (ih (by omega)).2 ⟨digits, c', rest, m, rfl, hm, hle, hfault⟩

end Digits

/-! ### Mark and sign -/

theorem exists_addressCut (text : List Char) :
    ∃ mark sign rest radix, AddressCut text mark sign rest radix := by
  have hsigned (cs : List Char) : ∃ sign rest, cs = sign ++ rest ∧
      (sign = ['+'] ∧ rest ≠ [] ∨ sign = [] ∧ ∀ ds, rest = '+' :: ds → ds = []) := by
    by_cases h : ∃ ds, cs = '+' :: ds ∧ ds ≠ []
    · obtain ⟨ds, rfl, hne⟩ := h
      exact ⟨['+'], ds, rfl, Or.inl ⟨rfl, hne⟩⟩
    · refine ⟨[], cs, rfl, Or.inr ⟨rfl, fun ds hds => ?_⟩⟩
      by_contra hne
      exact h ⟨ds, hds, hne⟩
  by_cases hlower : ['0', 'x'] <+: text
  · obtain ⟨cs, rfl⟩ := hlower
    obtain ⟨sign, rest, rfl, hsign⟩ := hsigned cs
    exact ⟨['0', 'x'], sign, rest, 16, by simp, .lower, by simp, hsign⟩
  · by_cases hupper : ['0', 'X'] <+: text
    · obtain ⟨cs, rfl⟩ := hupper
      obtain ⟨sign, rest, rfl, hsign⟩ := hsigned cs
      exact ⟨['0', 'X'], sign, rest, 16, by simp, .upper, by simp, hsign⟩
    · obtain ⟨sign, rest, rfl, hsign⟩ := hsigned text
      exact ⟨[], sign, rest, 10, rfl, .decimal, fun _ => ⟨hlower, hupper⟩, hsign⟩

section Cut

variable {text mark sign rest : List Char} {radix : Nat}

/-- Behind the sign there are digits only. -/
theorem AddressCut.signedAddress_eq (h : AddressCut text mark sign rest radix) (hne : rest ≠ []) :
    signedAddress radix (sign ++ rest) = addressDigits radix 0 rest := by
  rcases h.signed with ⟨rfl, -⟩ | ⟨rfl, hplus⟩
  · cases rest with
    | nil => exact absurd rfl hne
    | cons c cs => rfl
  · rw [List.nil_append]
    unfold signedAddress
    split
    · exact absurd rfl hne
    · rfl
    · rename_i cs hcs
      exact absurd (hplus cs rfl) hcs
    · rfl

/-- **An address is read digit by digit behind its mark and its sign.** -/
theorem parseAddress_of_cut {text : String} (h : AddressCut text.toList mark sign rest radix) :
    parseAddress text
      = (if rest = [] then .error .empty else addressDigits radix 0 rest).map UInt16.ofNat := by
  have hsigned : signedAddress radix (sign ++ rest)
      = if rest = [] then .error .empty else addressDigits radix 0 rest := by
    split
    · rename_i hrest
      rcases h.signed with ⟨-, hne⟩ | ⟨rfl, -⟩
      · exact absurd hrest hne
      · rw [hrest]
        rfl
    · exact h.signedAddress_eq ‹_›
  rw [← hsigned, parseAddress]
  have htext := h.text_eq
  cases h.isMark with
  | decimal =>
      obtain ⟨hlower, hupper⟩ := h.unmarked rfl
      congr 1
      split
      · rename_i cs hcs
        exact absurd ⟨cs, hcs.symm⟩ hlower
      · rename_i cs hcs
        exact absurd ⟨cs, hcs.symm⟩ hupper
      · rw [htext]
        rfl
  | lower =>
      rw [htext]
      rfl
  | upper =>
      rw [htext]
      rfl

end Cut

/-- A text that is mark, sign and digits is cut there. -/
theorem addressCut_of_spellsDigits {mark sign digits : List Char} {radix a : Nat}
    (hmark : IsMark mark radix) (hsign : sign = [] ∨ sign = ['+'])
    (h : SpellsDigits radix digits a) :
    AddressCut (mark ++ sign ++ digits) mark sign digits radix where
  text_eq := rfl
  isMark := hmark
  unmarked := by
    rintro rfl
    cases hmark
    -- the second character of a mark is no decimal digit
    have hnot {x : Char} (hx : digitValue? 10 x = none) : ¬ ['0', x] <+: [] ++ sign ++ digits := by
      rintro ⟨cs, hcs⟩
      rcases hsign with rfl | rfl
      · have hmem : x ∈ digits := by
          rw [← show ['0', x] ++ cs = digits from hcs]
          simp
        exact h.notMem (by decide) hx hmem
      · cases hcs
    exact ⟨hnot rfl, hnot rfl⟩
  signed := by
    rcases hsign with rfl | rfl
    · refine Or.inr ⟨rfl, fun cs hcs => ?_⟩
      refine absurd ?_ (h.notMem hmark.radix_le (c := '+') rfl)
      rw [hcs]
      exact List.mem_cons_self
    · exact Or.inl ⟨rfl, h.1⟩

/-! ### Addresses -/

theorem parseAddress_eq_ok_iff (text : String) (a : UInt16) :
    parseAddress text = .ok a ↔ SpellsAddress text.toList a.toNat := by
  constructor
  · intro h
    obtain ⟨mark, sign, rest, radix, hcut⟩ := exists_addressCut text.toList
    rw [parseAddress_of_cut hcut] at h
    split at h
    · cases h
    · rename_i hne
      cases hvalue : addressDigits radix 0 rest with
      | error fault => rw [hvalue] at h; cases h
      | ok m =>
          rw [hvalue] at h
          obtain ⟨hm, hle⟩ := (addressDigits_eq_ok_iff hcut.isMark.radix_pos (by decide)).1 hvalue
          have ha : a.toNat = m := by
            obtain rfl : UInt16.ofNat m = a := Except.ok.inj h
            exact UInt16.toNat_ofNat_of_lt' (Nat.lt_succ_of_le hle)
          have hdigits : SpellsDigits radix rest m :=
            ⟨hne, (ofDigitsFrom?_zero_eq_some_iff hcut.isMark.radix_le).1 hm⟩
          rw [hcut.text_eq, ha]
          refine .intro hcut.isMark ?_ hdigits
          exact hcut.signed.symm.imp And.left And.left
  · intro h
    generalize htext : text.toList = cs at h
    generalize hvalue : a.toNat = n at h
    cases h with
    | @intro mark sign digits radix _ hmark hsign h =>
        have hcut := addressCut_of_spellsDigits hmark hsign h
        rw [← htext] at hcut
        have hm := (ofDigitsFrom?_zero_eq_some_iff hmark.radix_le).2 h.2
        have hle : n ≤ 0xFFFF := by
          have := a.toNat_lt
          omega
        rw [parseAddress_of_cut hcut, if_neg h.1,
          (addressDigits_eq_ok_iff hmark.radix_pos (by decide)).2 ⟨hm, hle⟩, ← hvalue]
        exact congrArg Except.ok UInt16.ofNat_toNat

theorem parseAddress_eq_error_iff (text : String) (fault : AddressFault) :
    parseAddress text = .error fault ↔ NoAddress text.toList fault := by
  constructor
  · intro h
    obtain ⟨mark, sign, rest, radix, hcut⟩ := exists_addressCut text.toList
    rw [parseAddress_of_cut hcut] at h
    have hmark := hcut.isMark
    split at h
    · rename_i hrest
      cases h
      -- nothing follows, so there is no sign either
      rcases hcut.signed with ⟨-, hne⟩ | ⟨rfl, -⟩
      · exact absurd hrest hne
      · have htext : text.toList = mark := by simpa [hrest] using hcut.text_eq
        exact .empty (htext ▸ hmark)
    · cases hvalue : addressDigits radix 0 rest with
      | ok m => rw [hvalue] at h; cases h
      | error fault' =>
          rw [hvalue] at h
          cases h
          obtain ⟨digits, c, cs, m, rfl, hm, hle, hfault⟩ :=
            (addressDigits_eq_error_iff hmark.radix_pos hmark.radix_le (by decide)).1 hvalue
          have hdigits := (ofDigitsFrom?_zero_eq_some_iff hmark.radix_le).1 hm
          exact .stopped ⟨mark, sign, digits, cs, hcut, hdigits, hle⟩ hfault
  · intro h
    cases h with
    | @empty radix hmark =>
        have hcut : AddressCut text.toList text.toList [] [] radix :=
          ⟨by simp, hmark, fun h => by simp [h], Or.inr ⟨rfl, fun _ h => by cases h⟩⟩
        rw [parseAddress_of_cut hcut, if_pos rfl]
        rfl
    | stopped h hfault =>
        obtain ⟨mark, sign, digits, rest, hcut, hdigits, hle⟩ := h
        have hmark := hcut.isMark
        have hm := (ofDigitsFrom?_zero_eq_some_iff hmark.radix_le).2 hdigits
        have herror :=
          (addressDigits_eq_error_iff hmark.radix_pos hmark.radix_le (Nat.zero_le _)).2
            ⟨digits, _, rest, _, rfl, hm, hle, hfault⟩
        rw [parseAddress_of_cut hcut, if_neg (by simp), herror]
        rfl

/-- **Addresses are read exactly.**  A text is read as the address `a` if and only if it is an optional
`0x` or `0X`, an optional plus sign, and digits that stand for `a`, decimal ones without the mark and
hexadecimal ones with it.  Any other text is refused: because nothing follows the mark, or because of
the leftmost character that cannot be taken.  This is one that is no digit, as a minus sign and a plus
sign alone, or a digit that takes the value beyond 0xFFFF. -/
theorem addresses_read_exactly (text : String) :
    (∀ a : UInt16, parseAddress text = .ok a ↔ SpellsAddress text.toList a.toNat) ∧
    (∀ fault, parseAddress text = .error fault ↔ NoAddress text.toList fault) ∧
    ∀ radix d, ¬ SpellsDigit radix '+' d ∧ ¬ SpellsDigit radix '-' d :=
  ⟨parseAddress_eq_ok_iff text, parseAddress_eq_error_iff text, not_spellsDigit_sign⟩

/-- The character behind the largest address decides, whatever stands behind it. -/
example : parseAddress "0X+0FFFF" = .ok 0xFFFF ∧ parseAddress "65535z" = .error .invalidDigit ∧
    parseAddress "65536z" = .error .tooLarge :=
  ⟨rfl, rfl, rfl⟩

end GameBoyAssembler
