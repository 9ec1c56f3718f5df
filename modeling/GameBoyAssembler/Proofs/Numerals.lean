import GameBoyAssembler.Text.Hex
import GameBoyAssembler.Text.Numeral

/-!
# Printed numerals read back

Main results:

* `ofDigitsFrom?_map_toDigits` — the digits of a number, written in any way that a digit is read
  back from, have the number as their value;
* `ofDigits?_hexDigits` — so have the capital digits filled up with zeros;
* `numeral?_hex`, `numeral?_plus_hex`, `numeral?_minus_hex` — the numerals that are printed have the
  value they were printed for.
-/

set_option relaxedAutoImplicit false
set_option autoImplicit false

namespace GameBoyAssembler

/-! ### Digits -/

theorem ofDigitsFrom?_append (radix n : Nat) (cs ds : List Char) :
    ofDigitsFrom? radix n (cs ++ ds)
      = (ofDigitsFrom? radix n cs).bind fun m => ofDigitsFrom? radix m ds := by
  induction cs generalizing n with
  | nil => rfl
  | cons c cs ih =>
      rw [List.cons_append, ofDigitsFrom?, ofDigitsFrom?]
      cases digitValue? radix c with
      | none => rfl
      | some d => exact ih _

theorem ofDigitsFrom?_singleton {radix n d : Nat} {c : Char} (h : digitValue? radix c = some d) :
    ofDigitsFrom? radix n [c] = some (n * radix + d) := by
  rw [ofDigitsFrom?, h]
  rfl

theorem ofDigits?_eq_ofDigitsFrom? (radix : Nat) {cs : List Char} (h : cs ≠ []) :
    ofDigits? radix cs = ofDigitsFrom? radix 0 cs := by
  cases cs with
  | nil => exact absurd rfl h
  | cons c cs => rfl

/-- The digits of a number have the number as their value, in any writing of the digits. -/
theorem ofDigitsFrom?_map_toDigits {radix : Nat} (hradix : 1 < radix) {write : Char → Char}
    (hwrite : ∀ d < radix, digitValue? radix (write (Nat.digitChar d)) = some d) (n : Nat) :
    ofDigitsFrom? radix 0 ((Nat.toDigits radix n).map write) = some n := by
  -- the last digit comes off, and the number before it is smaller
  induction n using Nat.strongRecOn with
  | ind n ih =>
      by_cases h : n < radix
      · rw [Nat.toDigits_of_lt_base h, List.map_singleton, ofDigitsFrom?_singleton (hwrite n h)]
        simp
      · have hlast : n % radix < radix := Nat.mod_lt n (by omega)
        have hsmall : n / radix < n := Nat.div_lt_self (by omega) hradix
        rw [Nat.toDigits_of_base_le hradix (by omega), List.map_append, ofDigitsFrom?_append,
          ih _ hsmall, List.map_singleton]
        change ofDigitsFrom? radix (n / radix) [_] = some n
        rw [ofDigitsFrom?_singleton (hwrite _ hlast), Nat.div_add_mod']

theorem ofDigitsFrom?_replicate_zero {radix : Nat} (hradix : 0 < radix) (k : Nat) (cs : List Char) :
    ofDigitsFrom? radix 0 (List.replicate k '0' ++ cs) = ofDigitsFrom? radix 0 cs := by
  have hzero : digitValue? radix '0' = some 0 := by simp [digitValue?, hradix]
  induction k with
  | zero => rfl
  | succ k ih =>
      rw [List.replicate_succ, List.cons_append, ofDigitsFrom?, hzero]
      simpa using ih

theorem digitValue?_toUpper_digitChar :
    ∀ d < 16, digitValue? 16 (Char.toUpper (Nat.digitChar d)) = some d := by
  decide

theorem hexDigits_ne_nil (width n : Nat) : hexDigits width n ≠ [] := by
  simp [hexDigits, List.leftpad, Nat.toDigits_ne_nil]

theorem ofDigits?_hexDigits (width n : Nat) : ofDigits? 16 (hexDigits width n) = some n := by
  rw [ofDigits?_eq_ofDigitsFrom? 16 (hexDigits_ne_nil width n), hexDigits, List.leftpad,
    ofDigitsFrom?_replicate_zero (by decide)]
  exact ofDigitsFrom?_map_toDigits (by decide) digitValue?_toUpper_digitChar n

/-- Only digits have a value. -/
theorem isSome_digitValue?_of_mem {radix n m : Nat} {cs : List Char}
    (h : ofDigitsFrom? radix n cs = some m) : ∀ c ∈ cs, (digitValue? radix c).isSome := by
  induction cs generalizing n with
  | nil => simp
  | cons c cs ih =>
      rw [ofDigitsFrom?] at h
      cases hc : digitValue? radix c with
      | none => rw [hc] at h; cases h
      | some d =>
          rw [hc] at h
          intro b hb
          rcases List.mem_cons.1 hb with rfl | hb
          · rw [hc]; rfl
          · exact ih h b hb

theorem isSome_digitValue?_hexDigits (width n : Nat) :
    ∀ c ∈ hexDigits width n, (digitValue? 16 c).isSome := by
  have h := ofDigits?_hexDigits width n
  rw [ofDigits?_eq_ofDigitsFrom? 16 (hexDigits_ne_nil width n)] at h
  exact isSome_digitValue?_of_mem h

/-! ### Numerals -/

theorem magnitude?_hex (width n : Nat) :
    magnitude? ('0' :: 'x' :: hexDigits width n) = some n :=
  ofDigits?_hexDigits width n

theorem numeral?_hex {n : Nat} (h : n ≤ 0x7FFFFFFF) (width : Nat) :
    numeral? ('0' :: 'x' :: hexDigits width n) = some (n : Int) := by
  have hfits : FitsWord n := ⟨by omega, by omega⟩
  simp [numeral?, magnitude?_hex, hfits]

theorem numeral?_plus_hex {n : Nat} (h : n ≤ 0x7FFFFFFF) (width : Nat) :
    numeral? ('+' :: '0' :: 'x' :: hexDigits width n) = some (n : Int) := by
  have hfits : FitsWord n := ⟨by omega, by omega⟩
  simp [numeral?, magnitude?_hex, hfits]

theorem numeral?_minus_hex {n : Nat} (h : n ≤ 0x7FFFFFFF) (width : Nat) :
    numeral? ('-' :: '0' :: 'x' :: hexDigits width n) = some (-(n : Int)) := by
  have hfits : FitsWord (-(n : Int)) := ⟨by omega, by omega⟩
  simp [numeral?, magnitude?_hex, hfits]

end GameBoyAssembler
