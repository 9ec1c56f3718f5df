import GameBoyAssembler.Proofs.Aliases
import GameBoyAssembler.Proofs.Forms

/-!
# No number is cut to fit

An operand that is a number is a literal or the value of a symbol, and may be any integer.  The field of
the instruction that it goes to has one byte, two bytes or a few bits.  Each field has a window of
numbers that it can hold, some of them written in two ways.  The number is encoded if it is in the
window, and refused otherwise; it is never cut to fit.

Main definitions:

* `Instruction.Window` — the numbers that have a place in an instruction;
* `Instruction.encoded`, `Instruction.withNumber`, `Instruction.codeWith` — the number that goes into the
  instruction, the instruction with this number, and its machine code;
* `Token.StandsForNumber` — the number that a token stands for, and where it was defined;
* `HasNumber` — the operands select a form of instruction and one of them is its number;
* `EncodedOrRefused` — the number goes into the instruction, or there is a range error at its operand.

Main results:

* `Instruction.bytes_withNumber` — the number is in the machine code, low byte first;
* `HasNumber.select_eq` — the operands select the form, and its number alone is left to be read;
* `Context.encodedOrRefused_fill` — a number is encoded exactly, or there is a range error at its operand;
* `Context.exists_hasNumber` — whatever is selected with a number is one of these forms;
* `Pending.number_encoded_or_refused` — **no number is cut to fit**.
-/

set_option relaxedAutoImplicit false
set_option autoImplicit false

namespace GameBoyAssembler

/-! ### The number of an instruction -/

/-- The lowest `k` bytes of a number, low byte first. -/
def littleEndian : Nat → Int → List UInt8
  | 0, _ => []
  | k + 1, n => UInt8.ofNat (n % 256).toNat :: littleEndian k (n / 256)

namespace Instruction

/-- The instruction has a number for an operand. -/
def takesNumber : Instruction → Bool
  | arithImm _ _ | loadImm _ _ | loadPairImm _ _ | addSP _ | loadHLSP _ | storeAt _ | loadAt _
  | storeSPAt _ | storeHigh _ | loadHigh _ | jump _ _ | jumpRel _ _ | call _ _ | restart _
  | bit _ _ _ => true
  | _ => false

/-- The bytes behind the opcode that hold the number.  A restart vector and a bit index have their
place in the opcode. -/
def numberSize : Instruction → Nat
  | arithImm _ _ | loadImm _ _ | addSP _ | loadHLSP _ | storeHigh _ | loadHigh _ | jumpRel _ _ => 1
  | loadPairImm _ _ | storeAt _ | loadAt _ | storeSPAt _ | jump _ _ | call _ _ => 2
  | _ => 0

/-- The numbers that the operand may be, for an instruction at an address.  A relative jump to a symbol
is about the way there. -/
def Window (address : UInt16) (q : Quantity) : Instruction → Prop
  | arithImm _ _ | loadImm _ _ => -128 ≤ q.value ∧ q.value ≤ 255
  | loadPairImm _ _ => -32768 ≤ q.value ∧ q.value ≤ 65535
  | jump _ _ | call _ _ | storeAt _ | loadAt _ | storeSPAt _ => 0 ≤ q.value ∧ q.value ≤ 65535
  | addSP _ | loadHLSP _ => -128 ≤ q.value ∧ q.value ≤ 127
  | jumpRel _ _ =>
      if q.origin.isSome then
        -128 ≤ q.value - (address.toNat + 2) ∧ q.value - (address.toNat + 2) ≤ 127
      else -128 ≤ q.value ∧ q.value ≤ 127
  | bit _ _ _ => 0 ≤ q.value ∧ q.value ≤ 7
  | restart _ => 0 ≤ q.value ∧ q.value ≤ 0x38 ∧ q.value % 8 = 0
  | storeHigh _ | loadHigh _ =>
      0 ≤ q.value ∧ q.value ≤ 0xFF ∨ 0xFF00 ≤ q.value ∧ q.value ≤ 0xFFFF
  | _ => False

/-- The number that goes into the instruction: the way to a symbol in a relative jump, the offset of an
address in the high page, and the operand itself elsewhere. -/
def encoded (address : UInt16) (q : Quantity) : Instruction → Int
  | jumpRel _ _ => if q.origin.isSome then q.value - (address.toNat + 2) else q.value
  | storeHigh _ | loadHigh _ => if 0xFF00 ≤ q.value then q.value - 0xFF00 else q.value
  | _ => q.value

/-- The instruction with the number `n`. -/
def withNumber (n : Int) : Instruction → Instruction
  | arithImm op _ => arithImm op (UInt8.ofInt n)
  | loadImm r _ => loadImm r (UInt8.ofInt n)
  | loadPairImm rr _ => loadPairImm rr (UInt16.ofInt n)
  | addSP _ => addSP (Int8.ofInt n)
  | loadHLSP _ => loadHLSP (Int8.ofInt n)
  | storeAt _ => storeAt (UInt16.ofInt n)
  | loadAt _ => loadAt (UInt16.ofInt n)
  | storeSPAt _ => storeSPAt (UInt16.ofInt n)
  | storeHigh _ => storeHigh (UInt8.ofInt n)
  | loadHigh _ => loadHigh (UInt8.ofInt n)
  | jump cc _ => jump cc (UInt16.ofInt n)
  | jumpRel cc _ => jumpRel cc (Int8.ofInt n)
  | call cc _ => call cc (UInt16.ofInt n)
  | restart _ => restart (UInt8.ofInt n)
  | bit op _ r => bit op (UInt8.ofInt n) r
  | i => i

/-- The machine code of an instruction with the number `n`. -/
def codeWith (n : Int) : Instruction → List UInt8
  | restart _ => [0xC7 + UInt8.ofInt n]
  | bit op _ r => [Opcode.extension, 64 * op.code + 8 * UInt8.ofInt n + r.code]
  | i => i.opcode.bytes ++ littleEndian i.numberSize n

end Instruction

/-! ### The number in the machine code -/

theorem toUInt8_ofInt (n : Int) : (Int8.ofInt n).toUInt8 = UInt8.ofInt n := by
  apply UInt8.toNat_inj.1
  have hlow : (Int8.ofInt n).toUInt8.toNat = (n % (2 ^ 8 : Nat)).toNat := BitVec.toNat_ofInt n
  rw [hlow, UInt8.ofInt, UInt8.toNat_ofNat']
  omega

theorem littleEndian_two (n : Int) : littleEndian 2 n = wordBytes (UInt16.ofInt n) := by
  have hword : (UInt16.ofInt n).toNat = (n % 65536).toNat := by
    rw [UInt16.ofInt, UInt16.toNat_ofNat']
    omega
  have hlow : UInt8.ofNat (n % 256).toNat = (UInt16.ofInt n).toUInt8 := by
    apply UInt8.toNat_inj.1
    rw [UInt16.toNat_toUInt8, UInt8.toNat_ofNat', hword]
    omega
  have hhigh : UInt8.ofNat (n / 256 % 256).toNat = (UInt16.ofInt n >>> 8).toUInt8 := by
    have hshift : (UInt16.ofInt n >>> 8).toNat = (UInt16.ofInt n).toNat / 256 := by
      rw [UInt16.toNat_shiftRight]
      exact Nat.shiftRight_eq_div_pow _ 8
    apply UInt8.toNat_inj.1
    rw [UInt16.toNat_toUInt8, UInt8.toNat_ofNat', hshift, hword]
    omega
  rw [littleEndian, littleEndian, littleEndian, wordBytes, hlow, hhigh]

namespace Instruction

/-- The number fills the bytes behind the opcode. -/
theorem operandBytes_withNumber {form : Instruction} (h : form.takesNumber = true) (n : Int) :
    (form.withNumber n).operandBytes = littleEndian form.numberSize n := by
  cases form with
  | arithImm _ _ | loadImm _ _ | storeHigh _ | loadHigh _ => rfl
  | addSP _ | loadHLSP _ | jumpRel _ _ => exact congrArg (fun b => [b]) (toUInt8_ofInt n)
  | loadPairImm _ _ | storeAt _ | loadAt _ | storeSPAt _ | jump _ _ | call _ _ =>
      exact (littleEndian_two n).symm
  | restart _ | bit _ _ _ => rfl
  | _ => cases h

/-- A number behind the opcode has no part in it. -/
theorem opcode_withNumber {form : Instruction} (h : 0 < form.numberSize) (n : Int) :
    (form.withNumber n).opcode = form.opcode := by
  cases form with
  | jump cc _ | jumpRel cc _ | call cc _ => cases cc <;> rfl
  | restart _ | bit _ _ _ => exact absurd h (Nat.lt_irrefl 0)
  | _ => rfl

/-- A bit index has its place in the opcode, whole. -/
theorem bytes_bit (op : BitAction) (r : Reg8) : ∀ index : Fin 8,
    (bit op (UInt8.ofInt index) r).bytes =
      [Opcode.extension, 64 * op.code + 8 * UInt8.ofInt index + r.code] := by
  cases op <;> cases r <;> decide

/-- So does a restart vector. -/
theorem bytes_restart : ∀ k : Fin 8,
    (restart (UInt8.ofInt (8 * k))).bytes = [0xC7 + UInt8.ofInt (8 * k)] := by
  decide

/-- **The number is in the machine code, low byte first.** -/
theorem bytes_withNumber {form : Instruction} {address : UInt16} {q : Quantity}
    (h : form.Window address q) :
    (form.withNumber (form.encoded address q)).bytes =
      form.codeWith (form.encoded address q) := by
  generalize hn : form.encoded address q = n
  cases form with
  | bit op index r =>
      obtain ⟨hlow, hhigh⟩ := h
      obtain rfl : q.value = n := hn
      obtain ⟨k, hk⟩ := Int.eq_ofNat_of_zero_le hlow
      rw [hk]
      exact bytes_bit op r ⟨k, by omega⟩
  | restart vector =>
      obtain ⟨hlow, hhigh, height⟩ := h
      obtain rfl : q.value = n := hn
      obtain ⟨k, hk⟩ : ∃ k : Nat, q.value = 8 * k := ⟨(q.value / 8).toNat, by omega⟩
      rw [hk]
      exact bytes_restart ⟨k, by omega⟩
  | arithImm _ _ | loadImm _ _ | storeHigh _ | loadHigh _ | addSP _ | loadHLSP _ | jumpRel _ _
  | loadPairImm _ _ | storeAt _ | loadAt _ | storeSPAt _ | jump _ _ | call _ _ =>
      rw [bytes, opcode_withNumber, operandBytes_withNumber rfl]
      exacts [rfl, Nat.succ_pos _]
  | _ => exact h.elim

end Instruction

/-! ### The number of an operand -/

/-- The number that a token stands for: a literal has its value, and a symbol the value at the end of
its aliases, with the token that defined it for the origin. -/
inductive Token.StandsForNumber (table : SymbolTable) (scope : Option String) (t : Token) :
    Quantity → Prop
  | literal {v : Int} (hvalue : t.value = some v) : StandsForNumber table scope t ⟨v, none⟩
  | symbol {key : String} {x : Symbol} {v : Int} (hvalue : t.value = none)
      (hshape : t.shape = .ok .immediate ∨ t.shape = .ok .memory)
      (hkey : symbolKey scope t = .ok key) (hx : table[key]? = some x)
      (hv : table.value? key = some v) : StandsForNumber table scope t ⟨v, some x.token⟩

/-- The number goes into the instruction if it is in the window, and otherwise there is a range error
at its operand, which refers to the definition that the number came from. -/
structure EncodedOrRefused (address : UInt16) (form : Instruction) (t : Token) (q : Quantity)
    (result : Except Error Instruction) : Prop where
  encoded : form.Window address q → result = .ok (form.withNumber (form.encoded address q))
  refused : ¬ form.Window address q →
    ∃ cause, cause.kind = .range ∧ result = .error (.referring t cause q.origin)

namespace Context

variable {c : Context} {table : SymbolTable} {t : Token} {q : Quantity} {form : Instruction}

theorem quantity_of_standsForNumber (hc : c.symbols = some table)
    (h : t.StandsForNumber table c.scope q) : c.quantity t = .ok (some q) := by
  cases h with
  | literal hv =>
      rw [quantity, hv]
      rfl
  | symbol hv hshape hkey hx hvalue =>
      have hr := SymbolTable.resolve_eq_ok_iff (t := t).2 ⟨⟨_, hx, rfl⟩, hvalue⟩
      rcases hshape with hshape | hshape <;>
        simp [quantity, hv, hshape, hkey, hc, hr]

/-- With a table of symbols, whatever can be read stands for a number. -/
theorem exists_standsForNumber (hc : c.symbols = some table) {r : Option Quantity}
    (h : c.quantity t = .ok r) : ∃ q, t.StandsForNumber table c.scope q := by
  unfold quantity at h
  split at h
  · rename_i v hv
    exact ⟨_, .literal hv⟩
  · rename_i hv
    obtain ⟨shape, hshape, h⟩ := bind_eq_ok_iff.1 h
    cases shape with
    | immediate | memory =>
        obtain ⟨key, hkey, h⟩ := bind_eq_ok_iff.1 h
        rw [hc] at h
        obtain ⟨⟨v, origin⟩, hr, -⟩ := bind_eq_ok_iff.1 h
        obtain ⟨⟨x, hx, rfl⟩, hvalue⟩ := SymbolTable.resolve_eq_ok_iff.1 hr
        exact ⟨_, .symbol hv (by simp [hshape]) hkey hx hvalue⟩
    | _ => cases h

/-- What a rule says about the number of an operand. -/
theorem encodedOrRefused_checked {α : Type} [OfNat α 0] {rule : Int → Except Cause α}
    (hrange : IsRangeRule rule) (hq : c.quantity t = .ok (some q)) (make : α → Instruction)
    (hin : form.Window c.address q →
      ∃ a, rule q.value = .ok a ∧ make a = form.withNumber (form.encoded c.address q))
    (hout : ¬ form.Window c.address q → ∃ cause, rule q.value = .error cause) :
    EncodedOrRefused c.address form t q (do return make (← c.checked t rule)) where
  encoded hwindow := by
    obtain ⟨a, ha, hmake⟩ := hin hwindow
    rw [← hmake]
    simp [checked, hq, ha]
  refused hwindow := by
    obtain ⟨cause, hcause⟩ := hout hwindow
    refine ⟨cause, hrange _ _ hcause, ?_⟩
    simp only [checked, hq, ok_bind, hcause]
    rfl

/-- A field with a width takes the numbers that the width accepts. -/
theorem encodedOrRefused_field {α : Type} {w : Width} (hq : c.quantity t = .ok (some q))
    (field : Int → α) (make : α → Instruction)
    (hwindow : form.Window c.address q ↔ w.Accepts q.value)
    (hmake : make (field q.value) = form.withNumber (form.encoded c.address q)) :
    EncodedOrRefused c.address form t q
      ((return field (← c.number t w) : Except Error α) >>= fun a => pure (make a)) := by
  rw [bind_assoc]
  refine encodedOrRefused_checked (isRangeRule_check w) hq (fun v => make (field v)) ?_ ?_
  · intro h
    exact ⟨q.value, by rw [Width.check, if_pos (hwindow.1 h)], hmake⟩
  · intro h
    exact ⟨_, by rw [Width.check, if_neg (mt hwindow.2 h)]⟩

/-- The instruction of the given form, with the number of the operand `t`. -/
def fill (c : Context) (t : Token) : Instruction → Except Error Instruction
  | .arithImm op _ => return .arithImm op (← c.byte t)
  | .loadImm r _ => return .loadImm r (← c.byte t)
  | .loadPairImm rr _ => return .loadPairImm rr (← c.word t)
  | .addSP _ => return .addSP (← c.offset t)
  | .loadHLSP _ => return .loadHLSP (← c.offset t)
  | .storeAt _ => return .storeAt (← c.addressWord t)
  | .loadAt _ => return .loadAt (← c.addressWord t)
  | .storeSPAt _ => return .storeSPAt (← c.addressWord t)
  | .storeHigh _ => return .storeHigh (← c.highPageOffset t)
  | .loadHigh _ => return .loadHigh (← c.highPageOffset t)
  | .jump cc _ => return .jump cc (← c.addressWord t)
  | .jumpRel cc _ => return .jumpRel cc (← c.displacement t)
  | .call cc _ => return .call cc (← c.addressWord t)
  | .restart _ => return .restart (← c.restartVector t)
  | .bit op _ r => return .bit op (← c.bitIndex t) r
  | i => return i

/-- The rule of the high page takes an offset or an address in the page. -/
theorem encodedOrRefused_highPage (hq : c.quantity t = .ok (some q)) (make : UInt8 → Instruction)
    (hwindow : form.Window c.address q ↔
      0 ≤ q.value ∧ q.value ≤ 0xFF ∨ 0xFF00 ≤ q.value ∧ q.value ≤ 0xFFFF)
    (hmake : make (UInt8.ofInt (if 0xFF00 ≤ q.value then q.value - 0xFF00 else q.value)) =
      form.withNumber (form.encoded c.address q)) :
    EncodedOrRefused c.address form t q (do return make (← c.highPageOffset t)) := by
  refine encodedOrRefused_checked isRangeRule_highPageRule hq make ?_ ?_
  · intro h
    rw [hwindow] at h
    refine ⟨_, ?_, hmake⟩
    have hoffset : (if 0xFF00 ≤ q.value ∧ q.value ≤ 0xFFFF then q.value - 0xFF00 else q.value) =
        if 0xFF00 ≤ q.value then q.value - 0xFF00 else q.value := by grind
    have haccepts : Width.unsigned8.Accepts
        (if 0xFF00 ≤ q.value then q.value - 0xFF00 else q.value) := by
      simp only [Width.Accepts, Width.low, Width.high]
      grind
    rw [highPageRule, hoffset, if_pos haccepts]
  · intro h
    rw [hwindow] at h
    have hrefused : ¬ Width.unsigned8.Accepts
        (if 0xFF00 ≤ q.value ∧ q.value ≤ 0xFFFF then q.value - 0xFF00 else q.value) := by
      simp only [Width.Accepts, Width.low, Width.high]
      grind
    exact ⟨_, by rw [highPageRule, if_neg hrefused]⟩

theorem encodedOrRefused_restart (hq : c.quantity t = .ok (some q)) (vector : UInt8) :
    EncodedOrRefused c.address (.restart vector) t q (do return .restart (← c.restartVector t)) := by
  refine encodedOrRefused_checked isRangeRule_restartRule hq .restart ?_ ?_
  · intro h
    exact ⟨UInt8.ofInt q.value, if_pos h, rfl⟩
  · intro h
    exact ⟨.notRestartVector q.value, if_neg h⟩

/-- A relative jump takes a literal for the way, and a symbol for the target. -/
theorem encodedOrRefused_displacement (hc : c.symbols = some table)
    (ht : t.StandsForNumber table c.scope q) (cc : Option Condition) (e : Int8) :
    EncodedOrRefused c.address (.jumpRel cc e) t q
      (do return .jumpRel cc (← c.displacement t)) := by
  have hq := quantity_of_standsForNumber hc ht
  cases ht with
  | literal hv =>
      rw [displacement, hv]
      exact encodedOrRefused_field (w := .signed8) hq Int8.ofInt (.jumpRel cc) Iff.rfl rfl
  | @symbol key x v hv hshape hkey hx hvalue =>
      rw [displacement, hv]
      refine encodedOrRefused_checked (isRangeRule_displacementTo c.address) hq (.jumpRel cc) ?_ ?_
      · intro h
        have haccepts : Width.signed8.Accepts (v - (c.address.toNat + 2)) := h
        -- a way that fits in a byte is never taken for one that overflows
        have hfits : FitsWord (v - (c.address.toNat + 2)) := by
          obtain ⟨hlow, hhigh⟩ := haccepts
          simp only [Width.low, Width.high] at hlow hhigh
          simp only [FitsWord]
          omega
        refine ⟨Int8.ofInt (v - (c.address.toNat + 2)), ?_, rfl⟩
        simp [displacementTo, hfits, haccepts]
      · intro h
        have hrefused : ¬ Width.signed8.Accepts (v - (c.address.toNat + 2)) := h
        by_cases hfits : FitsWord (v - (c.address.toNat + 2))
        · exact ⟨.outOfReach v (v - (c.address.toNat + 2)), by simp [displacementTo, hfits, hrefused]⟩
        · exact ⟨.farOutOfReach v, by simp [displacementTo, hfits]⟩

/-- **A number is encoded exactly, or there is a range error at its operand.** -/
theorem encodedOrRefused_fill (hc : c.symbols = some table)
    (ht : t.StandsForNumber table c.scope q) (hform : form.takesNumber = true) :
    EncodedOrRefused c.address form t q (c.fill t form) := by
  have hq := quantity_of_standsForNumber hc ht
  -- the windows are the widths of the fields, except where a number has a rule of its own
  cases form with
  | arithImm op n => exact encodedOrRefused_field hq _ (.arithImm op) Iff.rfl rfl
  | loadImm r n => exact encodedOrRefused_field hq _ (.loadImm r) Iff.rfl rfl
  | loadPairImm rr nn => exact encodedOrRefused_field hq _ (.loadPairImm rr) Iff.rfl rfl
  | addSP e => exact encodedOrRefused_field hq _ .addSP Iff.rfl rfl
  | loadHLSP e => exact encodedOrRefused_field hq _ .loadHLSP Iff.rfl rfl
  | storeAt nn => exact encodedOrRefused_field hq _ .storeAt Iff.rfl rfl
  | loadAt nn => exact encodedOrRefused_field hq _ .loadAt Iff.rfl rfl
  | storeSPAt nn => exact encodedOrRefused_field hq _ .storeSPAt Iff.rfl rfl
  | storeHigh n => exact encodedOrRefused_highPage hq .storeHigh Iff.rfl rfl
  | loadHigh n => exact encodedOrRefused_highPage hq .loadHigh Iff.rfl rfl
  | jump cc nn => exact encodedOrRefused_field hq _ (.jump cc) Iff.rfl rfl
  | jumpRel cc e => exact encodedOrRefused_displacement hc ht cc e
  | call cc nn => exact encodedOrRefused_field hq _ (.call cc) Iff.rfl rfl
  | restart vector => exact encodedOrRefused_restart hq vector
  | bit op index r => exact encodedOrRefused_field hq _ (.bit op · r) Iff.rfl rfl
  | _ => cases hform

end Context

/-! ### The forms with a number -/

/-- The operands are two, with a comma between them. -/
def AreTwo (first second : Token) (tokens : List Token) : Prop :=
  ∃ comma, comma.isComma = true ∧ tokens = [first, comma, second]

/-- The operands of a branch are its target, behind the condition if there is one. -/
inductive AreBranch (target : Token) : Option Condition → List Token → Prop
  | always : AreBranch target none [target]
  | onlyIf {first : Token} {cond : Condition} {tokens : List Token}
      (hcond : first.condition = .ok cond) (htwo : AreTwo first target tokens) :
      AreBranch target (some cond) tokens

/-- The mnemonic and the operands select a form of instruction, and the operand `t` is its number.  The
form has a zero in the place of the number. -/
inductive HasNumber (t : Token) : Mnemonic → List Token → Instruction → Prop
  | arith {op : Arith} (ht : t.shape = .ok .immediate) : HasNumber t (.arith op) [t] (.arithImm op 0)
  | arithToA {op : Arith} {dst : Token} {tokens : List Token} (htwo : AreTwo dst t tokens)
      (hdst : dst.shape = .ok (.reg8 .a)) (ht : t.shape = .ok .immediate) :
      HasNumber t (.arith op) tokens (.arithImm op 0)
  | addSP {dst : Token} {tokens : List Token} (htwo : AreTwo dst t tokens)
      (hdst : dst.shape = .ok (.reg16 .sp)) : HasNumber t (.arith .add) tokens (.addSP 0)
  | loadImm {r : Reg8} {dst : Token} {tokens : List Token} (htwo : AreTwo dst t tokens)
      (hdst : dst.shape = .ok (.reg8 r)) (ht : t.shape = .ok .immediate) :
      HasNumber t .ld tokens (.loadImm r 0)
  | loadPairImm {rr : Reg16} {dst : Token} {tokens : List Token} (htwo : AreTwo dst t tokens)
      (hdst : dst.shape = .ok (.reg16 rr)) (ht : t.shape = .ok .immediate) :
      HasNumber t .ld tokens (.loadPairImm rr 0)
  | loadHLSP {dst : Token} {tokens : List Token} (htwo : AreTwo dst t tokens)
      (hdst : dst.shape = .ok (.reg16 .hl)) (ht : t.shape = .ok .spOffset) :
      HasNumber t .ld tokens (.loadHLSP 0)
  | storeSPAt {src : Token} {tokens : List Token} (htwo : AreTwo t src tokens)
      (ht : t.shape = .ok .memory) (hsrc : src.shape = .ok (.reg16 .sp)) :
      HasNumber t .ld tokens (.storeSPAt 0)
  | storeAt {src : Token} {tokens : List Token} (htwo : AreTwo t src tokens)
      (ht : t.shape = .ok .memory) (hsrc : src.shape = .ok (.reg8 .a)) :
      HasNumber t .ld tokens (.storeAt 0)
  | loadAt {dst : Token} {tokens : List Token} (htwo : AreTwo dst t tokens)
      (hdst : dst.shape = .ok (.reg8 .a)) (ht : t.shape = .ok .memory) :
      HasNumber t .ld tokens (.loadAt 0)
  | storeHigh {src : Token} {tokens : List Token} (htwo : AreTwo t src tokens)
      (ht : t.shape = .ok .memory) (hsrc : src.shape = .ok (.reg8 .a)) :
      HasNumber t .ldh tokens (.storeHigh 0)
  | loadHigh {dst : Token} {tokens : List Token} (htwo : AreTwo dst t tokens)
      (hdst : dst.shape = .ok (.reg8 .a)) (ht : t.shape = .ok .memory) :
      HasNumber t .ldh tokens (.loadHigh 0)
  | jump {cc : Option Condition} {tokens : List Token} {shape : Shape}
      (hbranch : AreBranch t cc tokens) (ht : t.shape = .ok shape)
      (hnotHL : cc = none → shape ≠ .reg16 .hl ∧ shape ≠ .reg8 .atHL) :
      HasNumber t .jp tokens (.jump cc 0)
  | jumpRel {cc : Option Condition} {tokens : List Token} (hbranch : AreBranch t cc tokens) :
      HasNumber t .jr tokens (.jumpRel cc 0)
  | call {cc : Option Condition} {tokens : List Token} (hbranch : AreBranch t cc tokens) :
      HasNumber t .call tokens (.call cc 0)
  | restart : HasNumber t .rst [t] (.restart 0)
  | bit {op : BitAction} {r : Reg8} {reg : Token} {tokens : List Token} (htwo : AreTwo t reg tokens)
      (hreg : reg.shape = .ok (.reg8 r)) : HasNumber t (.bit op) tokens (.bit op 0 r)

theorem HasNumber.takesNumber {t : Token} {m : Mnemonic} {tokens : List Token} {form : Instruction}
    (h : HasNumber t m tokens form) : form.takesNumber = true := by
  cases h <;> rfl

theorem areTwo_iff {name first second : Token} {tokens : List Token} :
    AreTwo first second tokens ↔ takeTwo name tokens = .ok (first, second, []) := by
  constructor
  · rintro ⟨comma, hcomma, rfl⟩
    exact takeTwo_eq hcomma
  · exact eq_of_takeTwo

theorem areBranch_iff {name target : Token} {cc : Option Condition} {tokens : List Token} :
    AreBranch target cc tokens ↔ takeBranch name tokens = .ok (cc, target, []) := by
  constructor
  · rintro (_ | ⟨hcond, comma, hcomma, rfl⟩)
    · rfl
    · simp [takeBranch, takeOne, hcomma, hcond]
  · intro h
    rcases eq_of_takeBranch h with ⟨rfl, rfl⟩ | ⟨first, comma, cond, hcond, hcomma, rfl, rfl⟩
    · exact .always
    · exact .onlyIf hcond ⟨comma, hcomma, rfl⟩

namespace Context

variable {c : Context} {table : SymbolTable} {t name : Token} {m : Mnemonic} {tokens : List Token}

theorem select_of_areTwo_ld {dst src : Token} (h : AreTwo dst src tokens) :
    c.select .ld name tokens = c.load dst src := by
  obtain ⟨comma, hcomma, rfl⟩ := h
  exact c.select_ld name hcomma

theorem select_of_areTwo_ldh {dst src : Token} (h : AreTwo dst src tokens) :
    c.select .ldh name tokens = c.loadHighPage dst src := by
  apply select_eq_of_front
  rw [selectFront, areTwo_iff.1 h, ok_bind]

theorem select_of_areTwo_arith {op : Arith} {dst src : Token} (h : AreTwo dst src tokens) :
    c.select (.arith op) name tokens = c.arithTo op dst src := by
  apply select_eq_of_front
  have htake : takeTwo name tokens = .ok (dst, src, []) := areTwo_iff.1 h
  obtain ⟨comma, hcomma, rfl⟩ := h
  rw [selectFront, isLongForm, if_pos hcomma, htake, ok_bind]

end Context

namespace HasNumber

variable {c : Context} {t name : Token} {m : Mnemonic} {tokens : List Token} {form : Instruction}

/-- **The operands select the form, and its number alone is left to be read.** -/
theorem select_eq (h : HasNumber t m tokens form) : c.select m name tokens = c.fill t form := by
  cases h with
  | arith ht =>
      apply Context.select_eq_of_front
      simp only [Context.selectFront, isLongForm, takeOne, Context.arithSource, ht, ok_bind]
      rfl
  | @arithToA op dst tokens htwo hdst ht =>
      rw [Context.select_of_areTwo_arith htwo, Context.arithTo, hdst]
      have hA := Token.expectA_eq_ok_iff.2 hdst
      cases op <;> simp only [ok_bind, hA, Context.arithSource, ht, Context.fill]
  | addSP htwo hdst =>
      rw [Context.select_of_areTwo_arith htwo, Context.arithTo, hdst]
      rfl
  | @loadImm r dst tokens htwo hdst ht =>
      rw [Context.select_of_areTwo_ld htwo, Context.load, hdst, ht]
      -- the pattern for a load between registers comes first, so the register has to be known
      cases r <;> rfl
  | @loadPairImm rr dst tokens htwo hdst ht =>
      rw [Context.select_of_areTwo_ld htwo, Context.load, hdst, ht]
      cases rr <;> rfl
  | loadHLSP htwo hdst ht =>
      rw [Context.select_of_areTwo_ld htwo, Context.load, hdst, ht]
      rfl
  | storeSPAt htwo ht hsrc =>
      rw [Context.select_of_areTwo_ld htwo, Context.load, hsrc, ht]
      rfl
  | storeAt htwo ht hsrc =>
      rw [Context.select_of_areTwo_ld htwo, Context.load, Token.expectA_eq_ok_iff.2 hsrc, hsrc, ht]
      rfl
  | loadAt htwo hdst ht =>
      rw [Context.select_of_areTwo_ld htwo, Context.load, Token.expectA_eq_ok_iff.2 hdst, hdst, ht]
      rfl
  | storeHigh htwo ht hsrc =>
      rw [Context.select_of_areTwo_ldh htwo, Context.loadHighPage, Token.expectA_eq_ok_iff.2 hsrc,
        hsrc, ht]
      rfl
  | loadHigh htwo hdst ht =>
      rw [Context.select_of_areTwo_ldh htwo, Context.loadHighPage, Token.expectA_eq_ok_iff.2 hdst,
        hdst, ht]
      rfl
  | @jump cc tokens shape hbranch ht hnotHL =>
      apply Context.select_eq_of_front
      rw [Context.selectFront, areBranch_iff.1 hbranch, ok_bind]
      dsimp only
      rw [Context.jumpTo, ht, ok_bind]
      split
      · exact absurd rfl (hnotHL rfl).1
      · exact absurd rfl (hnotHL rfl).2
      · rfl
  | jumpRel hbranch =>
      apply Context.select_eq_of_front
      rw [Context.selectFront, areBranch_iff.1 hbranch, ok_bind]
      simp only [Context.fill, bind_assoc, pure_bind]
  | call hbranch =>
      apply Context.select_eq_of_front
      rw [Context.selectFront, areBranch_iff.1 hbranch, ok_bind]
      simp only [Context.fill, bind_assoc, pure_bind]
  | restart =>
      apply Context.select_eq_of_front
      simp only [Context.selectFront, takeOne, ok_bind, Context.fill, bind_assoc, pure_bind]
  | bit htwo hreg =>
      apply Context.select_eq_of_front
      rw [Context.selectFront, areTwo_iff.1 htwo, ok_bind]
      simp only [Token.reg8_eq_ok_iff.2 hreg, ok_bind, Context.fill, bind_assoc, pure_bind]

end HasNumber

namespace Context

open Instruction

variable {c : Context} {t dst src name : Token} {m : Mnemonic} {tokens : List Token} {i : Instruction}

/-! ### There are no other numbers -/

/-- The operand `t` can be read as a number. -/
def HasQuantity (c : Context) (t : Token) : Prop :=
  ∃ q, c.quantity t = .ok q

/-- If the instruction takes a number, the operands are one of the forms and the number can be read. -/
def NumberRead (c : Context) (m : Mnemonic) (tokens : List Token) (i : Instruction) : Prop :=
  i.takesNumber = true → ∃ t, HasNumber t m tokens i.erase ∧ c.HasQuantity t

theorem hasQuantity_checked {α : Type} [OfNat α 0] (rule : Int → Except Cause α) :
    Gives (c.checked t rule) fun _ => c.HasQuantity t := by
  intro a h
  obtain ⟨q, hq, -⟩ := bind_eq_ok_iff.1 h
  exact ⟨q, hq⟩

theorem hasQuantity_field {α : Type} (w : Width) (field : Int → α) :
    Gives (return field (← c.number t w) : Except Error α) fun _ => c.HasQuantity t :=
  (hasQuantity_checked w.check).bind fun _ h => Gives.pure h

theorem hasQuantity_displacement : Gives (c.displacement t) fun _ => c.HasQuantity t := by
  unfold displacement
  split
  · exact hasQuantity_field _ _
  · exact hasQuantity_checked _

/-- Without a number there is nothing to say. -/
theorem numberRead_of_none (hi : i.takesNumber = false) : c.NumberRead m tokens i := by
  intro h
  rw [hi] at h
  cases h

theorem numberRead_arithSource {op : Arith}
    (h : src.shape = .ok .immediate → HasNumber src (.arith op) tokens (.arithImm op 0)) :
    Gives (c.arithSource op src) (c.NumberRead (.arith op) tokens) := by
  refine (Gives.self src.shape).bind fun shape hshape => ?_
  cases shape with
  | reg8 r => exact Gives.pure (numberRead_of_none rfl)
  | immediate =>
      exact (hasQuantity_field _ _).bind fun _ hreads => Gives.pure fun _ => ⟨src, h hshape, hreads⟩
  | _ => exact Gives.throw _

theorem numberRead_arithTo {op : Arith} (htwo : AreTwo dst src tokens) :
    Gives (c.arithTo op dst src) (c.NumberRead (.arith op) tokens) := by
  refine (Gives.self dst.shape).bind fun shape hdst => ?_
  split
  · exact Gives.bind_any fun _ => Gives.pure (numberRead_of_none rfl)
  · exact (hasQuantity_field _ _).bind fun _ hreads =>
      Gives.pure fun _ => ⟨src, .addSP htwo hdst, hreads⟩
  · refine (Gives.self dst.expectA).bind fun _ hA => ?_
    exact numberRead_arithSource (.arithToA htwo (Token.expectA_eq_ok_iff.1 hA))

theorem numberRead_load (htwo : AreTwo dst src tokens) :
    Gives (c.load dst src) (c.NumberRead .ld tokens) := by
  refine (Gives.self dst.shape).bind fun shape hdst => ?_
  refine (Gives.self src.shape).bind fun shape' hsrc => ?_
  have hA (t : Token) := Gives.self t.expectA
  split
  case h_1 | h_14 => exact Gives.throw _
  case h_2 | h_5 => exact Gives.pure (numberRead_of_none rfl)
  case h_8 | h_9 | h_12 | h_13 =>
    exact Gives.bind_any fun _ => Gives.pure (numberRead_of_none rfl)
  case h_3 =>
    exact (hasQuantity_field _ _).bind fun _ h => Gives.pure fun _ => ⟨src, .loadImm htwo hdst hsrc, h⟩
  case h_4 =>
    exact (hasQuantity_field _ _).bind fun _ h => Gives.pure fun _ => ⟨src, .loadPairImm htwo hdst hsrc, h⟩
  case h_6 =>
    exact (hasQuantity_field _ _).bind fun _ h => Gives.pure fun _ => ⟨src, .loadHLSP htwo hdst hsrc, h⟩
  case h_7 =>
    exact (hasQuantity_field _ _).bind fun _ h => Gives.pure fun _ => ⟨dst, .storeSPAt htwo hdst hsrc, h⟩
  case h_10 =>
    exact (hA src).bind fun _ ha => (hasQuantity_field _ _).bind fun _ h =>
      Gives.pure fun _ => ⟨dst, .storeAt htwo hdst (Token.expectA_eq_ok_iff.1 ha), h⟩
  case h_11 =>
    exact (hA dst).bind fun _ ha => (hasQuantity_field _ _).bind fun _ h =>
      Gives.pure fun _ => ⟨src, .loadAt htwo (Token.expectA_eq_ok_iff.1 ha) hsrc, h⟩

theorem numberRead_loadHighPage (htwo : AreTwo dst src tokens) :
    Gives (c.loadHighPage dst src) (c.NumberRead .ldh tokens) := by
  refine (Gives.self dst.shape).bind fun shape hdst => ?_
  refine (Gives.self src.shape).bind fun shape' hsrc => ?_
  have hA (t : Token) := Gives.self t.expectA
  split
  · exact Gives.bind_any fun _ => Gives.pure (numberRead_of_none rfl)
  · exact Gives.bind_any fun _ => Gives.pure (numberRead_of_none rfl)
  · exact (hA src).bind fun _ ha => (hasQuantity_checked _).bind fun _ h =>
      Gives.pure fun _ => ⟨dst, .storeHigh htwo hdst (Token.expectA_eq_ok_iff.1 ha), h⟩
  · exact (hA dst).bind fun _ ha => (hasQuantity_checked _).bind fun _ h =>
      Gives.pure fun _ => ⟨src, .loadHigh htwo (Token.expectA_eq_ok_iff.1 ha) hsrc, h⟩
  · exact Gives.throw _

theorem numberRead_jumpTo {cc : Option Condition} (hbranch : AreBranch t cc tokens) :
    Gives (c.jumpTo cc t) (c.NumberRead .jp tokens) := by
  refine (Gives.self t.shape).bind fun shape hshape => ?_
  split
  case h_1 | h_2 => exact Gives.pure (numberRead_of_none rfl)
  case h_3 hhl hatHL =>
    refine (hasQuantity_field _ _).bind fun _ h => Gives.pure fun _ => ⟨t, .jump hbranch hshape ?_, h⟩
    intro hcc
    exact ⟨hhl hcc, hatHL hcc⟩

theorem takesNumber_step {byte : Reg8 → Instruction} {pair : Reg16 → Instruction}
    (hbyte : ∀ r, (byte r).takesNumber = false) (hpair : ∀ rr, (pair rr).takesNumber = false) :
    Gives (step byte pair t) fun i => i.takesNumber = false := by
  refine Gives.bind_any fun shape => ?_
  cases shape with
  | reg8 r => exact Gives.pure (hbyte r)
  | reg16 rr => exact Gives.pure (hpair rr)
  | _ => exact Gives.throw _

theorem takesNumber_loadStep {p : Pointer} :
    Gives (loadStep p dst src) fun i => i.takesNumber = false := by
  refine Gives.bind_any fun shape => Gives.bind_any fun shape' => ?_
  split
  · exact Gives.bind_any fun _ => Gives.pure rfl
  · exact Gives.bind_any fun _ => Gives.pure rfl
  · exact Gives.throw _

/-- **Whatever is selected with a number is one of the forms**, and its number can be read. -/
theorem exists_hasNumber (hselect : c.select m name tokens = .ok i) :
    c.NumberRead m tokens i := by
  have hone {u : Token} (h : takeOne name tokens = .ok (u, [])) : tokens = [u] := eq_of_takeOne h
  have h := selectFront_of_select hselect
  -- the mnemonics that never take a number come last
  cases m with
  | arith op =>
      simp only [selectFront] at h
      split at h
      · obtain ⟨⟨dst, src, rest⟩, htake, h⟩ := bind_eq_ok_iff.1 h
        obtain ⟨j, hj, h⟩ := bind_eq_ok_iff.1 h
        cases h
        exact numberRead_arithTo (areTwo_iff.2 htake) i hj
      · obtain ⟨⟨src, rest⟩, htake, h⟩ := bind_eq_ok_iff.1 h
        obtain ⟨j, hj, h⟩ := bind_eq_ok_iff.1 h
        cases h
        rw [hone htake]
        exact numberRead_arithSource .arith i hj
  | bit op =>
      obtain ⟨⟨index, reg, rest⟩, htake, h⟩ := bind_eq_ok_iff.1 h
      obtain ⟨r, hr, h⟩ := bind_eq_ok_iff.1 h
      obtain ⟨b, hb, h⟩ := bind_eq_ok_iff.1 h
      cases h
      intro _
      exact ⟨index, .bit (areTwo_iff.2 htake) (Token.reg8_eq_ok_iff.1 hr), hasQuantity_field _ _ b hb⟩
  | jp =>
      obtain ⟨⟨cc, target, rest⟩, htake, h⟩ := bind_eq_ok_iff.1 h
      obtain ⟨j, hj, h⟩ := bind_eq_ok_iff.1 h
      cases h
      exact numberRead_jumpTo (areBranch_iff.2 htake) i hj
  | jr =>
      obtain ⟨⟨cc, target, rest⟩, htake, h⟩ := bind_eq_ok_iff.1 h
      obtain ⟨d, hd, h⟩ := bind_eq_ok_iff.1 h
      cases h
      intro _
      exact ⟨target, .jumpRel (areBranch_iff.2 htake), hasQuantity_displacement d hd⟩
  | call =>
      obtain ⟨⟨cc, target, rest⟩, htake, h⟩ := bind_eq_ok_iff.1 h
      obtain ⟨nn, hnn, h⟩ := bind_eq_ok_iff.1 h
      cases h
      intro _
      exact ⟨target, .call (areBranch_iff.2 htake), hasQuantity_field _ _ nn hnn⟩
  | rst =>
      obtain ⟨⟨t, rest⟩, htake, h⟩ := bind_eq_ok_iff.1 h
      obtain ⟨v, hv, h⟩ := bind_eq_ok_iff.1 h
      cases h
      rw [hone htake]
      intro _
      exact ⟨t, .restart, hasQuantity_checked _ v hv⟩
  | ld =>
      obtain ⟨⟨dst, src, rest⟩, htake, h⟩ := bind_eq_ok_iff.1 h
      obtain ⟨j, hj, h⟩ := bind_eq_ok_iff.1 h
      cases h
      exact numberRead_load (areTwo_iff.2 htake) i hj
  | ldh =>
      obtain ⟨⟨dst, src, rest⟩, htake, h⟩ := bind_eq_ok_iff.1 h
      obtain ⟨j, hj, h⟩ := bind_eq_ok_iff.1 h
      cases h
      exact numberRead_loadHighPage (areTwo_iff.2 htake) i hj
  | implied op =>
      cases h
      exact numberRead_of_none rfl
  | inc | dec =>
      obtain ⟨⟨t, rest⟩, -, h⟩ := bind_eq_ok_iff.1 h
      obtain ⟨j, hj, h⟩ := bind_eq_ok_iff.1 h
      cases h
      exact numberRead_of_none (takesNumber_step (fun _ => rfl) (fun _ => rfl) i hj)
  | rotate op | push | pop =>
      obtain ⟨⟨t, rest⟩, -, h⟩ := bind_eq_ok_iff.1 h
      obtain ⟨r, -, h⟩ := bind_eq_ok_iff.1 h
      cases h
      exact numberRead_of_none rfl
  | ret =>
      cases tokens with
      | nil =>
          cases h
          exact numberRead_of_none rfl
      | cons t rest =>
          obtain ⟨cc, -, h⟩ := bind_eq_ok_iff.1 h
          cases h
          exact numberRead_of_none rfl
  | ldi | ldd =>
      obtain ⟨⟨dst, src, rest⟩, -, h⟩ := bind_eq_ok_iff.1 h
      obtain ⟨j, hj, h⟩ := bind_eq_ok_iff.1 h
      cases h
      exact numberRead_of_none (takesNumber_loadStep i hj)

end Context

/-! ### The instructions of a source -/

/-- A number that is in the window is encoded, and any other refused. -/
theorem EncodedOrRefused.exists_ok_iff {address : UInt16} {form : Instruction} {t : Token}
    {q : Quantity} {result : Except Error Instruction}
    (h : EncodedOrRefused address form t q result) :
    (∃ i, result = .ok i) ↔ form.Window address q := by
  constructor
  · rintro ⟨i, rfl⟩
    by_contra hwindow
    obtain ⟨cause, -, herror⟩ := h.refused hwindow
    cases herror
  · intro hwindow
    exact ⟨_, h.encoded hwindow⟩

/-- A symbol so far away that the way there is no word is refused as well. -/
theorem Context.displacement_of_far {c : Context} {table : SymbolTable} {t : Token} {q : Quantity}
    (hc : c.symbols = some table) (ht : t.StandsForNumber table c.scope q) (hvalue : t.value = none)
    (hfar : ¬ FitsWord (q.value - (c.address.toNat + 2))) :
    c.displacement t = .error (.referring t (.farOutOfReach q.value) q.origin) := by
  have hq := quantity_of_standsForNumber hc ht
  simp only [displacement, hvalue, checked, hq, ok_bind, displacementTo, hfar, not_false_eq_true,
    if_true]
  rfl

namespace Pending

/-- **No number is cut to fit.**  Let the operands of an instruction select a form with a number, and
let the operand in its place stand for a number, as a literal or as a symbol.  The instruction is
built if and only if the number is in the window of the form.  It has then exactly this number, or the
way to it in a relative jump, or its offset in the high page; and the number stands in the machine code,
low byte first.  Otherwise there is a range error at the operand, which refers to the definition of the
symbol if there is one.  This goes for numbers of any size, also where the way to the target of a
relative jump is no word.  And there are no other instructions with a number. -/
theorem number_encoded_or_refused (p : Pending) (table : SymbolTable) :
    (∀ form t q, HasNumber t p.mnemonic p.operands form → t.StandsForNumber table p.scope q →
      ((∃ i, p.build (some table) = .ok i) ↔ form.Window p.address q) ∧
      (∀ i, p.build (some table) = .ok i → i = form.withNumber (form.encoded p.address q) ∧
        i.bytes = form.codeWith (form.encoded p.address q)) ∧
      (∀ e, p.build (some table) = .error e → e.kind = .range ∧ e.span = t.span ∧
        e.reference = q.origin.map Token.span) ∧
      (p.mnemonic = .jr → t.value = none → ¬ FitsWord (q.value - (p.address.toNat + 2)) →
        p.build (some table) = .error (.referring t (.farOutOfReach q.value) q.origin))) ∧
    ∀ i, p.build (some table) = .ok i → i.takesNumber = true →
      ∃ t q, HasNumber t p.mnemonic p.operands i.erase ∧ t.StandsForNumber table p.scope q := by
  constructor
  · intro form t q hform ht
    let c : Context := ⟨some table, p.scope, p.address⟩
    have hbuild : p.build (some table) = c.fill t form := hform.select_eq
    have hfill : EncodedOrRefused p.address form t q (p.build (some table)) := by
      rw [hbuild]
      exact Context.encodedOrRefused_fill (c := c) rfl ht hform.takesNumber
    refine ⟨hfill.exists_ok_iff, ?_, ?_, ?_⟩
    · intro i hi
      have hwindow := hfill.exists_ok_iff.1 ⟨i, hi⟩
      obtain rfl := Except.ok.inj (hi.symm.trans (hfill.encoded hwindow))
      exact ⟨rfl, Instruction.bytes_withNumber hwindow⟩
    · intro e he
      have hwindow : ¬ form.Window p.address q := by
        intro hwindow
        cases he.symm.trans (hfill.encoded hwindow)
      obtain ⟨cause, hrange, herror⟩ := hfill.refused hwindow
      obtain rfl := Except.error.inj (he.symm.trans herror)
      exact ⟨hrange, rfl, rfl⟩
    · intro hjr hvalue hfar
      rw [hjr] at hform
      cases hform
      have hd := Context.displacement_of_far (c := c) rfl ht hvalue hfar
      rw [hbuild, Context.fill, hd]
      rfl
  · intro i hi hnumber
    obtain ⟨t, hform, _, hq⟩ := Context.exists_hasNumber hi hnumber
    obtain ⟨q, ht⟩ := Context.exists_standsForNumber rfl hq
    exact ⟨t, q, hform, ht⟩

/-- The instruction of the line `JR NZ, TARGET` at the address 0x150. -/
def jumpToTarget : Pending :=
  ⟨.jr, ⟨.identifier, "JR", ⟨2, 1⟩, none⟩,
    [⟨.identifier, "NZ", ⟨2, 4⟩, none⟩, ⟨.comma, ",", ⟨2, 6⟩, none⟩,
      ⟨.identifier, "TARGET", ⟨2, 8⟩, none⟩], 0x150, none⟩

/-- The table in which TARGET is the constant `v`. -/
def tableOfTarget (v : Int) : SymbolTable :=
  (∅ : SymbolTable).insert "TARGET" ⟨.constant, .value v, ⟨.identifier, "TARGET", ⟨1, 1⟩, none⟩⟩

/-- The way to 0x140 is encoded as it is.  The way to the least constant that can be written is no word,
and the jump there is refused with a reference to the constant. -/
theorem number_encoded_or_refused_target :
    jumpToTarget.build (some (tableOfTarget 0x140)) = .ok (.jumpRel (some .nz) (-18)) ∧
    (Instruction.jumpRel (some .nz) (-18)).bytes = [0x20, 0xEE] ∧
    jumpToTarget.build (some (tableOfTarget (-0x80000000))) =
      .error ⟨.farOutOfReach (-0x80000000), ⟨⟨2, 8⟩, 6⟩, some ⟨⟨1, 1⟩, 6⟩⟩ := by
  have hform : HasNumber ⟨.identifier, "TARGET", ⟨2, 8⟩, none⟩ jumpToTarget.mnemonic
      jumpToTarget.operands (.jumpRel (some .nz) 0) := .jumpRel (.onlyIf rfl ⟨_, rfl, rfl⟩)
  have htarget (v : Int) : Token.StandsForNumber (tableOfTarget v) none
      ⟨.identifier, "TARGET", ⟨2, 8⟩, none⟩ ⟨v, some ⟨.identifier, "TARGET", ⟨1, 1⟩, none⟩⟩ := by
    have hx : (tableOfTarget v)["TARGET"]? =
        some ⟨.constant, .value v, ⟨.identifier, "TARGET", ⟨1, 1⟩, none⟩⟩ := by
      simp [tableOfTarget]
    exact .symbol rfl (.inl rfl) rfl hx rfl
  have hwindow : -128 ≤ (0x140 : Int) - (0x150 + 2) ∧ (0x140 : Int) - (0x150 + 2) ≤ 127 := by decide
  obtain ⟨hiff, hbytes, -, -⟩ :=
    (number_encoded_or_refused jumpToTarget (tableOfTarget 0x140)).1 _ _ _ hform (htarget 0x140)
  obtain ⟨i, hi⟩ := hiff.2 hwindow
  obtain ⟨hi', hcode⟩ := hbytes i hi
  obtain rfl : i = .jumpRel (some .nz) (-18) := by
    rw [hi']
    decide +kernel
  obtain ⟨-, -, -, hfar⟩ :=
    (number_encoded_or_refused jumpToTarget (tableOfTarget (-0x80000000))).1 _ _ _ hform (htarget _)
  refine ⟨hi, ?_, ?_⟩
  · rw [hcode]
    decide
  · rw [hfar rfl rfl (by decide)]
    rfl

end Pending

end GameBoyAssembler
