import GameBoyAssembler.Proofs.Addresses
import GameBoyAssembler.Proofs.Aliases
import GameBoyAssembler.Proofs.Labels

/-!
# Branches reach their targets

The target of a jump, a call or a relative jump can be a symbol.  Its value is known only when all
lines are laid out, whether its definition stands before the branch or behind it.  This module follows
a symbol from the operand to the machine code: the scope of the instruction gives its key, aliases
lead from the key to a value, and the value is the address of the branch, or for a relative jump the
place that is reached from behind it.

Main definitions:

* `Token.IsReference` — a token that names a symbol;
* `SymbolTable.Denotes` — what a key stands for, with aliases followed;
* `SymbolTable.Means` — what a token stands for in a scope;
* `bytesBefore` — the bytes of the instructions that are written before some place.

Main results:

* `Context.checked_reference` — the number of an operand that names a symbol is what the symbol means;
* `Context.means_of_addressWord`, `Context.means_of_displacement` — the operand of a branch is what its
  symbol means, or the way there;
* `Program.labels_and_targets` — **labels and branches hit their target**.
-/

set_option relaxedAutoImplicit false
set_option autoImplicit false

namespace GameBoyAssembler

/-! ### Tokens that name a symbol -/

namespace Token

/-- The token names a symbol: a local label, or a name that is not reserved. -/
def IsReference (t : Token) : Prop :=
  t.kind = .localLabel ∨ t.kind = .identifier ∧ isRegisterName t.text = false

instance (t : Token) : Decidable t.IsReference :=
  inferInstanceAs (Decidable (_ ∨ _))

/-- A name that is not reserved stands for memory in brackets, and for a number without. -/
theorem shape_of_name {t : Token} (hkind : t.kind = .identifier)
    (hname : isRegisterName t.text = false) :
    t.shape = .ok (if t.isBracketed then .memory else .immediate) := by
  have hAF : sameLetters t.text "AF" = false := by
    cases haf : sameLetters t.text "AF" with
    | false => rfl
    | true =>
        have hpair : (StackPair.ofName? t.text).isSome = true := by
          refine List.find?_isSome.2 ⟨.af, by decide, ?_⟩
          rw [sameLetters_iff] at haf ⊢
          exact haf.symm
        simp [isRegisterName, hpair] at hname
  have hreserved := hname
  simp only [isRegisterName, Bool.or_eq_false_iff, Option.isSome_eq_false_iff,
    Option.isNone_iff_eq_none] at hname
  obtain ⟨⟨⟨⟨⟨h8, h16⟩, -⟩, hpointer⟩, hhigh⟩, -⟩ := hname
  simp only [shape, hkind, Shape.ofName, h8, h16, hpointer, hAF, hhigh, hreserved]
  cases t.isBracketed <;> simp

/-- A name that is not reserved has the shape of a number or of memory. -/
theorem shape_of_isReference {t : Token} (h : t.IsReference) :
    t.shape = .ok .immediate ∨ t.shape = .ok .memory := by
  rcases h with hkind | ⟨hkind, hname⟩
  · simp [shape, hkind]
  · rw [shape_of_name hkind hname]
    cases t.isBracketed
    · exact Or.inl rfl
    · exact Or.inr rfl

theorem value_ofText {kind : TokenKind} {text : String} {pos : Position} {t : Token}
    (h : ofText kind text pos = .ok t) (hkind : t.kind.isNumeric = false) : t.value = none := by
  unfold ofText at h
  split at h
  · rename_i hnumeric
    split at h
    · cases h
      rw [hnumeric] at hkind
      cases hkind
    · cases h
  · cases h
    rfl

end Token

namespace Cursor

/-- An item is read by a cursor that was reached reading by reading. -/
theorem exists_next_of_mem {I : Cursor → Prop} (hnext : ∀ c, I c → I c.next.2) {c : Cursor}
    (hc : I c) {item : Item} (h : item ∈ c.items) : ∃ d : Cursor, I d ∧ d.next.1 = item := by
  induction c using Cursor.items.induct with
  | case1 c hend =>
      rw [items, if_pos hend] at h
      exact ⟨c, hc, (List.mem_singleton.1 h).symm⟩
  | case2 c hend ih =>
      rw [items, if_neg hend] at h
      rcases List.mem_cons.1 h with rfl | h
      · exact ⟨c, hc, rfl⟩
      · exact ih (hnext c hc) h

/-- Only a token of a number kind has a value. -/
theorem value_of_next {c : Cursor} {t : Token} (h : c.next.1 = .ok t)
    (hkind : t.kind.isNumeric = false) : t.value = none := by
  simp only [next, lineBreak, word] at h
  split at h
  · exact Token.value_ofText h hkind
  · split at h
    · cases h
    · cases h
    · exact Token.value_ofText h hkind

end Cursor

namespace Line

/-- What stands on a line is one of the items, and no line end. -/
theorem mem_of_mem_ofItems {items : List Item} {l : Line} {item : Item} (hl : l ∈ ofItems items)
    (h : item ∈ l.items) : item ∈ items ∧ ∀ t, item = .ok t → t.endsLine = false := by
  induction items generalizing l with
  | nil => cases hl
  | cons first items ih =>
      have hcons (hfirst : ∀ t, first = .ok t → t.endsLine = false)
          (hl : l ∈ consItem first (ofItems items)) :
          item ∈ first :: items ∧ ∀ t, item = .ok t → t.endsLine = false := by
        cases hitems : ofItems items with
        | nil => rw [hitems] at hl; cases hl
        | cons m ms =>
            rw [hitems] at hl ih
            rcases List.mem_cons.1 hl with rfl | hl
            · rcases List.mem_cons.1 h with rfl | h
              · exact ⟨List.mem_cons_self, hfirst⟩
              · exact (ih List.mem_cons_self h).imp_left (List.mem_cons_of_mem _)
            · exact (ih (List.mem_cons_of_mem _ hl) h).imp_left (List.mem_cons_of_mem _)
      unfold ofItems at hl
      split at hl
      · cases ‹_ = []›
      · rename_i t items' heq
        cases heq
        split at hl
        · rcases List.mem_cons.1 hl with rfl | hl
          · cases h
          · exact (ih hl h).imp_left (List.mem_cons_of_mem _)
        · rename_i hends
          refine hcons ?_ hl
          rintro _ ⟨⟩
          exact Bool.eq_false_iff.2 hends
      · rename_i e items' heq
        cases heq
        exact hcons nofun hl

theorem value_of_mem {source : String} {l : Line} (hl : l ∈ ofSource source) {t : Token}
    (ht : .ok t ∈ l.items) (h : t.IsReference) : t.value = none := by
  obtain ⟨hmem, -⟩ := mem_of_mem_ofItems hl ht
  obtain ⟨c, -, hc⟩ := Cursor.exists_next_of_mem (I := Any) (fun _ _ => trivial) trivial hmem
  refine Cursor.value_of_next hc ?_
  rcases h with h | ⟨h, -⟩ <;> rw [h] <;> rfl

end Line

/-- The operands of an instruction that is written stand on its line. -/
theorem Written.exists_line {scope : Option String} {lines : List Line} {w : Written}
    (h : w ∈ ofLines scope lines) :
    ∃ line ∈ lines, ∀ t ∈ w.operands, .ok t ∈ line.items := by
  induction lines generalizing scope with
  | nil => cases h
  | cons line lines ih =>
      rcases List.mem_append.1 h with h | h
      · refine ⟨line, List.mem_cons_self, ?_⟩
        intro t ht
        rw [Line.items_of_instruction (body_of_mem_ofBody h)]
        exact List.mem_map_of_mem (by simp [ht])
      · obtain ⟨line', hline', hitems⟩ := ih h
        exact ⟨line', List.mem_cons_of_mem _ hline', hitems⟩

/-! ### What a symbol means -/

namespace SymbolTable

/-- The key stands for the number at the end of its aliases. -/
inductive Denotes (table : SymbolTable) : String → Int → Prop
  | value {key : String} {x : Symbol} {v : Int} (hx : table[key]? = some x)
      (hmeaning : x.meaning = .value v) : Denotes table key v
  | alias {key target : String} {x : Symbol} {t : Token} {v : Int} (hx : table[key]? = some x)
      (hmeaning : x.meaning = .sameAs target t) (h : Denotes table target v) : Denotes table key v

variable {table : SymbolTable}

theorem denotes_of_reaches {key last : String} {v : Int} (hreach : table.Reaches key last)
    (hlast : table.IsNumber last v) : table.Denotes key v := by
  induction hreach using Relation.ReflTransGen.head_induction_on with
  | refl =>
      obtain ⟨x, hx, hmeaning⟩ := hlast
      exact .value hx hmeaning
  | head hnext _ ih =>
      obtain ⟨t, x, hx, hmeaning⟩ := hnext
      exact .alias hx hmeaning ih

/-- In a scope, the token stands for `v`. -/
def Means (table : SymbolTable) (scope : Option String) (t : Token) (v : Int) : Prop :=
  ∃ key, symbolKey scope t = .ok key ∧ table.value? key = some v ∧ table.Denotes key v

theorem means_of_resolve {scope : Option String} {t : Token} {key : String} {r : Int × Token}
    (hkey : symbolKey scope t = .ok key) (h : table.resolve key t = .ok r) :
    table.Means scope t r.1 := by
  obtain ⟨-, hvalue⟩ := resolve_eq_ok_iff.1 h
  obtain ⟨last, hreach, hlast⟩ := value?_eq_some_iff_reaches.1 hvalue
  exact ⟨key, hkey, hvalue, denotes_of_reaches hreach hlast⟩

/-- A key that is bound to a number has this value. -/
theorem value?_of_meaning {key : String} {x : Symbol} {v : Int} (hx : table[key]? = some x)
    (hmeaning : x.meaning = .value v) : table.value? key = some v :=
  value?_eq_some_iff_reaches.2 ⟨key, .refl, x, hx, hmeaning⟩

end SymbolTable

/-! ### Operands that name a symbol -/

namespace Context

variable {c : Context} {table : SymbolTable} {t : Token}

/-- The number of an operand that names a symbol is what the symbol means. -/
theorem checked_reference {α : Type} [OfNat α 0] (hc : c.symbols = some table)
    (ht : t.IsReference) (hvalue : t.value = none) {rule : Int → Except Cause α} {a : α}
    (h : c.checked t rule = .ok a) :
    ∃ v, table.Means c.scope t v ∧ rule v = .ok a := by
  unfold checked at h
  obtain ⟨q, hq, h⟩ := bind_eq_ok_iff.1 h
  obtain ⟨key, r, hkey, hr, rfl⟩ : ∃ key r, symbolKey c.scope t = .ok key ∧
      table.resolve key t = .ok r ∧ q = some ⟨r.1, some r.2⟩ := by
    simp only [quantity, hvalue, hc] at hq
    obtain ⟨shape, hshape, hq⟩ := bind_eq_ok_iff.1 hq
    have hcases := Token.shape_of_isReference ht
    rw [hshape] at hcases
    rcases hcases with hcase | hcase <;> cases hcase
    all_goals
      obtain ⟨key, hkey, hq⟩ := bind_eq_ok_iff.1 hq
      obtain ⟨r, hr, hq⟩ := bind_eq_ok_iff.1 hq
      cases hq
      exact ⟨key, r, hkey, hr, rfl⟩
  refine ⟨r.1, SymbolTable.means_of_resolve hkey hr, ?_⟩
  dsimp only at h
  split at h
  · rename_i b hb
    cases h
    exact hb
  · cases h

theorem toNat_ofInt_word {v : Int} (h : Width.unsigned16.Accepts v) :
    ((UInt16.ofInt v).toNat : Int) = v := by
  obtain ⟨hlow, hhigh⟩ : 0 ≤ v ∧ v ≤ 65535 := h
  have hlt : (v % 2 ^ 16).toNat < 65536 := by omega
  rw [UInt16.ofInt, UInt16.toNat_ofNat_of_lt' hlt]
  omega

theorem toInt_ofInt_offset {v : Int} (h : Width.signed8.Accepts v) : (Int8.ofInt v).toInt = v := by
  obtain ⟨hlow, hhigh⟩ : -128 ≤ v ∧ v ≤ 127 := h
  exact Int8.toInt_ofInt_of_le (by omega) (by omega)

/-- An address that is given by a symbol is what the symbol means. -/
theorem means_of_addressWord (hc : c.symbols = some table) (ht : t.IsReference)
    (hvalue : t.value = none) {nn : UInt16} (h : c.addressWord t = .ok nn) :
    table.Means c.scope t nn.toNat := by
  obtain ⟨a, ha, h⟩ := bind_eq_ok_iff.1 h
  cases h
  obtain ⟨v, hmeans, hcheck⟩ := checked_reference hc ht hvalue ha
  unfold Width.check at hcheck
  split at hcheck
  · rename_i haccepts
    cases hcheck
    rw [toNat_ofInt_word haccepts]
    exact hmeans
  · cases hcheck

/-- A relative jump to a symbol goes from behind the jump to what the symbol means. -/
theorem means_of_displacement (hc : c.symbols = some table) (ht : t.IsReference)
    (hvalue : t.value = none) {d : Int8} (h : c.displacement t = .ok d) :
    table.Means c.scope t (c.address.toNat + 2 + d.toInt) := by
  simp only [displacement, hvalue] at h
  obtain ⟨v, hmeans, hrule⟩ := checked_reference hc ht hvalue h
  simp only [displacementTo] at hrule
  split at hrule
  · cases hrule
  · split at hrule
    · rename_i haccepts
      cases hrule
      rw [toInt_ofInt_offset haccepts]
      have hsum : (c.address.toNat : Int) + 2 + (v - (c.address.toNat + 2)) = v := by omega
      rw [hsum]
      exact hmeans
    · cases hrule

/-! ### Branches -/

/-- HL is no symbol, so that a jump to a symbol goes to an address. -/
theorem jumpTo_of_isReference (ht : t.IsReference) (cc : Option Condition) :
    c.jumpTo cc t = do return .jump cc (← c.addressWord t) := by
  rcases Token.shape_of_isReference ht with hshape | hshape
  · rw [jumpTo, hshape]
    cases cc <;> rfl
  · rw [jumpTo, hshape]
    cases cc <;> rfl

theorem selectFront_of_select {mnemonic : Mnemonic} {name : Token} {tokens : List Token}
    {i : Instruction} (h : c.select mnemonic name tokens = .ok i) :
    c.selectFront mnemonic name tokens = .ok (i, []) := by
  obtain ⟨⟨j, rest⟩, hfront, h⟩ := bind_eq_ok_iff.1 h
  cases rest with
  | nil =>
      cases h
      exact hfront
  | cons t rest => cases h

end Context

/-- If nothing follows the target of a branch, it is the last operand. -/
theorem getLast?_of_takeBranch {name : Token} {tokens : List Token} {cc : Option Condition}
    {target : Token} (h : takeBranch name tokens = .ok (cc, target, [])) :
    tokens.getLast? = some target := by
  have hone {last : Token} {ts : List Token} {r : Token × Rest} (h : takeOne last ts = .ok r) :
      ts = r.1 :: r.2 := by
    cases ts with
    | nil => cases h
    | cons t rest => cases h; rfl
  unfold takeBranch at h
  split at h
  · rename_i first comma rest
    split at h
    · obtain ⟨cond, -, h⟩ := bind_eq_ok_iff.1 h
      obtain ⟨⟨u, us⟩, hr, h⟩ := bind_eq_ok_iff.1 h
      cases h
      rw [hone hr]
      rfl
    · cases h
  · obtain ⟨⟨u, us⟩, hr, h⟩ := bind_eq_ok_iff.1 h
    cases h
    rw [hone hr]
    rfl

namespace Pending

variable {q : Pending} {table : SymbolTable} {i : Instruction} {t : Token}

/-- What a branch whose target names a symbol comes to: the target of a jump or a call is what the
symbol means, and the displacement of a relative jump leads there from behind the jump. -/
theorem target_of_build (h : q.build (some table) = .ok i) (hlast : q.operands.getLast? = some t)
    (ht : t.IsReference) (hvalue : t.value = none) :
    (q.mnemonic = .jp → ∃ cc nn, i = .jump cc nn ∧ table.Means q.scope t nn.toNat) ∧
    (q.mnemonic = .call → ∃ cc nn, i = .call cc nn ∧ table.Means q.scope t nn.toNat) ∧
    (q.mnemonic = .jr → ∃ cc d, i = .jumpRel cc d ∧
      table.Means q.scope t (q.address.toNat + 2 + d.toInt)) := by
  have hfront := Context.selectFront_of_select h
  -- the target that was taken is the last operand
  have htarget {cc : Option Condition} {target : Token}
      (htake : takeBranch q.name q.operands = .ok (cc, target, [])) : target = t := by
    have hsome := getLast?_of_takeBranch htake
    rw [hlast] at hsome
    exact (Option.some.inj hsome).symm
  refine ⟨?_, ?_, ?_⟩
  · intro hm
    rw [hm] at hfront
    obtain ⟨⟨cc, target, rest⟩, htake, hfront⟩ := bind_eq_ok_iff.1 hfront
    obtain ⟨j, hjump, hfront⟩ := bind_eq_ok_iff.1 hfront
    cases hfront
    obtain rfl := htarget htake
    rw [Context.jumpTo_of_isReference ht] at hjump
    obtain ⟨nn, hnn, hjump⟩ := bind_eq_ok_iff.1 hjump
    cases hjump
    exact ⟨cc, nn, rfl, Context.means_of_addressWord rfl ht hvalue hnn⟩
  · intro hm
    rw [hm] at hfront
    obtain ⟨⟨cc, target, rest⟩, htake, hfront⟩ := bind_eq_ok_iff.1 hfront
    obtain ⟨nn, hnn, hfront⟩ := bind_eq_ok_iff.1 hfront
    cases hfront
    obtain rfl := htarget htake
    exact ⟨cc, nn, rfl, Context.means_of_addressWord rfl ht hvalue hnn⟩
  · intro hm
    rw [hm] at hfront
    obtain ⟨⟨cc, target, rest⟩, htake, hfront⟩ := bind_eq_ok_iff.1 hfront
    obtain ⟨d, hd, hfront⟩ := bind_eq_ok_iff.1 hfront
    cases hfront
    obtain rfl := htarget htake
    exact ⟨cc, d, rfl, Context.means_of_displacement rfl ht hvalue hd⟩

end Pending

/-! ### Labels and branches of a program -/

/-- The number of bytes of the instructions that are written before `pos`. -/
def bytesBefore (pos : Position) (instructions : List (Written × Assembled)) : Nat :=
  ((instructions.filter fun x => x.1.name.pos.Before pos).map
    fun x => x.2.instruction.bytes.length).sum

/-- The layout counts the bytes before a place as they are in the end. -/
theorem bytesBefore_zip (pos : Position) {table : SymbolTable} {qs : List Pending}
    {as : List Assembled} (h : List.Forall₂ (fun q a => q.resolve table = .ok a) qs as) :
    bytesBefore pos ((qs.map Pending.written).zip as) = lengthBefore pos qs := by
  induction h with
  | nil => rfl
  | @cons q a qs as hqa _ ih =>
      have hlength := Pending.length_of_resolve hqa
      unfold bytesBefore lengthBefore at ih ⊢
      rw [List.map_cons, List.zip_cons_cons, List.filter_cons, List.filter_cons]
      by_cases hbefore : q.name.pos.Before pos
      · have hwritten : q.written.name.pos.Before pos := hbefore
        simp only [hbefore, hwritten, decide_true, if_true, List.map_cons, List.sum_cons, ih,
          hlength]
      · have hwritten : ¬ q.written.name.pos.Before pos := hbefore
        simp only [hbefore, hwritten, decide_false, Bool.false_eq_true, if_false, ih]

namespace Program

/-- **Labels and branches hit their target.**  The program has the instructions as they are written.
Every label stands at the head of a line, and its value is the base and the bytes of the instructions
that are written before it.  A jump or a call whose target names a symbol goes to what the symbol
means in the scope of the instruction, and a relative jump leads there from behind its two bytes,
wherever the symbol is defined. -/
theorem labels_and_targets {source : String} {base : UInt16} {p : Program}
    (h : assemble source base = .ok p) :
    (Written.ofSource source).length = p.instructions.length ∧
    (∀ (key : String) (x : Symbol), p.symbols[key]? = some x → x.kind = .label →
      (∃ line ∈ Line.ofSource source, line.statement.label = some x.token) ∧
      p.symbols.value? key = some ((base.toNat
        + bytesBefore x.token.pos ((Written.ofSource source).zip p.instructions) : Nat) : Int)) ∧
    ∀ w a t, (w, a) ∈ (Written.ofSource source).zip p.instructions →
      w.operands.getLast? = some t → t.IsReference →
      (w.mnemonic = .jp →
        ∃ cc nn, a.instruction = .jump cc nn ∧ p.symbols.Means w.scope t nn.toNat) ∧
      (w.mnemonic = .call →
        ∃ cc nn, a.instruction = .call cc nn ∧ p.symbols.Means w.scope t nn.toNat) ∧
      (w.mnemonic = .jr →
        ∃ cc d, a.instruction = .jumpRel cc d ∧
          p.symbols.Means w.scope t (a.address.toNat + 2 + d.toInt)) := by
  obtain ⟨l, hl, hresolve, hsymbols⟩ := assemble_eq_ok_iff.1 h
  have hwritten : Written.ofSource source = l.pending.toList.map Pending.written :=
    (Layout.written_keepGoing hl).symm
  obtain ⟨n, hlabelled⟩ := Layout.isLabelled_keepGoing hl
  refine ⟨?_, ?_, ?_⟩
  · rw [hwritten, List.length_map]
    exact hresolve.length_eq
  · intro key x hx hkind
    rw [hsymbols] at hx ⊢
    constructor
    · rcases Layout.label_of_keepGoing hl hx hkind with hstart | hline
      · rw [Layout.start, Std.TreeMap.getElem?_emptyc] at hstart
        cases hstart
      · exact hline
    · rw [hwritten, bytesBefore_zip _ hresolve]
      exact SymbolTable.value?_of_meaning hx (hlabelled.label_value key x hx hkind)
  · intro w a t hmem hlast ht
    -- the operand stands on a line of the source, so that it has no value of its own
    have hvalue : t.value = none := by
      obtain ⟨line, hline, hitems⟩ := Written.exists_line (List.of_mem_zip hmem).1
      exact Line.value_of_mem hline (hitems t (List.mem_of_getLast? hlast)) ht
    rw [hwritten, List.zip_map_left] at hmem
    obtain ⟨⟨q, b⟩, hqb, heq⟩ := List.mem_map.1 hmem
    cases heq
    obtain ⟨hbuild, haddress⟩ := Pending.resolve_eq_ok (List.forall₂_zip hresolve hqb)
    dsimp only [id]
    rw [hsymbols, haddress]
    exact Pending.target_of_build hbuild hlast ht hvalue

/-- A program that is laid out to end with the address space: it goes back to a local label and to
its first instruction, and forward through an alias to the label behind its last byte. -/
def toTheEnd : String :=
  "START: NOP\n.L JR .L\nJR Z, AFTER\nCALL START\nJP .L\nEND:\nAFTER EQU END"

/-- The label at the end of the address space and the jump that leads there. -/
theorem labels_and_targets_toTheEnd :
    ∃ p, assemble toTheEnd 0xFFF5 = .ok p ∧
      p.instructions.map Assembled.instruction
        = [.implied .nop, .jumpRel none (-2), .jumpRel (some .z) 6, .call none 0xFFF5,
            .jump none 0xFFF6] ∧
      p.symbols.value? "END" = some 0x10000 ∧
      p.symbols.Means (some "START") ⟨.identifier, "AFTER", ⟨3, 7⟩, none⟩ 0x10000 := by
  have hrun : (assemble toTheEnd 0xFFF5).toOption.map
      (fun p => (p.instructions, p.symbols["END"]?.map fun x => (x.kind, x.token.pos)))
      = some ([⟨0xFFF5, .implied .nop⟩, ⟨0xFFF6, .jumpRel none (-2)⟩,
          ⟨0xFFF8, .jumpRel (some .z) 6⟩, ⟨0xFFFA, .call none 0xFFF5⟩, ⟨0xFFFD, .jump none 0xFFF6⟩],
        some (.label, ⟨6, 1⟩)) := by decide +kernel
  cases h : assemble toTheEnd 0xFFF5 with
  | error e => rw [h] at hrun; cases hrun
  | ok p =>
      rw [h] at hrun
      obtain ⟨hinstructions, hEnd⟩ := Prod.mk.inj (Option.some.inj hrun)
      obtain ⟨x, hx, hfields⟩ := Option.map_eq_some_iff.1 hEnd
      obtain ⟨hkind, hpos⟩ := Prod.mk.inj hfields
      obtain ⟨-, hlabels, htargets⟩ := labels_and_targets h
      rw [hinstructions] at hlabels htargets
      refine ⟨p, rfl, by rw [hinstructions]; rfl, ?_, ?_⟩
      · rw [(hlabels "END" x hx hkind).2, hpos]
        decide +kernel
      · obtain ⟨cc, d, hjump, hmeans⟩ := (htargets
          ⟨.jr, ⟨.identifier, "JR", ⟨3, 1⟩, none⟩,
            [⟨.identifier, "Z", ⟨3, 4⟩, none⟩, ⟨.comma, ",", ⟨3, 5⟩, none⟩,
              ⟨.identifier, "AFTER", ⟨3, 7⟩, none⟩], some "START"⟩
          ⟨0xFFF8, .jumpRel (some .z) 6⟩ ⟨.identifier, "AFTER", ⟨3, 7⟩, none⟩
          (by decide +kernel) rfl (by decide +kernel)).2.2 rfl
        cases hjump
        exact hmeans

end Program

end GameBoyAssembler
