import GameBoyAssembler.Proofs.Addresses
import GameBoyAssembler.Proofs.PrintedSelection

/-!
# Printed code assembles to itself

A printed instruction stands on a line of its own.  The line is read as the words of the
instruction, the words are a statement without a label, and the statement puts the instruction
behind those before it.  Nothing defines a symbol and nothing refers to one.

Main definitions:

* `printed` — instructions as a source text;
* `Pending.Builds` — an instruction that is selected whatever symbols are known.

Main results:

* `Line.statement_of_holds` — the statement of a line that holds the words of an instruction;
* `Layout.add_printed` — what the statement of a printed instruction does to a layout;
* `Layout.keepGoing_printed` — what all lines together do;
* `assemble_printed` — **printed code assembles to itself**.
-/

set_option relaxedAutoImplicit false
set_option autoImplicit false

namespace GameBoyAssembler

/-- Instructions as a source text, each on a line of its own. -/
def printed (is : List Instruction) : String :=
  String.join (is.map fun i => i.text ++ "\n")

/-! ### The lines of the text -/

theorem toList_printed (is : List Instruction) :
    (printed is).toList = (is.map Instruction.words).flatMap Line.textOf := by
  have hline (i : Instruction) : (i.text ++ "\n").toList = Line.textOf i.words := by
    simp [Instruction.toList_text, Instruction.words, Line.textOf, Word.name]
  rw [printed, String.toList_join, List.flatMap_map, List.flatMap_map]
  simp only [hline]

/-- The text of at least one instruction is read as one line for each. -/
theorem holds_ofSource_printed {is : List Instruction} (hne : is ≠ [])
    (his : ∀ i ∈ is, i.IsCanonical) :
    List.Forall₂ (fun l i => l.Holds i.words) (Line.ofSource (printed is)) is := by
  have hwords : ∀ ws ∈ is.map Instruction.words, ws ≠ [] ∧ ∀ w ∈ ws, w.IsRead := by
    intro ws hws
    obtain ⟨i, hi, rfl⟩ := List.mem_map.1 hws
    exact ⟨List.cons_ne_nil _ _, Instruction.isRead_words (his i hi)⟩
  have hlines := Line.holds_of_text (by simpa using hne) hwords
    (c := Cursor.ofSource (printed is)) (toList_printed is)
  exact List.forall₂_map_right_iff.1 hlines

/-- The text of no instruction is one line without words. -/
theorem ofSource_printed_nil : ∃ stop : Token, Line.ofSource (printed []) = [⟨[], stop⟩] := by
  have hnext : (Cursor.ofSource (printed [])).next.1 = .ok ⟨.endOfFile, "", .start, none⟩ := rfl
  refine ⟨⟨.endOfFile, "", .start, none⟩, ?_⟩
  rw [Line.ofSource, Cursor.items_of_next_end hnext rfl]
  rfl

/-! ### The statement of a line -/

namespace Statement

variable {name : Token} {m : Mnemonic} (hm : Mnemonic.ofName? name.text = some m) (ts : List Token)
include hm

theorem readInstruction_ok :
    readInstruction name (ts.map Except.ok) = .ok (.instruction m name ts) := by
  have hmap : (ts.map (Except.ok (ε := Error))).mapM id = Except.ok ts := by
    rw [mapM_eq_ok_iff, List.forall₂_map_left_iff]
    exact List.forall₂_same.2 fun _ _ => rfl
  rw [readInstruction, hm, hmap]
  rfl

theorem readBody_ok (hkind : name.kind = .identifier) (hequ : ∀ t ∈ ts, isEqu t = false)
    (stop : Token) : readBody stop name (ts.map Except.ok) = .ok (.instruction m name ts) := by
  have hread := readInstruction_ok hm ts
  cases ts with
  | nil => simpa [readBody, hkind] using hread
  | cons t ts =>
      have ht := hequ t List.mem_cons_self
      simpa [readBody, hkind, ht] using hread

end Statement

/-- A line that holds the words of an instruction is the statement of the instruction. -/
theorem Line.statement_of_holds {l : Line} {i : Instruction} (hi : i.IsCanonical)
    (h : l.Holds i.words) :
    ∃ (name : Token) (ts : List Token), ts.map Token.word = i.operands ∧
      l.statement = ⟨none, .ok (.instruction i.mnemonic name ts)⟩ := by
  obtain ⟨tokens, htokens, hitems⟩ := h
  obtain ⟨name, ts, rfl, hname, hts⟩ := List.map_eq_cons_iff.1 htokens
  have hkind : name.kind = .identifier := congrArg Word.kind hname
  have htext : name.text = i.mnemonic.text := congrArg Word.text hname
  have hm : Mnemonic.ofName? name.text = some i.mnemonic := by
    rw [htext]
    exact i.isRead_mnemonic.2
  have hequ : ∀ t ∈ ts, Statement.isEqu t = false := by
    intro t ht
    have hmem : t.word ∈ i.operands := by
      rw [← hts]
      exact List.mem_map_of_mem ht
    exact (Instruction.isOperand_operands hi t.word hmem).isEqu
  refine ⟨name, ts, hts, ?_⟩
  rw [statement, hitems, List.map_cons]
  simp only [Token.isLabel, hkind, Statement.readBody_ok hm ts hkind hequ]
  rfl

/-! ### The effect of the lines -/

/-- The instruction is selected whatever symbols are known. -/
def Pending.Builds (q : Pending) (i : Instruction) : Prop :=
  ∀ symbols : Option SymbolTable, q.build symbols = .ok i

namespace Layout

/-- A printed instruction is put behind those before it, if there is room. -/
theorem add_printed {line : Line} {i : Instruction} (hi : i.IsCanonical)
    (hline : line.Holds i.words) {l : Layout} (hfits : l.address + i.bytes.length ≤ addressSpace) :
    ∃ q : Pending, q.Builds i ∧ l.add line.statement
      = ({ l with pending := l.pending.push q, address := l.address + i.bytes.length }, none) := by
  obtain ⟨name, ts, hts, hstatement⟩ := Line.statement_of_holds hi hline
  have hbuilds : Pending.Builds ⟨i.mnemonic, name, ts, UInt16.ofNat l.address, l.scope⟩ i :=
    fun _ => Context.select_operands _ name hi hts
  have hbuild : Pending.build ⟨i.mnemonic, name, ts, UInt16.ofNat l.address, l.scope⟩ none
      = .ok i := hbuilds none
  have hlength := i.length_bytes
  have hroom : ¬ addressSpace < l.address + instructionLength i.opcode.firstByte := by omega
  refine ⟨_, hbuilds, ?_⟩
  have hplace : l.add line.statement = l.place i.mnemonic name ts := by
    rw [hstatement]
    rfl
  rw [hplace, place]
  simp only [hbuild, if_neg hroom, hlength]

/-- The lines of printed instructions put all of them behind those before, and define nothing. -/
theorem keepGoing_printed {lines : List Line} {is : List Instruction}
    (hlines : List.Forall₂ (fun line i => line.Holds i.words) lines is)
    (his : ∀ i ∈ is, i.IsCanonical) {l : Layout}
    (hfits : l.address + (is.flatMap Instruction.bytes).length ≤ addressSpace) :
    ∃ (l' : Layout) (qs : List Pending), l.keepGoing lines = (l', []) ∧
      l'.symbols = l.symbols ∧ l'.pending.toList = l.pending.toList ++ qs ∧
      List.Forall₂ Pending.Builds qs is := by
  -- every line takes the room of its instruction, and what is left is enough for the others
  induction hlines generalizing l with
  | nil => exact ⟨l, [], rfl, rfl, (List.append_nil _).symm, .nil⟩
  | @cons line i lines is hline hlines ih =>
      obtain ⟨hi, his⟩ := List.forall_mem_cons.1 his
      rw [List.flatMap_cons, List.length_append] at hfits
      obtain ⟨q, hq, hadd⟩ := add_printed hi hline (l := l) (by omega)
      obtain ⟨l', qs, hgo, hsymbols, hpending, hqs⟩ := ih his
        (l := { l with pending := l.pending.push q, address := l.address + i.bytes.length })
        (by dsimp only; omega)
      refine ⟨l', q :: qs, ?_, hsymbols, ?_, .cons hq hqs⟩
      · rw [keepGoing, hadd]
        simp [hgo]
      · simpa using hpending

end Layout

/-! ### The program -/

theorem exists_resolve {qs : List Pending} {is : List Instruction}
    (h : List.Forall₂ Pending.Builds qs is) (symbols : SymbolTable) :
    ∃ as : List Assembled, List.Forall₂ (fun q a => q.resolve symbols = .ok a) qs as ∧
      as.map Assembled.instruction = is := by
  induction h with
  | nil => exact ⟨[], .nil, rfl⟩
  | @cons q i qs is hq _ ih =>
      obtain ⟨as, has, rfl⟩ := ih
      refine ⟨⟨q.address, i⟩ :: as, .cons ?_ has, rfl⟩
      rw [Pending.resolve, hq (some symbols)]
      rfl

theorem Layout.keepGoing_ofSource_printed {is : List Instruction}
    (his : ∀ i ∈ is, i.IsCanonical) {base : UInt16}
    (hfits : base.toNat + (is.flatMap Instruction.bytes).length ≤ addressSpace) :
    ∃ l : Layout, (Layout.start base).keepGoing (Line.ofSource (printed is)) = (l, []) ∧
      l.symbols = ∅ ∧ List.Forall₂ Pending.Builds l.pending.toList is := by
  cases is with
  | nil =>
      obtain ⟨stop, hline⟩ := ofSource_printed_nil
      rw [hline]
      exact ⟨Layout.start base, rfl, rfl, .nil⟩
  | cons i is =>
      have hlines := holds_ofSource_printed (List.cons_ne_nil i is) his
      obtain ⟨l, qs, hgo, hsymbols, hpending, hqs⟩ :=
        Layout.keepGoing_printed hlines his (l := Layout.start base) hfits
      refine ⟨l, hgo, hsymbols, ?_⟩
      rw [hpending]
      exact hqs

/-- **Printed code assembles to itself**: canonical instructions that fit behind the base, each
printed on a line of its own, assemble to exactly these instructions, and no symbol is defined. -/
theorem assemble_printed (is : List Instruction) (base : UInt16)
    (his : ∀ i ∈ is, decode? i.bytes = some i)
    (hfits : base.toNat + (is.flatMap Instruction.bytes).length ≤ 0x10000) :
    ∃ p : Program, assemble (printed is) base = .ok p ∧
      p.instructions.map Assembled.instruction = is ∧ p.symbols = ∅ := by
  have hcanonical : ∀ i ∈ is, i.IsCanonical := by
    intro i hi
    exact Instruction.decode?_bytes_eq_some_iff.1 (his i hi)
  obtain ⟨l, hgo, hsymbols, hbuilds⟩ := Layout.keepGoing_ofSource_printed hcanonical hfits
  obtain ⟨as, has, hmap⟩ := exists_resolve hbuilds l.symbols
  exact ⟨⟨as, l.symbols⟩, assemble_eq_ok_iff.2 ⟨l, hgo, has, rfl⟩, hmap, hsymbols⟩

/-- Instructions whose texts are easily misread: signs inside a token, a register that is also a
condition, displacements, a bit index and bytes that are not shown. -/
def misreadable : List Instruction :=
  [.loadHLSP (-128), .storeVia .hlDec, .jumpRel (some .c) (-3), .bit .set 7 .atHL, .restart 0x38,
    .loadHigh 0xFF, .storeSPAt 0xFFFF, .implied .stop, .retIf .c]

/-- They fill the addresses from 0xFFF0 to the last. -/
theorem assemble_printed_misreadable :
    (∀ i ∈ misreadable, decode? i.bytes = some i) ∧
      (0xFFF0 : UInt16).toNat + (misreadable.flatMap Instruction.bytes).length = 0x10000 ∧
      printed misreadable = "LD HL, SP-0x80\nLD (HL-), A\nJR C, -0x03\nSET 7, (HL)\nRST 0x38\n"
        ++ "LDH A, (0xFF)\nLD (0xFFFF), SP\nSTOP\nRET C\n" ∧
      ∃ p : Program, assemble (printed misreadable) 0xFFF0 = .ok p ∧
        p.instructions.map Assembled.instruction = misreadable ∧ p.symbols = ∅ :=
  ⟨by decide, by decide, by decide +kernel,
    assemble_printed misreadable 0xFFF0 (by decide) (by decide)⟩

end GameBoyAssembler
