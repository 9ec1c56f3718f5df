import GameBoyAssembler.Proofs.Decoding
import GameBoyAssembler.Proofs.Disassembly
import GameBoyAssembler.Proofs.Reassembly
import GameBoyAssembler.Proofs.TextLines

/-!
# Listings without loss

Any bytes at all have a listing.  Where an instruction starts, the reader goes on by the length that
the first byte announces, which is the number of bytes that decoding took; everywhere else a single
byte is listed as data.  So the pieces put together are the bytes, and each has a line.  Conversely a
line tells its piece: the text of a canonical instruction is read back as the words it was printed
from, and no instruction is called DB.

Main definitions:

* `Chunk.StartsAt` — the piece that stands in front of some machine code;
* `Chunk.body` — the line of a piece without its line feed;
* `Lists` — what a line of a listing says about the machine code at its address.

Main results:

* `chunks_induction` — machine code as a piece and the code behind it;
* `lines_disassemble` — a listing has one line for each piece;
* `Instruction.text_injective` — the text of a canonical instruction tells the instruction;
* `disassemble_lossless` — **a listing shows all bytes, and tells them**.
-/

set_option relaxedAutoImplicit false
set_option autoImplicit false

namespace GameBoyAssembler

/-! ### Pieces of machine code -/

/-- The piece is what machine code starts with: the instruction that is decoded, or a byte where
none is. -/
def Chunk.StartsAt (code : List UInt8) : Chunk → Prop
  | .code i => decode? code = some i
  | .data b => decode? code = none ∧ code.head? = some b

namespace Chunk

variable {c : Chunk} {code : List UInt8}

theorem bytes_ne_nil (c : Chunk) : c.bytes ≠ [] := by
  cases c with
  | code i => exact List.length_pos_iff.1 i.length_bytes_pos
  | data b => exact List.cons_ne_nil b []

theorem StartsAt.prefix (h : c.StartsAt code) : c.bytes <+: code := by
  cases c with
  | code i => exact bytes_prefix_of_decode? h
  | data b =>
      obtain ⟨rest, rfl⟩ := List.head?_eq_some_iff.1 h.2
      exact ⟨rest, rfl⟩

/-- Decoding gives canonical instructions only. -/
theorem StartsAt.isCanonical {i : Instruction} (h : (Chunk.code i).StartsAt code) :
    i.IsCanonical := by
  obtain ⟨rest, rfl⟩ := h.prefix
  have hdecode := i.decode?_bytes_append rest
  exact Option.some.inj (hdecode.symm.trans h)

end Chunk

/-- Machine code starts with a piece, and the next one stands behind its bytes. -/
theorem exists_chunks_cons (pos : Nat) {code : List UInt8} (h : code ≠ []) :
    ∃ c rest, c.StartsAt code ∧ code = c.bytes ++ rest ∧
      chunks pos code = (pos, c) :: chunks (pos + c.bytes.length) rest := by
  obtain ⟨op, rest, rfl⟩ := List.exists_cons_of_ne_nil h
  cases hdecode : decode? (op :: rest) with
  | none => exact ⟨.data op, rest, ⟨hdecode, rfl⟩, rfl, by rw [chunks, hdecode]; rfl⟩
  | some i =>
      have hstarts : (Chunk.code i).StartsAt (op :: rest) := hdecode
      obtain ⟨behind, hbehind⟩ := hstarts.prefix
      have hchunks := chunks_bytes_append pos i behind
      rw [hstarts.isCanonical] at hchunks
      refine ⟨.code i, behind, hstarts, hbehind.symm, ?_⟩
      rw [← hbehind]
      exact hchunks

/-- Machine code is empty, or a piece with the machine code behind it. -/
theorem chunks_induction {motive : Nat → List UInt8 → Prop}
    (nil : ∀ pos, motive pos [])
    (cons : ∀ pos c rest, c.StartsAt (c.bytes ++ rest) →
      chunks pos (c.bytes ++ rest) = (pos, c) :: chunks (pos + c.bytes.length) rest →
      motive (pos + c.bytes.length) rest → motive pos (c.bytes ++ rest))
    (pos : Nat) (code : List UInt8) : motive pos code := by
  induction hlen : code.length using Nat.strongRecOn generalizing pos code with
  | _ len ih =>
      subst hlen
      by_cases hcode : code = []
      · exact hcode ▸ nil pos
      · obtain ⟨c, rest, hc, rfl, hchunks⟩ := exists_chunks_cons pos hcode
        refine cons pos c rest hc hchunks (ih _ ?_ _ rest rfl)
        have hpos := List.length_pos_iff.2 c.bytes_ne_nil
        rw [List.length_append]
        omega

/-- The bytes of each piece. -/
def pieces (pos : Nat) (code : List UInt8) : List (List UInt8) :=
  (chunks pos code).map fun p => p.2.bytes

/-- **The pieces are all of the machine code.** -/
theorem flatten_pieces (pos : Nat) (code : List UInt8) : (pieces pos code).flatten = code := by
  induction pos, code using chunks_induction with
  | nil pos => rw [pieces, chunks]; rfl
  | cons pos c rest _ hchunks ih =>
      rw [pieces, hchunks, List.map_cons, List.flatten_cons]
      exact congrArg (c.bytes ++ ·) ih

/-- A piece stands behind all those before it, and is what the machine code from there on starts
with. -/
theorem startsAt_of_getElem? (pos : Nat) (code : List UInt8) {k : Nat} {p : Nat × Chunk}
    (h : (chunks pos code)[k]? = some p) :
    p.1 = pos + ((pieces pos code).take k).flatten.length ∧
      p.2.StartsAt ((pieces pos code).drop k).flatten := by
  induction pos, code using chunks_induction generalizing k with
  | nil pos => rw [chunks] at h; cases h
  | cons pos c rest hc hchunks ih =>
      have hpieces : pieces pos (c.bytes ++ rest)
          = c.bytes :: pieces (pos + c.bytes.length) rest := by
        rw [pieces, hchunks]
        rfl
      rw [hchunks] at h
      cases k with
      | zero =>
          cases h
          rw [List.drop_zero, flatten_pieces]
          exact ⟨rfl, hc⟩
      | succ k =>
          obtain ⟨hpos, hstarts⟩ := ih h
          rw [hpieces, List.take_succ_cons, List.drop_succ_cons, List.flatten_cons,
            List.length_append, ← Nat.add_assoc]
          exact ⟨hpos, hstarts⟩

theorem Chunk.StartsAt.of_mem {pos : Nat} {code : List UInt8} {p : Nat × Chunk}
    (h : p ∈ chunks pos code) : ∃ rest, p.2.StartsAt rest := by
  obtain ⟨k, hk⟩ := List.mem_iff_getElem?.1 h
  exact ⟨_, (startsAt_of_getElem? pos code hk).2⟩

/-! ### The line of a piece -/

/-- A word that is read as one token stands on one line. -/
theorem Word.IsRead.isOneLine {w : Word} (hw : w.IsRead) : IsOneLine w.text.toList := by
  have hstart {x : Char} (hx : startsToken x = false) : w.text.toList.head? ≠ some x := by
    obtain ⟨a, as, htext, ha⟩ := hw.exists_cons
    rw [htext]
    exact fun h => ne_of_class ha hx (Option.some.inj h)
  have hdelimited : Delimited [] := by
    intro a ha
    cases ha
  have hlexeme := hw.lexeme_append [] hdelimited
  have htaken := isOneLine_lexeme (hstart rfl) (hstart rfl)
  rw [List.append_nil] at hlexeme
  rwa [hlexeme, List.take_length] at htaken

theorem isOneLine_spaced {ws : List Word} (hws : ∀ w ∈ ws, w.IsRead) : IsOneLine (spaced ws) := by
  induction ws with
  | nil => decide
  | cons w ws ih =>
      obtain ⟨hw, hws⟩ := List.forall_mem_cons.1 hws
      rw [spaced, List.flatMap_cons]
      refine isOneLine_append.2 ⟨?_, ih hws⟩
      rw [Word.spacedText]
      split
      · decide
      · rw [← List.singleton_append]
        exact isOneLine_append.2 ⟨by decide, hw.isOneLine⟩

theorem Instruction.isOneLine_text {i : Instruction} (hi : i.IsCanonical) :
    IsOneLine i.text.toList := by
  rw [i.toList_text]
  refine isOneLine_append.2 ⟨i.isRead_mnemonic.1.isOneLine, isOneLine_spaced ?_⟩
  intro w hw
  exact (isOperand_operands hi w hw).isRead

theorem isNameChar_hex (width n : Nat) : (hex width n).toList.all isNameChar = true := by
  rw [Word.toList_hex, List.all_cons, Word.isNameChar_hexDigits]
  rfl

theorem Opcode.isNameChar_text (op : Opcode) : op.text.toList.all isNameChar = true := by
  cases op with
  | base op => exact isNameChar_hex 2 _
  | extended op =>
      have hdigits := Word.isNameChar_hexDigits 2 op.toNat
      rw [List.all_cons, Bool.and_eq_true] at hdigits
      rw [text, String.toList_append, List.all_append, isNameChar_hex, String.toList_ofList,
        hdigits.2]
      rfl

theorem isOneLine_of_isNameChar {cs : List Char} (h : cs.all isNameChar = true) :
    IsOneLine cs :=
  ⟨fun hx => absurd (List.all_eq_true.1 h _ hx) (by decide),
    fun hx => absurd (List.all_eq_true.1 h _ hx) (by decide)⟩

namespace Chunk

/-- What a line shows between its brackets. -/
def shown : Chunk → String
  | code i => i.opcode.text
  | data b => byteText b

/-- What a line shows at its end. -/
def reading : Chunk → String
  | code i => i.text
  | data b => "DB " ++ byteText b

/-- The line of a piece without its line feed. -/
def body (address : UInt16) (c : Chunk) : List Char :=
  (wordText address ++ " : [" ++ c.shown ++ "] " ++ c.reading).toList

theorem toList_line (address : UInt16) (c : Chunk) :
    (c.line address).toList = c.body address ++ ['\n'] := by
  cases c <;> simp [line, listingLine, body, shown, reading]

theorem isNameChar_shown (c : Chunk) : c.shown.toList.all isNameChar = true := by
  cases c with
  | code i => exact i.opcode.isNameChar_text
  | data b => exact isNameChar_hex 2 _

variable {c d : Chunk} {code code' : List UInt8}

theorem StartsAt.isOneLine_reading (h : c.StartsAt code) : IsOneLine c.reading.toList := by
  cases c with
  | code i => exact Instruction.isOneLine_text h.isCanonical
  | data b =>
      rw [reading, String.toList_append]
      exact isOneLine_append.2 ⟨by decide, isOneLine_of_isNameChar (isNameChar_hex 2 _)⟩

theorem StartsAt.isOneLine_body (h : c.StartsAt code) (address : UInt16) :
    IsOneLine (c.body address) := by
  simp only [body, String.toList_append, isOneLine_append]
  exact ⟨⟨⟨⟨isOneLine_of_isNameChar (isNameChar_hex 4 _), by decide⟩,
    isOneLine_of_isNameChar c.isNameChar_shown⟩, by decide⟩, h.isOneLine_reading⟩

end Chunk

/-! ### Lines of a listing -/

/-- The lines of pieces, without their line feeds. -/
def bodies (base : UInt16) (cs : List (Nat × Chunk)) : List (List Char) :=
  cs.map fun p => p.2.body (base + UInt16.ofNat p.1)

theorem toList_disassemble (code : List UInt8) (base : UInt16) :
    (disassemble code base).toList
      = (bodies base (chunks 0 code)).flatMap fun body => body ++ ['\n'] := by
  rw [disassemble, String.toList_join, bodies, List.flatMap_map, List.flatMap_map]
  simp only [Chunk.toList_line]

theorem lines_flatMap {bodies : List (List Char)} (h : ∀ body ∈ bodies, IsOneLine body) :
    lines (bodies.flatMap fun body => body ++ ['\n']) = bodies := by
  induction bodies with
  | nil => rfl
  | cons body bodies ih =>
      obtain ⟨hbody, hbodies⟩ := List.forall_mem_cons.1 h
      rw [List.flatMap_cons, List.append_assoc, List.singleton_append, lines_append hbody.1,
        withoutReturn_of_notMem hbody.2, ih hbodies]

/-- **A listing has one line for each piece.** -/
theorem lines_disassemble (code : List UInt8) (base : UInt16) :
    lines (disassemble code base).toList = bodies base (chunks 0 code) := by
  rw [toList_disassemble]
  refine lines_flatMap fun body hbody => ?_
  obtain ⟨p, hp, rfl⟩ := List.mem_map.1 hbody
  obtain ⟨rest, hrest⟩ := Chunk.StartsAt.of_mem hp
  exact hrest.isOneLine_body _

/-! ### What a line tells -/

/-- The text of a canonical instruction is read as one line with its words. -/
theorem Instruction.exists_line_of_text {i : Instruction} (hi : i.IsCanonical) :
    ∃ l : Line, Line.ofSource (printed [i]) = [l] ∧ l.Holds i.words := by
  have hlines := holds_ofSource_printed (List.cons_ne_nil i []) (by simpa using hi)
  obtain ⟨l, ls, hl, hls, hsource⟩ := List.forall₂_cons_right_iff.1 hlines
  cases hls
  exact ⟨l, hsource, hl⟩

/-- **The text of a canonical instruction tells the instruction**: the text is read as the words, and
the words select the instruction. -/
theorem Instruction.text_injective {i j : Instruction} (hi : i.IsCanonical) (hj : j.IsCanonical)
    (h : i.text = j.text) : i = j := by
  obtain ⟨l, hl, ts, hts, hitems⟩ := exists_line_of_text hi
  obtain ⟨l', hl', us, hus, hitems'⟩ := exists_line_of_text hj
  have hline : l = l' := by
    have hsame : printed [i] = printed [j] := by simp [printed, h]
    rw [hsame, hl'] at hl
    exact (List.singleton_inj.1 hl).symm
  have htokens : ts = us := by
    rw [← hline, hitems] at hitems'
    exact (List.map_inj_right fun a b hab => Except.ok.inj hab).1 hitems'
  have hwords : i.words = j.words := by rw [← hts, ← hus, htokens]
  obtain ⟨hname, hoperands⟩ := List.cons.inj hwords
  have hmnemonic : i.mnemonic = j.mnemonic := by
    have htext : i.mnemonic.text = j.mnemonic.text := congrArg Word.text hname
    have hfound := i.isRead_mnemonic.2
    rw [htext] at hfound
    exact Option.some.inj (hfound.symm.trans j.isRead_mnemonic.2)
  obtain ⟨name, ts, rfl, -, hts⟩ := List.map_eq_cons_iff.1 hts
  have hselect := Context.select_operands ⟨none, none, 0⟩ name hi hts
  have hselect' := Context.select_operands ⟨none, none, 0⟩ name hj (hts.trans hoperands)
  rw [hmnemonic, hselect'] at hselect
  exact (Except.ok.inj hselect).symm

/-- No mnemonic starts as a data byte is shown. -/
theorem Mnemonic.take_text (m : Mnemonic) :
    2 ≤ m.text.toList.length ∧ m.text.toList.take 2 ≠ ['D', 'B'] := by
  cases m with
  | arith op => cases op <;> decide
  | bit op => cases op <;> decide
  | rotate op => cases op <;> decide
  | implied op => cases op <;> decide
  | _ => decide

namespace Chunk

variable {c d : Chunk} {code code' : List UInt8}

theorem code_reading_ne_data (i : Instruction) (b : UInt8) :
    (Chunk.code i).reading ≠ (Chunk.data b).reading := by
  intro h
  obtain ⟨hlength, hstart⟩ := i.mnemonic.take_text
  have htext := congrArg (fun s : String => s.toList.take 2) h
  simp only [reading, i.toList_text, List.take_append_of_le_length hlength] at htext
  exact hstart (by simpa using htext)

theorem byteText_injective {a b : UInt8} (h : byteText a = byteText b) : a = b := by
  have hdigits : hexDigits 2 a.toNat = hexDigits 2 b.toNat := by
    have hlist := congrArg String.toList h
    rw [byteText, byteText, Word.toList_hex, Word.toList_hex] at hlist
    exact (List.cons.inj (List.cons.inj hlist).2).2
  have hvalue := ofDigits?_hexDigits 2 a.toNat
  rw [hdigits, ofDigits?_hexDigits] at hvalue
  exact UInt8.toNat_inj.1 (Option.some.inj hvalue).symm

theorem StartsAt.reading_injective (hc : c.StartsAt code) (hd : d.StartsAt code')
    (h : c.reading = d.reading) : c = d := by
  cases c with
  | code i =>
      cases d with
      | code j =>
          exact congrArg Chunk.code (Instruction.text_injective hc.isCanonical hd.isCanonical h)
      | data b => exact absurd h (code_reading_ne_data i b)
  | data a =>
      cases d with
      | code j => exact absurd h.symm (code_reading_ne_data j a)
      | data b =>
          have htext : byteText a = byteText b := (String.append_right_inj _).1 h
          exact congrArg Chunk.data (byteText_injective htext)

end Chunk

/-- Two texts that are cut at the first place of a character. -/
theorem append_cons_cancel {x : Char} {cs cs' ds ds' : List Char} (hcs : x ∉ cs) (hcs' : x ∉ cs')
    (h : cs ++ x :: ds = cs' ++ x :: ds') : cs = cs' ∧ ds = ds' := by
  have hcut {cs : List Char} (hcs : x ∉ cs) (ds : List Char) :
      (cs ++ x :: ds).takeWhile (· != x) = cs := by
    have hall : ∀ c ∈ cs, (c != x) = true := fun c hc => bne_iff_ne.2 fun h => hcs (h ▸ hc)
    rw [List.takeWhile_append_of_pos hall]
    simp
  have hfront : cs = cs' := by rw [← hcut hcs ds, h, hcut hcs' ds']
  subst hfront
  exact ⟨rfl, (List.cons.inj (List.append_cancel_left h)).2⟩

/-- **A line tells its piece.** -/
theorem Chunk.StartsAt.body_injective {c d : Chunk} {code code' : List UInt8}
    (hc : c.StartsAt code) (hd : d.StartsAt code') {address : UInt16}
    (h : c.body address = d.body address) : c = d := by
  have hbracket (c : Chunk) : ']' ∉ c.shown.toList := by
    intro hmem
    exact absurd (List.all_eq_true.1 c.isNameChar_shown _ hmem) (by decide)
  simp only [body, String.toList_append, List.append_assoc] at h
  have hshown := List.append_cancel_left (List.append_cancel_left h)
  obtain ⟨-, hreading⟩ := append_cons_cancel (hbracket c) (hbracket d) hshown
  exact hc.reading_injective hd (String.toList_injective (List.cons.inj hreading).2)

theorem bodies_injective (base : UInt16) (pos : Nat) {code code' : List UInt8}
    (h : bodies base (chunks pos code) = bodies base (chunks pos code')) : code = code' := by
  -- the first lines show the same address, so they are of one piece, and behind it both go on at
  -- the same offset
  induction pos, code using chunks_induction generalizing code' with
  | nil pos =>
      by_contra hne
      obtain ⟨c, rest, -, -, hchunks⟩ := exists_chunks_cons pos (Ne.symm hne)
      rw [hchunks, chunks] at h
      cases h
  | cons pos c rest hc hchunks ih =>
      rw [hchunks] at h
      by_cases hne : code' = []
      · rw [hne, chunks] at h
        cases h
      · obtain ⟨d, rest', hd, rfl, hchunks'⟩ := exists_chunks_cons pos hne
        rw [hchunks'] at h
        obtain ⟨hbody, hbodies⟩ := List.cons.inj h
        obtain rfl := hc.body_injective hd hbody
        rw [ih hbodies]

/-! ### Listings -/

/-- A line of a listing and the bytes that it shows, where `code` is the machine code from its
address on: the instruction that is decoded there, or a byte if there is none. -/
inductive Lists (address : UInt16) (code : List UInt8) : List Char → List UInt8 → Prop
  | instruction {i : Instruction} (h : decode? code = some i) :
      Lists address code
        (wordText address ++ " : [" ++ i.opcode.text ++ "] " ++ i.text).toList i.bytes
  | data {b : UInt8} (h : decode? code = none) :
      Lists address code
        (wordText address ++ " : [" ++ byteText b ++ "] DB " ++ byteText b).toList [b]

theorem Chunk.StartsAt.lists {c : Chunk} {code : List UInt8} (h : c.StartsAt code)
    (address : UInt16) : Lists address code (c.body address) c.bytes := by
  cases c with
  | code i => exact .instruction h
  | data b =>
      have hbody : (Chunk.data b).body address
          = (wordText address ++ " : [" ++ byteText b ++ "] DB " ++ byteText b).toList := by
        simp [body, shown, reading]
      rw [hbody]
      exact .data h.1

/-- **Listings lose nothing.**  Any machine code is cut into pieces that are not empty, with one line
of the listing for each: the instruction that is decoded at the address of the line, counted from the
base and wrapped around, or a byte where none is.  And two listings with one base are the same only
if the machine code is. -/
theorem disassemble_lossless (base : UInt16) :
    (∀ code : List UInt8, ∃ ps : List (List UInt8), ps.flatten = code ∧ (∀ p ∈ ps, p ≠ []) ∧
      (lines (disassemble code base).toList).length = ps.length ∧
      ∀ k p, ps[k]? = some p → ∃ (line : List Char) (address : UInt16),
        (lines (disassemble code base).toList)[k]? = some line ∧
        address.toNat = (base.toNat + (ps.take k).flatten.length) % 0x10000 ∧
        Lists address (ps.drop k).flatten line p) ∧
    Function.Injective fun code => disassemble code base := by
  refine ⟨fun code => ⟨pieces 0 code, flatten_pieces 0 code, ?_, ?_, ?_⟩, ?_⟩
  · intro p hp
    obtain ⟨q, -, rfl⟩ := List.mem_map.1 hp
    exact q.2.bytes_ne_nil
  · rw [lines_disassemble, bodies, pieces, List.length_map, List.length_map]
  · intro k p hp
    rw [pieces, List.getElem?_map, Option.map_eq_some_iff] at hp
    obtain ⟨q, hq, rfl⟩ := hp
    obtain ⟨hoffset, hstarts⟩ := startsAt_of_getElem? 0 code hq
    refine ⟨_, base + UInt16.ofNat q.1, ?_, ?_, hstarts.lists _⟩
    · rw [lines_disassemble, bodies, List.getElem?_map, hq]
      rfl
    · rw [UInt16.toNat_add, UInt16.toNat_ofNat', hoffset]
      omega
  · intro code code' h
    have hlines := congrArg (fun text : String => lines text.toList) h
    simp only [lines_disassemble] at hlines
    exact bodies_injective base 0 hlines

/-- STOP without its zero byte, an opcode that is not used, and a jump that is cut off, across the
end of the address space. -/
example : disassemble [0x10, 0xD3, 0x34, 0xC3] 0xFFFE
    = "0xFFFE : [0x10] DB 0x10\n0xFFFF : [0xD3] DB 0xD3\n" ++
      "0x0000 : [0x34] INC (HL)\n0x0001 : [0xC3] DB 0xC3\n" := by
  decide +kernel

end GameBoyAssembler
