import GameBoyAssembler.Proofs.Relocation

/-!
# Sources one below the other

A source may be assembled in two parts if the second one starts where the image of the first one ends
and no key is bound in both.  The second part then finds a layout with instructions, a scope and
symbols in it, and does there what it does alone.  The instructions in front are not looked at.  A scope
that is open gives a key to local labels that had none, and a program alone has no such label.  The
symbols are only added to, and no value changes by it, since a chain of aliases goes on as it did.

Main definitions:

* `SymbolTable.Joined` — a table with the keys of two others.

Main results:

* `SymbolTable.Joined.bindAll` — bindings made on top of other symbols;
* `Layout.exists_untilError_below` — lines do below other lines what they do alone;
* `assemble_below` — **sources that are assembled one below the other**.
-/

set_option relaxedAutoImplicit false
set_option autoImplicit false

namespace GameBoyAssembler

/-! ### Tables put together -/

namespace SymbolTable

/-- The table has the keys of `a` and those of `b`. -/
def Joined (a b table : SymbolTable) : Prop :=
  ∀ key : String, table[key]? = a[key]?.or b[key]?

/-- No key is bound in both tables. -/
def Disjoint (a b : SymbolTable) : Prop :=
  ∀ key : String, key ∈ a → key ∉ b

variable {a b c table : SymbolTable}

theorem notMem_iff {key : String} : key ∉ a ↔ a[key]? = none := by
  rw [Std.TreeMap.mem_iff_isSome_getElem?, Option.not_isSome_iff_eq_none]

theorem Extends.trans (hab : a.Extends b) (hbc : b.Extends c) : a.Extends c := by
  intro key x hx
  exact hbc key x (hab key x hx)

theorem Extends.mem (h : a.Extends b) {key : String} (hkey : key ∈ a) : key ∈ b := by
  rw [Std.TreeMap.mem_iff_isSome_getElem?] at hkey ⊢
  obtain ⟨x, hx⟩ := Option.isSome_iff_exists.1 hkey
  rw [h key x hx]
  rfl

theorem extends_bind {key : String} {x : Symbol} (h : a.bind key x = .ok b) :
    a.Extends b ∧ key ∈ b := by
  obtain ⟨hkey, rfl⟩ := bind_ok_iff.1 h
  refine ⟨?_, Std.TreeMap.mem_insert_self⟩
  intro k y hy
  rw [Std.TreeMap.getElem?_insert]
  split
  · rename_i heq
    rw [← Std.LawfulEqCmp.eq_of_compare heq, hkey] at hy
    cases hy
  · exact hy

theorem extends_bindAll {bs : List (String × Symbol)} (h : a.bindAll bs = .ok b) : a.Extends b := by
  induction bs generalizing a with
  | nil =>
      cases h
      exact fun _ _ hx => hx
  | cons binding bs ih =>
      rw [bindAll_cons] at h
      obtain ⟨a', hbind, hrest⟩ := bind_eq_ok_iff.1 h
      exact (extends_bind hbind).1.trans (ih hrest)

theorem Same.mem_iff (h : Same a b) (key : String) : key ∈ a ↔ key ∈ b := by
  have hsome := congrArg Option.isSome (h key)
  rw [Option.isSome_map, Option.isSome_map] at hsome
  rw [Std.TreeMap.mem_iff_isSome_getElem?, Std.TreeMap.mem_iff_isSome_getElem?, hsome]

namespace Joined

variable (h : Joined a b table)

include h

theorem mem_iff (key : String) : key ∈ table ↔ key ∈ a ∨ key ∈ b := by
  simp only [Std.TreeMap.mem_iff_isSome_getElem?, h key, Option.isSome_or, Bool.or_eq_true]

theorem left : a.Extends table := by
  intro key x hx
  rw [h key, hx]
  rfl

theorem right (hdisjoint : a.Disjoint b) : b.Extends table := by
  intro key x hx
  have hkey : a[key]? = none := by
    rw [← notMem_iff]
    intro hmem
    refine hdisjoint key hmem ?_
    rw [Std.TreeMap.mem_iff_isSome_getElem?, hx]
    rfl
  rw [h key, hkey, hx]
  rfl

theorem insert {key : String} (hkey : key ∉ a) (x : Symbol) :
    Joined a (b.insert key x) (table.insert key x) := by
  intro k
  rw [Std.TreeMap.getElem?_insert, Std.TreeMap.getElem?_insert]
  split
  · rename_i heq
    rw [← Std.LawfulEqCmp.eq_of_compare heq, notMem_iff.1 hkey]
    rfl
  · exact h k

/-- **Bindings made on top of other symbols**, if none of their keys is bound there. -/
theorem bindAll {bs : List (String × Symbol)} (hb : b.bindAll bs = .ok c)
    (hdisjoint : a.Disjoint c) : ∃ table', table.bindAll bs = .ok table' ∧ Joined a c table' := by
  induction bs generalizing b table with
  | nil =>
      cases hb
      exact ⟨table, rfl, h⟩
  | cons binding bs ih =>
      rw [bindAll_cons] at hb
      obtain ⟨b', hbind, hrest⟩ := bind_eq_ok_iff.1 hb
      have hnew : binding.1 ∉ a := by
        intro hmem
        exact hdisjoint _ hmem ((extends_bindAll hrest).mem (extends_bind hbind).2)
      obtain ⟨hkey, rfl⟩ := bind_ok_iff.1 hbind
      have hfree : table[binding.1]? = none := by
        rw [h, notMem_iff.1 hnew, hkey]
        rfl
      obtain ⟨table', htable, hjoined⟩ := ih (h.insert hnew binding.2) hrest
      refine ⟨table', ?_, hjoined⟩
      rw [bindAll_cons]
      exact bind_eq_ok_iff.2 ⟨_, bind_ok_iff.2 ⟨hfree, rfl⟩, htable⟩

end Joined

end SymbolTable

/-! ### Lines below other lines -/

namespace Layout

/-- A layout is an empty one with instructions in front, up to its symbols. -/
theorem shifted_below {l : Layout} {base : UInt16} (h : l.address = base.toNat) :
    Shifted 0 l.pending.toList (start base) (l.withSymbols ∅) := by
  refine ⟨?_, Or.inl rfl, fun key => ?_, [], (List.append_nil _).symm, .nil⟩
  · simp only [start, withSymbols, h]
    omega
  · simp only [start, withSymbols, Std.TreeMap.getElem?_emptyc, Option.map_none]

/-- **Lines do below other lines what they do alone**, if they bind none of the keys above. -/
theorem exists_untilError_below {l m : Layout} {base : UInt16} (haddress : l.address = base.toNat)
    {lines : List Line} (hm : (start base).untilError lines = .ok m)
    (hdisjoint : l.symbols.Disjoint m.symbols) :
    ∃ r, l.untilError lines = .ok r ∧ l.symbols.Joined m.symbols r.symbols ∧
      ∃ qs, r.pending.toList = l.pending.toList ++ qs ∧
        List.Forall₂ (Pending.Shifted 0) m.pending.toList qs := by
  rcases (shifted_below haddress).untilError lines m hm with ⟨r, hr, hshifted⟩ | ⟨hne, -⟩
  · have hsymbols : ∀ key : String, r.symbols[key]? = m.symbols[key]? := by
      intro key
      rw [hshifted.symbols key]
      cases m.symbols[key]? with
      | none => rfl
      | some x => exact congrArg some x.shift_zero
    -- the same bindings are made on no symbols and on those of `l`
    cases l.planned_untilError lines with
    | fails hfails =>
        obtain ⟨e, he⟩ := hfails ∅
        rw [hr] at he
        cases he
    | binds bs l' hbinds =>
        have hrun := hbinds ∅
        rw [hr] at hrun
        cases hb : SymbolTable.bindAll ∅ bs with
        | error e =>
            rw [hb] at hrun
            cases hrun
        | ok b =>
            rw [hb] at hrun
            cases hrun
            replace hsymbols : ∀ key : String, b[key]? = m.symbols[key]? := hsymbols
            have hdisjoint' : l.symbols.Disjoint b := by
              intro key hkey
              rw [SymbolTable.notMem_iff, hsymbols, ← SymbolTable.notMem_iff]
              exact hdisjoint key hkey
            have hempty : l.symbols.Joined ∅ l.symbols := by
              intro key
              rw [Std.TreeMap.getElem?_emptyc, Option.or_none]
            obtain ⟨table, htable, hjoined⟩ := hempty.bindAll hb hdisjoint'
            refine ⟨l'.withSymbols table, ?_, ?_, hshifted.pending⟩
            · have hrun' := hbinds l.symbols
              rw [htable] at hrun'
              exact hrun'
            · intro key
              rw [← hsymbols]
              exact hjoined key
  · exact absurd rfl hne

end Layout

/-! ### Programs -/

/-- An instruction that is found with more symbols and in a wider scope. -/
theorem Pending.Shifted.resolve {p q : Pending} (h : p.Shifted 0 q) {s s' : SymbolTable}
    (hs : s.Extends s') {a : Assembled} (ha : p.resolve s = .ok a) : q.resolve s' = .ok a := by
  have haddress : q.address = p.address := by
    have := h.address
    exact UInt16.toNat_inj.1 (by omega)
  have hwithin : Context.Within ⟨some s, p.scope, p.address⟩ ⟨some s', q.scope, q.address⟩ :=
    ⟨h.scope, Or.inr ⟨haddress.symm, s, s', rfl, rfl, hs⟩⟩
  have hbuild : q.build (some s') = .ok a.instruction := by
    rw [build, h.mnemonic, h.name, h.operands]
    exact hwithin.select (Pending.resolve_eq_ok ha).1
  rw [Pending.resolve, hbuild, haddress, ← (Pending.resolve_eq_ok ha).2]
  rfl

theorem Pending.shifted_refl (p : Pending) : p.Shifted 0 p :=
  ⟨rfl, rfl, rfl, (Int.add_zero _).symm, Or.inr rfl⟩

/-- Instructions that are found one by one with more symbols and in wider scopes. -/
theorem Pending.forall₂_resolve {ps qs : List Pending} (h : List.Forall₂ (Pending.Shifted 0) ps qs)
    {s s' : SymbolTable} (hs : s.Extends s') {as : List Assembled}
    (has : List.Forall₂ (fun p a => p.resolve s = .ok a) ps as) :
    List.Forall₂ (fun q a => q.resolve s' = .ok a) qs as := by
  induction h generalizing as with
  | nil =>
      cases has
      exact .nil
  | cons hpq _ ih =>
      cases has with
      | cons ha has => exact .cons (hpq.resolve hs ha) (ih has)

theorem assembleLines_eq_ok_iff {lines : List Line} {base : UInt16} {p : Program} :
    assembleLines lines base = .ok p ↔
      ∃ l : Layout, (Layout.start base).untilError lines = .ok l ∧
        List.Forall₂ (fun q a => q.resolve l.symbols = .ok a) l.pending.toList p.instructions ∧
        p.symbols = l.symbols := by
  rw [assembleLines, bind_eq_ok_iff]
  refine exists_congr fun l => and_congr_right fun _ => ?_
  rw [Layout.program, bind_eq_ok_iff]
  constructor
  · rintro ⟨as, has, h⟩
    cases h
    exact ⟨mapM_eq_ok_iff.1 has, rfl⟩
  · rintro ⟨has, hsymbols⟩
    refine ⟨_, mapM_eq_ok_iff.2 has, ?_⟩
    rw [← hsymbols]
    rfl

/-- The layout of a program goes on where its image ends. -/
theorem Layout.address_of_untilError {lines : List Line} {base : UInt16} {l : Layout}
    (hl : (Layout.start base).untilError lines = .ok l) {as : List Assembled}
    (has : List.Forall₂ (fun q a => q.resolve l.symbols = .ok a) l.pending.toList as) :
    l.address = base.toNat + (as.flatMap fun a => a.instruction.bytes).length := by
  have hplaced := Layout.isPlaced_keepGoing base lines
  rw [Layout.untilError_eq_ok_iff.1 hl] at hplaced
  exact (hplaced.consecutive_resolved has).stop_eq

/-- Lines that are assembled below other lines. -/
theorem exists_assembleLines_append {lines lines' : List Line} {base base' : UInt16}
    {p p' : Program} (h : assembleLines lines base = .ok p)
    (hbase : base'.toNat = base.toNat + p.image.length)
    (h' : assembleLines lines' base' = .ok p') (hdisjoint : p.symbols.Disjoint p'.symbols) :
    ∃ q, assembleLines (lines ++ lines') base = .ok q ∧
      q.instructions = p.instructions ++ p'.instructions ∧
      p.symbols.Joined p'.symbols q.symbols := by
  obtain ⟨l, hl, has, hsymbols⟩ := assembleLines_eq_ok_iff.1 h
  obtain ⟨m, hm, hbs, hsymbols'⟩ := assembleLines_eq_ok_iff.1 h'
  rw [hsymbols, hsymbols'] at hdisjoint ⊢
  have haddress : l.address = base'.toNat := by
    rw [hbase]
    exact Layout.address_of_untilError hl has
  obtain ⟨r, hr, hjoined, qs, hpending, hqs⟩ :=
    Layout.exists_untilError_below haddress hm hdisjoint
  have hrun : (Layout.start base).untilError (lines ++ lines') = .ok r := by
    rw [Layout.untilError_append]
    exact bind_eq_ok_iff.2 ⟨l, hl, hr⟩
  refine ⟨⟨p.instructions ++ p'.instructions, r.symbols⟩,
    assembleLines_eq_ok_iff.2 ⟨r, hrun, ?_, rfl⟩, rfl, hjoined⟩
  rw [hpending]
  refine List.rel_append ?_ (Pending.forall₂_resolve hqs (hjoined.right hdisjoint) hbs)
  exact Pending.forall₂_resolve (List.forall₂_same.2 fun q _ => q.shifted_refl) hjoined.left has

/-- **Sources that are assembled one below the other.**  Let a source be assembled, and another one
from where its image ends on, and let no key be bound in both.  Then the two are assembled as one
source, to the instructions of both at their addresses, with one image behind the other.  The keys of
both are bound, and those that had a value in their table keep it. -/
theorem assemble_below {source source' : String} {base : UInt16} {p p' : Program}
    (h : assemble source base = .ok p) (hspace : base.toNat + p.image.length ≤ 0xFFFF)
    (h' : assemble source' (UInt16.ofNat (base.toNat + p.image.length)) = .ok p')
    (hkeys : ∀ key : String, ¬ (key ∈ p.symbols ∧ key ∈ p'.symbols)) :
    ∃ q, assemble (source ++ "\n" ++ source') base = .ok q ∧
      q.instructions = p.instructions ++ p'.instructions ∧ q.image = p.image ++ p'.image ∧
      (∀ key : String, key ∈ q.symbols ↔ key ∈ p.symbols ∨ key ∈ p'.symbols) ∧
      ∀ (key : String) (v : Int),
        p.symbols.value? key = some v ∨ p'.symbols.value? key = some v →
        q.symbols.value? key = some v := by
  -- the lines of each source alone, and of both
  obtain ⟨r, hr, hpr⟩ := (agrees_assemble_readLines source base).succeedAlike.1 p h
  obtain ⟨r', hr', hpr'⟩ := (agrees_assemble_readLines source' _).succeedAlike.1 p' h'
  have himage : r.image = p.image := by
    rw [Program.image, Program.image, hpr.instructions]
  have hbase : (UInt16.ofNat (base.toNat + p.image.length)).toNat
      = base.toNat + r.image.length := by
    rw [himage]
    exact UInt16.toNat_ofNat_of_lt' (Nat.lt_succ_of_le hspace)
  have hdisjoint : r.symbols.Disjoint r'.symbols := by
    intro key hkey hkey'
    exact hkeys key ⟨(hpr.symbols.mem_iff key).2 hkey, (hpr'.symbols.mem_iff key).2 hkey'⟩
  obtain ⟨s, hs, hinstructions, hjoined⟩ := exists_assembleLines_append hr hbase hr' hdisjoint
  have hlines : readLines (source ++ "\n" ++ source').toList
      = readLines source.toList ++ readLines source'.toList := by
    rw [← readLines_append]
    simp
  rw [← List.map_append, ← hlines] at hs
  obtain ⟨q, hq, hqs⟩ := (agrees_assemble_readLines _ base).succeedAlike.2 s hs
  have hall : q.instructions = p.instructions ++ p'.instructions := by
    rw [hqs.instructions, hinstructions, hpr.instructions, hpr'.instructions]
  refine ⟨q, hq, hall, ?_, ?_, ?_⟩
  · rw [Program.image, hall, List.flatMap_append]
    rfl
  · intro key
    rw [hqs.symbols.mem_iff, hjoined.mem_iff, hpr.symbols.mem_iff, hpr'.symbols.mem_iff]
  · intro key v hv
    rw [hqs.symbols.value?_eq]
    rcases hv with hv | hv
    · rw [hpr.symbols.value?_eq] at hv
      exact hjoined.left.value? hv
    · rw [hpr'.symbols.value?_eq] at hv
      exact (hjoined.right hdisjoint).value? hv

/-- A call of a local label. -/
def callAndReturn : String :=
  "MAIN: CALL .out\n.out: RET"

/-- A loop in front of which no global label stands, with a count that is found through an alias. -/
def countDown : String :=
  "LD B, COUNT\nAGAIN: DEC B\nJR NZ, AGAIN\nCOUNT EQU TIMES\nTIMES EQU 5"

/-- The loop is entered in the scope of the first source. -/
theorem assemble_below_countDown :
    ∃ p p' q, assemble callAndReturn 0x0150 = .ok p ∧ p.image = [0xCD, 0x53, 0x01, 0xC9] ∧
      assemble countDown 0x0154 = .ok p' ∧ p'.symbols.value? "COUNT" = some 5 ∧
      assemble (callAndReturn ++ "\n" ++ countDown) 0x0150 = .ok q ∧
      q.image = [0xCD, 0x53, 0x01, 0xC9, 0x06, 0x05, 0x05, 0x20, 0xFD] ∧
      q.symbols.value? "COUNT" = some 5 := by
  have hrun : (assemble callAndReturn 0x0150).toOption.map (fun p => (p.image, p.symbols.keys))
      = some ([0xCD, 0x53, 0x01, 0xC9], ["MAIN", "MAIN.out"]) := by decide +kernel
  have hrun' : (assemble countDown 0x0154).toOption.map
      (fun p => (p.image, p.symbols.keys, p.symbols.value? "COUNT"))
      = some ([0x06, 0x05, 0x05, 0x20, 0xFD], ["AGAIN", "COUNT", "TIMES"], some 5) := by
    decide +kernel
  cases h : assemble callAndReturn 0x0150 with
  | error e => rw [h] at hrun; cases hrun
  | ok p =>
      cases h' : assemble countDown 0x0154 with
      | error e => rw [h'] at hrun'; cases hrun'
      | ok p' =>
          rw [h] at hrun
          rw [h'] at hrun'
          simp only [Except.toOption, Option.map_some, Option.some.injEq, Prod.mk.injEq]
            at hrun hrun'
          obtain ⟨himage, hkeys⟩ := hrun
          obtain ⟨himage', hkeys', hcount⟩ := hrun'
          have hbase : UInt16.ofNat ((0x0150 : UInt16).toNat + p.image.length) = 0x0154 := by
            rw [himage]
            rfl
          have hdisjoint : ∀ key : String, ¬ (key ∈ p.symbols ∧ key ∈ p'.symbols) := by
            have hlists : ∀ key ∈ ["MAIN", "MAIN.out"], key ∉ ["AGAIN", "COUNT", "TIMES"] := by
              decide
            intro key
            rw [← Std.TreeMap.mem_keys, ← Std.TreeMap.mem_keys, hkeys, hkeys']
            exact fun hkey => hlists key hkey.1 hkey.2
          obtain ⟨q, hq, -, hqimage, -, hvalues⟩ :=
            assemble_below h (by rw [himage]; decide) (by rw [hbase]; exact h') hdisjoint
          refine ⟨p, p', q, rfl, himage, rfl, hcount, hq, ?_, hvalues "COUNT" 5 (Or.inr hcount)⟩
          rw [hqimage, himage, himage']
          rfl

end GameBoyAssembler
