import GameBoyAssembler.Proofs.Addresses
import GameBoyAssembler.Proofs.SeparateLines
import GameBoyAssembler.Proofs.Statements

/-!
# The order of constants

A constant may be used above the line that defines it, and may name a symbol that is bound further
down.  This module shows that the line itself can stand anywhere: moved to another place, it leaves the
program what it was.

The layout looks at the symbols only where it binds one.  So what lines do is known without the
symbols that are bound before them: they fail in any case, or there is a list of bindings that they
make, and all else comes out the same.  Bindings can be made in any order, because a key is never
bound twice.  A line with a constant is one binding, whatever the scope and the address are; to move it
is to make the same bindings in another order.

Main definitions:

* `SucceedAlike` — two outcomes that are results together, and related then;
* `SymbolTable.bindAll` — bind one key after the other;
* `Layout.Planned` — what is done to a layout is known without its symbols;
* `Line.OneBinding` — a line that makes one binding, the same in every layout.

Main results:

* `SymbolTable.bindAll_perm` — the order of bindings does not matter;
* `Layout.planned_untilError` — what lines do is known without the symbols before them;
* `Layout.succeedAlike_untilError` — one binding can be made before some lines or behind them;
* `assemble_constant_moved` — **a constant can stand on any line**.
-/

set_option relaxedAutoImplicit false
set_option autoImplicit false

namespace GameBoyAssembler

/-! ### Outcomes that succeed alike -/

section Outcomes

variable {α β γ α' β' : Type} {R : α → β → Prop} {S : α' → β' → Prop}

/-- If one of the outcomes is a result so is the other, and the results are related by `R`.  Errors
may differ. -/
def SucceedAlike (R : α → β → Prop) (x : Except Error α) (y : Except Error β) : Prop :=
  (∀ a, x = .ok a → ∃ b, y = .ok b ∧ R a b) ∧ ∀ b, y = .ok b → ∃ a, x = .ok a ∧ R a b

theorem AgreesUpTo.succeedAlike {E : Error → Error → Prop} {x : Except Error α} {y : Except Error β}
    (h : AgreesUpTo E R x y) : SucceedAlike R x y := by
  rcases h.cases with ⟨a, b, rfl, rfl, hab⟩ | ⟨e, f, rfl, rfl, -⟩
  · constructor
    · rintro _ ⟨⟩
      exact ⟨b, rfl, hab⟩
    · rintro _ ⟨⟩
      exact ⟨a, rfl, hab⟩
  · exact ⟨nofun, nofun⟩

/-- Whatever leads to steps that all fail, fails. -/
theorem exists_error_bind {x : Except Error α} {f : α → Except Error β}
    (h : ∀ a, ∃ e, f a = .error e) : ∃ e, (x >>= f) = .error e := by
  cases x with
  | error e => exact ⟨e, rfl⟩
  | ok a => exact h a

namespace SucceedAlike

theorem of_errors {x : Except Error α} {y : Except Error β} (hx : ∃ e, x = .error e)
    (hy : ∃ e, y = .error e) : SucceedAlike R x y := by
  obtain ⟨e, rfl⟩ := hx
  obtain ⟨f, rfl⟩ := hy
  exact ⟨nofun, nofun⟩

theorem of_ok {x : Except Error α} {y : Except Error β} (a : α) (b : β) (hx : x = .ok a)
    (hy : y = .ok b) (hab : R a b) : SucceedAlike R x y := by
  subst hx hy
  exact AgreesUpTo.succeedAlike (E := Eq) hab

theorem refl {R : α → α → Prop} (hR : ∀ a, R a a) (x : Except Error α) : SucceedAlike R x x :=
  ⟨fun a ha => ⟨a, ha, hR a⟩, fun a ha => ⟨a, ha, hR a⟩⟩

theorem symm {x : Except Error α} {y : Except Error β} {R' : β → α → Prop}
    (h : SucceedAlike R x y) (hR : ∀ a b, R a b → R' b a) : SucceedAlike R' y x := by
  constructor
  · intro b hb
    obtain ⟨a, ha, hab⟩ := h.2 b hb
    exact ⟨a, ha, hR a b hab⟩
  · intro a ha
    obtain ⟨b, hb, hab⟩ := h.1 a ha
    exact ⟨b, hb, hR a b hab⟩

theorem trans {x : Except Error α} {y : Except Error β} {z : Except Error γ} {R' : β → γ → Prop}
    {T : α → γ → Prop} (h : SucceedAlike R x y) (h' : SucceedAlike R' y z)
    (hT : ∀ a b c, R a b → R' b c → T a c) : SucceedAlike T x z := by
  constructor
  · intro a ha
    obtain ⟨b, hb, hab⟩ := h.1 a ha
    obtain ⟨c, hc, hbc⟩ := h'.1 b hb
    exact ⟨c, hc, hT a b c hab hbc⟩
  · intro c hc
    obtain ⟨b, hb, hbc⟩ := h'.2 c hc
    obtain ⟨a, ha, hab⟩ := h.2 b hb
    exact ⟨a, ha, hT a b c hab hbc⟩

/-- Steps put together: the rest is compared from related results on. -/
theorem bind {x : Except Error α} {y : Except Error β} {f : α → Except Error α'}
    {g : β → Except Error β'} (h : SucceedAlike R x y)
    (hf : ∀ a b, R a b → SucceedAlike S (f a) (g b)) : SucceedAlike S (x >>= f) (y >>= g) := by
  constructor
  · intro a' ha'
    obtain ⟨a, ha, hfa⟩ := bind_eq_ok_iff.1 ha'
    obtain ⟨b, hb, hab⟩ := h.1 a ha
    obtain ⟨b', hb', hab'⟩ := (hf a b hab).1 a' hfa
    exact ⟨b', bind_eq_ok_iff.2 ⟨b, hb, hb'⟩, hab'⟩
  · intro b' hb'
    obtain ⟨b, hb, hgb⟩ := bind_eq_ok_iff.1 hb'
    obtain ⟨a, ha, hab⟩ := h.2 b hb
    obtain ⟨a', ha', hab'⟩ := (hf a b hab).2 b' hgb
    exact ⟨a', bind_eq_ok_iff.2 ⟨a, ha, ha'⟩, hab'⟩

theorem map {x : Except Error α} {y : Except Error β} {f : α → α'} {g : β → β'}
    (h : SucceedAlike R x y) (hf : ∀ a b, R a b → S (f a) (g b)) :
    SucceedAlike S (f <$> x) (g <$> y) := by
  rw [map_eq_pure_bind, map_eq_pure_bind]
  exact h.bind fun a b hab => .of_ok (f a) (g b) rfl rfl (hf a b hab)

end SucceedAlike

end Outcomes

/-! ### Bindings in any order -/

namespace SymbolTable

variable {a b : SymbolTable}

theorem bind_ok_iff {key : String} {x : Symbol} :
    a.bind key x = .ok b ↔ a[key]? = none ∧ a.insert key x = b := by
  unfold SymbolTable.bind
  cases a[key]? with
  | none => simp
  | some y => simp

/-- Bind one key after the other, unless one of them is bound already. -/
def bindAll (table : SymbolTable) (bindings : List (String × Symbol)) : Except Error SymbolTable :=
  bindings.foldlM (fun table b => table.bind b.1 b.2) table

theorem bindAll_cons (table : SymbolTable) (b : String × Symbol) (bs : List (String × Symbol)) :
    table.bindAll (b :: bs) = table.bind b.1 b.2 >>= fun table => table.bindAll bs :=
  List.foldlM_cons ..

theorem bindAll_singleton (table : SymbolTable) (key : String) (x : Symbol) :
    table.bindAll [(key, x)] = table.bind key x :=
  bind_pure _

theorem bindAll_append (table : SymbolTable) (bs cs : List (String × Symbol)) :
    table.bindAll (bs ++ cs) = table.bindAll bs >>= fun table => table.bindAll cs :=
  List.foldlM_append

theorem Same.bindAll (h : Same a b) (bs : List (String × Symbol)) :
    SucceedAlike Same (a.bindAll bs) (b.bindAll bs) := by
  induction bs generalizing a b with
  | nil => exact .of_ok a b rfl rfl h
  | cons binding bs ih =>
      rw [bindAll_cons, bindAll_cons]
      exact (h.bind binding.1 rfl).succeedAlike.bind fun a b hab => ih hab

theorem exists_bind_swapped {key key' : String} {x x' : Symbol}
    (h : (a.bind key x >>= fun a => a.bind key' x') = .ok b) :
    ∃ c, (a.bind key' x' >>= fun a => a.bind key x) = .ok c ∧ Same b c := by
  obtain ⟨_, hfirst, hsecond⟩ := bind_eq_ok_iff.1 h
  obtain ⟨hkey, rfl⟩ := bind_ok_iff.1 hfirst
  obtain ⟨hkey', rfl⟩ := bind_ok_iff.1 hsecond
  rw [Std.TreeMap.getElem?_insert] at hkey'
  split at hkey'
  · cases hkey'
  · rename_i hne
    have hswap : ¬compare key' key = .eq := fun heq => hne (Std.OrientedCmp.eq_symm heq)
    refine ⟨(a.insert key' x').insert key x, bind_eq_ok_iff.2 ⟨_, bind_ok_iff.2 ⟨hkey', rfl⟩,
      bind_ok_iff.2 ⟨?_, rfl⟩⟩, fun k => ?_⟩
    · rw [Std.TreeMap.getElem?_insert, if_neg hswap, hkey]
    · simp only [Std.TreeMap.getElem?_insert]
      split
      · -- `k` is the second key, and so it is not the first
        rename_i hk
        rw [if_neg fun heq => hne (Std.TransCmp.eq_trans heq (Std.OrientedCmp.eq_symm hk))]
      · rfl

theorem bind_swapped (table : SymbolTable) (b c : String × Symbol) :
    SucceedAlike Same (table.bind b.1 b.2 >>= fun table => table.bind c.1 c.2)
      (table.bind c.1 c.2 >>= fun table => table.bind b.1 b.2) := by
  refine ⟨fun _ h => exists_bind_swapped h, fun _ h => ?_⟩
  obtain ⟨a, ha, hsame⟩ := exists_bind_swapped h
  exact ⟨a, ha, hsame.symm⟩

/-- **The order of bindings does not matter.** -/
theorem bindAll_perm {bs cs : List (String × Symbol)} (h : bs.Perm cs) (table : SymbolTable) :
    SucceedAlike Same (table.bindAll bs) (table.bindAll cs) := by
  induction h generalizing table with
  | nil => exact .refl Same.refl _
  | cons b _ ih =>
      rw [bindAll_cons, bindAll_cons]
      refine (SucceedAlike.refl (fun _ => rfl) _).bind ?_
      rintro a _ rfl
      exact ih a
  | swap b c bs =>
      simp only [bindAll_cons, ← bind_assoc]
      exact (bind_swapped table c b).bind fun _ _ hab => hab.bindAll bs
  | trans _ _ ih ih' => exact (ih table).trans (ih' table) fun _ _ _ => Same.trans

end SymbolTable

/-! ### What lines do without the symbols -/

namespace Layout

/-- The layout with other symbols. -/
def withSymbols (l : Layout) (symbols : SymbolTable) : Layout :=
  { l with symbols }

/-- The layout that a step leads to, or its error. -/
def Step.result : Step → Except Error Layout
  | (l, none) => .ok l
  | (_, some e) => .error e

theorem Step.result_andThen (s : Step) (f : Layout → Step) :
    (s.andThen f).result = s.result >>= fun l => (f l).result := by
  obtain ⟨l, _ | e⟩ := s <;> rfl

theorem result_bind (l : Layout) (key : String) (x : Symbol) :
    (l.bind key x).result = l.withSymbols <$> l.symbols.bind key x := by
  unfold Layout.bind
  cases l.symbols.bind key x <;> rfl

theorem untilError_cons (l : Layout) (line : Line) (lines : List Line) :
    l.untilError (line :: lines)
      = (l.add line.statement).result >>= fun l => l.untilError lines := by
  rw [untilError]
  obtain ⟨l', _ | e⟩ := l.add line.statement <;> rfl

theorem untilError_append (l : Layout) (lines lines' : List Line) :
    l.untilError (lines ++ lines') = l.untilError lines >>= fun l => l.untilError lines' := by
  induction lines generalizing l with
  | nil => rfl
  | cons line lines ih =>
      rw [List.cons_append, untilError_cons, untilError_cons, bind_assoc]
      exact bind_congr ih

/-- What `f` does is known without the symbols: it fails in any case, or it makes the same bindings in
any case, and the layout that it leads to is the same up to its symbols. -/
inductive Planned (f : SymbolTable → Except Error Layout) : Prop
  | fails (h : ∀ symbols, ∃ e, f symbols = .error e)
  | binds (bindings : List (String × Symbol)) (l : Layout)
      (h : ∀ symbols, f symbols = l.withSymbols <$> symbols.bindAll bindings)

namespace Planned

theorem ok (l : Layout) : Planned fun symbols => .ok (l.withSymbols symbols) :=
  .binds [] l fun _ => rfl

theorem error (e : Error) : Planned fun _ => .error e :=
  .fails fun _ => ⟨e, rfl⟩

/-- Steps put together make the bindings of both. -/
theorem bind {f : SymbolTable → Except Error Layout} {g : Layout → Except Error Layout}
    (hf : Planned f) (hg : ∀ l : Layout, Planned fun symbols => g (l.withSymbols symbols)) :
    Planned fun symbols => f symbols >>= g := by
  cases hf with
  | fails h =>
      refine .fails fun symbols => ?_
      obtain ⟨e, he⟩ := h symbols
      exact ⟨e, by rw [he]; rfl⟩
  | binds bs l h =>
      cases hg l with
      | fails h' =>
          refine .fails fun symbols => ?_
          rw [h, bind_map_left]
          exact exists_error_bind h'
      | binds bs' l' h' =>
          refine .binds (bs ++ bs') l' fun symbols => ?_
          rw [h, bind_map_left, SymbolTable.bindAll_append, map_bind]
          exact bind_congr h'

end Planned

variable (l : Layout)

theorem planned_bind (key : String) (x : Symbol) :
    Planned fun symbols => ((l.withSymbols symbols).bind key x).result := by
  refine .binds [(key, x)] l fun symbols => ?_
  rw [result_bind, SymbolTable.bindAll_singleton]
  rfl

theorem planned_bindLabel (t : Token) :
    Planned fun symbols => ((l.withSymbols symbols).bindLabel t).result := by
  simp only [bindLabel, withSymbols]
  cases symbolKey l.scope t with
  | error e => exact .error e
  | ok key => exact l.planned_bind key _

theorem planned_defineLabel (t : Token) :
    Planned fun symbols => ((l.withSymbols symbols).defineLabel t).result := by
  simp only [defineLabel]
  split
  · split
    · exact .error _
    · exact planned_bindLabel { l with scope := _ } t
  · exact l.planned_bindLabel t

theorem planned_defineConstant (name : Token) (value : ConstantValue) :
    Planned fun symbols => ((l.withSymbols symbols).defineConstant name value).result := by
  cases value with
  | number v => exact l.planned_bind name.text _
  | symbol t =>
      simp only [defineConstant, withSymbols]
      cases symbolKey l.scope t with
      | error e => exact .error e
      | ok key => exact l.planned_bind name.text _

theorem planned_place (mnemonic : Mnemonic) (name : Token) (operands : List Token) :
    Planned fun symbols => ((l.withSymbols symbols).place mnemonic name operands).result := by
  simp only [place, withSymbols]
  split
  · exact .error _
  · rename_i i _
    by_cases hspace : addressSpace < l.address + instructionLength i.opcode.firstByte
    · simp only [hspace, if_true]
      exact .error _
    · simp only [hspace, if_false]
      exact .ok { l with pending := _, address := _ }

theorem planned_addBody (body : Body) :
    Planned fun symbols => ((l.withSymbols symbols).addBody body).result := by
  cases body with
  | empty => exact .ok l
  | constant name value trailing =>
      simp only [addBody, Step.result_andThen]
      refine (l.planned_defineConstant name value).bind fun l => ?_
      cases trailing with
      | none => exact .ok l
      | some e => exact .error e
  | instruction mnemonic name operands => exact l.planned_place mnemonic name operands

theorem planned_add (s : Statement) :
    Planned fun symbols => ((l.withSymbols symbols).add s).result := by
  obtain ⟨label, body⟩ := s
  simp only [add, Step.result_andThen]
  refine Planned.bind ?_ fun l => ?_
  · cases label with
    | none => exact .ok l
    | some t => exact l.planned_defineLabel t
  · cases body with
    | error e => exact .error e
    | ok body => exact l.planned_addBody body

/-- **What lines do is known without the symbols before them.** -/
theorem planned_untilError (lines : List Line) :
    Planned fun symbols => (l.withSymbols symbols).untilError lines := by
  induction lines generalizing l with
  | nil => exact .ok l
  | cons line lines ih =>
      simp only [untilError_cons]
      exact (l.planned_add line.statement).bind ih

end Layout

/-! ### Lines with a constant -/

/-- The line makes one binding, the same in every layout, or has an error in every layout. -/
inductive Line.OneBinding (line : Line) : Prop
  | fails (h : ∀ l : Layout, ∃ e, (l.add line.statement).result = .error e)
  | binds (key : String) (x : Symbol)
      (h : ∀ l : Layout, (l.add line.statement).result = l.withSymbols <$> l.symbols.bind key x)

/-- A body that is the whole of its line. -/
theorem Layout.result_add_unlabelled (l : Layout) (body : Except Error Body) :
    (l.add ⟨none, body⟩).result = body >>= fun body => (l.addBody body).result := by
  cases body <;> rfl

/-- The effect of a constant with nothing behind it, if its value is no local label. -/
theorem Line.oneBinding_of_body {line : Line} {name : Token} {value : ConstantValue}
    (hline : line.statement = ⟨none, .ok (.constant name value none)⟩)
    (hvalue : ∀ t, value = .symbol t → t.kind ≠ .localLabel) : line.OneBinding := by
  have hadd : ∀ l : Layout,
      (l.add line.statement).result = (l.defineConstant name value).result := by
    intro l
    rw [hline, Layout.result_add_unlabelled]
    exact (Layout.Step.result_andThen _ _).trans (bind_pure _)
  cases value with
  | number v => exact .binds name.text _ fun l => (hadd l).trans (l.result_bind _ _)
  | symbol t =>
      refine .binds name.text ⟨.constant, .sameAs (withoutColons t.unbracketed) t, name⟩ fun l => ?_
      have hkey : symbolKey l.scope t = .ok (withoutColons t.unbracketed) := by
        unfold symbolKey
        split
        · rename_i hlocal
          exact absurd hlocal (hvalue t rfl)
        · rfl
      rw [hadd, Layout.defineConstant, hkey]
      exact l.result_bind _ _

/-- What is read of a constant with nothing behind it. -/
theorem Statement.readConstant_singleton (stop name equ value : Token) :
    (∃ e, readConstant stop name equ [.ok value] = .error e) ∨
      ∃ v, constantValue value = .ok v ∧
        readConstant stop name equ [.ok value] = .ok (.constant name v none) := by
  unfold readConstant
  split
  · exact Or.inl ⟨_, rfl⟩
  · dsimp only
    cases constantValue value with
    | error e => exact Or.inl ⟨e, rfl⟩
    | ok v => exact Or.inr ⟨v, rfl, rfl⟩

/-- **A constant is one binding, in every scope and at every address.** -/
theorem Line.oneBinding_of_constant {name equ value : Token} (hname : name.kind = .identifier)
    (hequ : Statement.isEqu equ = true) (hvalue : value.kind ≠ .localLabel) :
    (Line.alone [.ok name, .ok equ, .ok value]).OneBinding := by
  obtain ⟨stop, hstatement⟩ : ∃ stop, (Line.alone [.ok name, .ok equ, .ok value]).statement
      = ⟨none, Statement.readConstant stop name equ [.ok value]⟩ :=
    ⟨⟨.endOfFile, "", .start, none⟩, by
      simp [Line.statement, Line.alone, Token.isLabel, Statement.readBody, hname, hequ]⟩
  rcases Statement.readConstant_singleton stop name equ value with ⟨e, he⟩ | ⟨v, hv, hbody⟩
  · refine .fails fun l => ⟨e, ?_⟩
    rw [hstatement, he, Layout.result_add_unlabelled]
    rfl
  · rw [hbody] at hstatement
    refine oneBinding_of_body hstatement ?_
    rintro t rfl
    rw [Statement.eq_of_constantValue hv]
    exact hvalue

/-! ### A line moved -/

namespace Layout

theorem same_withSymbols (l : Layout) {a b : SymbolTable} (h : SymbolTable.Same a b) :
    (l.withSymbols a).Same (l.withSymbols b) := by
  refine ⟨h, List.forall₂_same.2 fun p _ => ?_, rfl, rfl⟩
  exact ⟨rfl, List.forall₂_same.2 fun t _ => rfl, rfl, rfl⟩

/-- **One binding can be made before some lines or behind them.** -/
theorem succeedAlike_untilError {line : Line} (hline : line.OneBinding) (l : Layout)
    (lines : List Line) :
    SucceedAlike Same (l.untilError (line :: lines)) (l.untilError (lines ++ [line])) := by
  have hlast : ∀ l : Layout, l.untilError [line] = (l.add line.statement).result := fun l =>
    (l.untilError_cons line []).trans (bind_pure _)
  rw [untilError_cons, untilError_append]
  simp only [hlast]
  cases hline with
  | fails h =>
      refine .of_errors ?_ (exists_error_bind h)
      obtain ⟨e, he⟩ := h l
      exact ⟨e, by rw [he]; rfl⟩
  | binds key x h =>
      have hfirst : ((l.add line.statement).result >>= fun l => l.untilError lines)
          = l.symbols.bind key x >>= fun symbols => (l.withSymbols symbols).untilError lines := by
        rw [h, bind_map_left]
      rw [hfirst]
      cases l.planned_untilError lines with
      | fails h' =>
          obtain ⟨e, he⟩ : ∃ e, l.untilError lines = .error e := h' l.symbols
          exact .of_errors (exists_error_bind h') ⟨e, by rw [he]; rfl⟩
      | binds bs l' h' =>
          -- on both sides all bindings are made at once
          have hbefore : (l.symbols.bind key x >>= fun symbols =>
              (l.withSymbols symbols).untilError lines)
              = l'.withSymbols <$> l.symbols.bindAll ((key, x) :: bs) := by
            rw [SymbolTable.bindAll_cons, map_bind]
            exact bind_congr h'
          have hlines : l.untilError lines = l'.withSymbols <$> l.symbols.bindAll bs := h' l.symbols
          have hbehind : (l.untilError lines >>= fun l => (l.add line.statement).result)
              = l'.withSymbols <$> l.symbols.bindAll (bs ++ [(key, x)]) := by
            rw [hlines, bind_map_left, SymbolTable.bindAll_append, map_bind]
            refine bind_congr fun symbols => ?_
            rw [h, SymbolTable.bindAll_singleton]
            rfl
          rw [hbefore, hbehind]
          have hperm : ((key, x) :: bs).Perm (bs ++ [(key, x)]) :=
            (List.perm_append_singleton (key, x) bs).symm
          exact (SymbolTable.bindAll_perm hperm l.symbols).map fun a b hab => l'.same_withSymbols hab

end Layout

/-- Lines with one binding among them can be assembled with it at another place. -/
theorem succeedAlike_assembleLines {line : Line} (hline : line.OneBinding)
    (before between after : List Line) (base : UInt16) :
    SucceedAlike Program.Same (assembleLines (before ++ line :: (between ++ after)) base)
      (assembleLines (before ++ (between ++ line :: after)) base) := by
  have hfirst : before ++ line :: (between ++ after) = before ++ (line :: between ++ after) := rfl
  have hsecond : before ++ (between ++ line :: after)
      = before ++ (between ++ [line] ++ after) := by
    rw [List.append_assoc between, List.singleton_append]
  have hafter : List.Forall₂ (fun x y => List.Forall₂ SameItem x.items y.items) after after :=
    List.forall₂_same.2 fun _ _ => List.forall₂_same.2 fun item _ => sameItem_refl item
  rw [assembleLines, assembleLines, hfirst, hsecond, Layout.untilError_append,
    Layout.untilError_append _ before, bind_assoc, bind_assoc]
  refine (SucceedAlike.refl (fun _ => rfl) _).bind ?_
  rintro l _ rfl
  rw [Layout.untilError_append, Layout.untilError_append, bind_assoc, bind_assoc]
  refine (Layout.succeedAlike_untilError hline l between).bind fun l l' hl => ?_
  exact ((hl.untilError hafter).bind fun l l' hl => hl.program).succeedAlike

/-- A line with one binding can be moved down over other lines. -/
theorem succeedAlike_assemble {line : String} {items : List Item}
    (hread : readLines line.toList = [items]) (hline : (Line.alone items).OneBinding)
    (before between after : List String) (base : UInt16) :
    SucceedAlike Program.Same
      (assemble ("\n".intercalate (before ++ line :: (between ++ after))) base)
      (assemble ("\n".intercalate (before ++ (between ++ line :: after))) base) := by
  have hfirst :=
    agrees_assemble_readLines ("\n".intercalate (before ++ line :: (between ++ after))) base
  have hsecond :=
    agrees_assemble_readLines ("\n".intercalate (before ++ (between ++ line :: after))) base
  simp only [readLines_intercalate, List.flatMap_append, List.flatMap_cons, hread, List.map_append,
    List.singleton_append, List.map_cons] at hfirst hsecond
  have hmoved := hfirst.succeedAlike.trans (succeedAlike_assembleLines hline _ _ _ base)
    fun _ _ _ => Program.Same.trans
  exact hmoved.trans (hsecond.succeedAlike.symm fun _ _ => Program.Same.symm)
    fun _ _ _ => Program.Same.trans

/-- **A constant can stand on any line.**  Let a line be a constant and nothing else, set to a number
or to a symbol that is no local label.  If it is taken from its place among other lines and put
between any two of them, the source is assembled if it was before, to the same instructions at the
same addresses and to the same keys, with the kinds and the values that they had. -/
theorem assemble_constant_moved {before after before' after' : List String} {line : String}
    {name equ value : Token} (hlines : before ++ after = before' ++ after')
    (hfeed : '\n' ∉ line.toList) (hline : tokenize line = [.ok name, .ok equ, .ok value])
    (hname : name.kind = .identifier) (hequ : Statement.isEqu equ = true)
    (hvalue : value.kind ≠ .localLabel) (base : UInt16) :
    let source := "\n".intercalate (before ++ line :: after)
    let moved := "\n".intercalate (before' ++ line :: after')
    ((∃ p, assemble source base = .ok p) ↔ ∃ q, assemble moved base = .ok q) ∧
      ∀ p q, assemble source base = .ok p → assemble moved base = .ok q →
        p.instructions = q.instructions ∧
          ∀ key : String,
            p.symbols[key]?.map Symbol.kind = q.symbols[key]?.map Symbol.kind ∧
              p.symbols.value? key = q.symbols.value? key := by
  intro source moved
  have hread : readLines line.toList = [[.ok name, .ok equ, .ok value]] := by
    rw [← hline]
    exact readLines_of_tokenize hfeed (by rw [hline]; exact List.cons_ne_nil _ _)
  have hdown := succeedAlike_assemble hread (Line.oneBinding_of_constant hname hequ hvalue)
  have halike : SucceedAlike Program.Same (assemble source base) (assemble moved base) := by
    rcases List.append_eq_append_iff.1 hlines with ⟨between, rfl, rfl⟩ | ⟨between, rfl, rfl⟩
    · have h := hdown before between after' base
      rwa [← List.append_assoc] at h
    · have h := hdown before' between after base
      rw [← List.append_assoc] at h
      exact h.symm fun _ _ => Program.Same.symm
  refine ⟨⟨?_, ?_⟩, fun p q hp hq => ?_⟩
  · rintro ⟨p, hp⟩
    obtain ⟨q, hq, -⟩ := halike.1 p hp
    exact ⟨q, hq⟩
  · rintro ⟨q, hq⟩
    obtain ⟨p, hp, -⟩ := halike.2 q hq
    exact ⟨p, hp⟩
  · obtain ⟨q', hq', hsame⟩ := halike.1 p hp
    obtain rfl : q' = q := Except.ok.inj (hq'.symm.trans hq)
    exact ⟨hsame.instructions, fun key => ⟨hsame.symbols.kind_eq key, hsame.symbols.value?_eq key⟩⟩

/-- An alias moved up, over the constant that it names, two labels and its use. -/
theorem assemble_constant_moved_up :
    ∃ q, assemble "K EQU N ; an alias\nMAIN: LD A, K\n.L JR .L\nN EQU 5" 0x150 = .ok q ∧
      q.instructions = [⟨0x150, .loadImm .a 5⟩, ⟨0x152, .jumpRel none (-2)⟩] ∧
      q.symbols.value? "K" = some 5 := by
  have hrun : (assemble "MAIN: LD A, K\n.L JR .L\nN EQU 5\nK EQU N ; an alias" 0x150).toOption.map
      (fun p => (p.instructions, p.symbols.value? "K"))
      = some ([⟨0x150, .loadImm .a 5⟩, ⟨0x152, .jumpRel none (-2)⟩], some 5) := by decide +kernel
  cases hp : assemble "MAIN: LD A, K\n.L JR .L\nN EQU 5\nK EQU N ; an alias" 0x150 with
  | error e => rw [hp] at hrun; cases hrun
  | ok p =>
      rw [hp] at hrun
      obtain ⟨hinstructions, hvalue⟩ := Prod.mk.inj (Option.some.inj hrun)
      have hmoved := assemble_constant_moved
        (show ["MAIN: LD A, K", ".L JR .L", "N EQU 5"] ++ []
          = [] ++ ["MAIN: LD A, K", ".L JR .L", "N EQU 5"] from rfl)
        (show '\n' ∉ "K EQU N ; an alias".toList by decide)
        (show tokenize "K EQU N ; an alias" = [.ok ⟨.identifier, "K", ⟨1, 1⟩, none⟩,
          .ok ⟨.identifier, "EQU", ⟨1, 3⟩, none⟩, .ok ⟨.identifier, "N", ⟨1, 7⟩, none⟩] by
            decide +kernel)
        rfl (by decide) (by decide) 0x150
      obtain ⟨q, hq⟩ := hmoved.1.1 ⟨p, hp⟩
      obtain ⟨hsame, hkeys⟩ := hmoved.2 p q hp hq
      exact ⟨q, hq, hsame ▸ hinstructions, (hkeys "K").2 ▸ hvalue⟩

end GameBoyAssembler
