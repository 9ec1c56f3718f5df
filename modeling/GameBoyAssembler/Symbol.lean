import Std.Data.TreeMap
import GameBoyAssembler.Error

/-!
# Symbols

A symbol is a label, which stands for an address, or a constant, which stands for a number or for
whatever another symbol stands for.  The other symbol may be bound later, so aliases are followed
only when a value is asked for.

* `Symbol`, `SymbolTable` — what a key is bound to, and all bound keys in order;
* `symbolKey` — the key of a token: a local label belongs to the global label before it;
* `SymbolTable.bind` — bind a key that is not bound yet;
* `SymbolTable.value?`, `SymbolTable.resolve` — the value of a key, at the end of its aliases.
-/

set_option relaxedAutoImplicit false
set_option autoImplicit false

namespace GameBoyAssembler

inductive SymbolKind where
  /-- Bound to the address of the next instruction. -/
  | label
  /-- Bound by EQU. -/
  | constant
  deriving DecidableEq, Repr

/-- What a symbol stands for. -/
inductive Meaning where
  | value (v : Int)
  /-- The meaning of another key, which the given token names. -/
  | sameAs (key : String) (token : Token)
  deriving DecidableEq, Repr

structure Symbol where
  kind : SymbolKind
  meaning : Meaning
  /-- The token that defined the symbol. -/
  token : Token
  deriving DecidableEq, Repr

/-! ### Keys -/

/-- The name of a label without the colons behind it. -/
def withoutColons (text : String) : String :=
  String.ofList (text.toList.reverse.dropWhile (· == ':')).reverse

/-- The key that a token binds or looks up.  A local label is written behind the global label it
belongs to. -/
def symbolKey (scope : Option String) (t : Token) : Except Error String :=
  match t.kind with
  | .localLabel =>
      match scope with
      | some label => .ok (label ++ withoutColons t.text)
      | none => .error (.about t (.noEnclosingLabel (withoutColons t.text)))
  | _ => .ok (withoutColons t.unbracketed)

/-! ### Tables -/

/-- The bound keys, in order. -/
abbrev SymbolTable := Std.TreeMap String Symbol

namespace SymbolTable

/-- Bind a key, unless it is bound already. -/
def bind (table : SymbolTable) (key : String) (symbol : Symbol) : Except Error SymbolTable :=
  match table[key]? with
  | some earlier =>
      .error (.referring symbol.token (.duplicateSymbol key) (some earlier.token))
  | none => .ok (table.insert key symbol)

/-- Why following aliases gave no value. -/
inductive ChaseFailure where
  /-- An alias names a key that is not bound. -/
  | unbound (key : String) (token : Token)
  /-- The aliases come round in a circle. -/
  | circle
  deriving DecidableEq, Repr

/-- Follow at most `steps` meanings from a symbol on. -/
def chaseSteps (table : SymbolTable) : Nat → Symbol → Except ChaseFailure Int
  | 0, _ => .error .circle
  | steps + 1, symbol =>
      match symbol.meaning with
      | .value v => .ok v
      | .sameAs key token =>
          match table[key]? with
          | some target => chaseSteps table steps target
          | none => .error (.unbound key token)

/-- The value at the end of a symbol's aliases.  A chain with more symbols than the table holds
must run in a circle. -/
def chase (table : SymbolTable) (symbol : Symbol) : Except ChaseFailure Int :=
  chaseSteps table (table.size + 1) symbol

/-- The value of a key, if it has one. -/
def value? (table : SymbolTable) (key : String) : Option Int :=
  table[key]?.bind fun symbol => (table.chase symbol).toOption

/-- The value of a key and the token that defined it, for the token `t` that refers to the key. -/
def resolve (table : SymbolTable) (key : String) (t : Token) : Except Error (Int × Token) :=
  match table[key]? with
  | none => .error (.about t (.unknownSymbol key))
  | some symbol =>
      match table.chase symbol with
      | .ok v => .ok (v, symbol.token)
      | .error (.unbound missing token) => .error (.about token (.unknownSymbol missing))
      | .error .circle => .error (.referring t (.circularSymbol key) (some symbol.token))

end SymbolTable

end GameBoyAssembler
