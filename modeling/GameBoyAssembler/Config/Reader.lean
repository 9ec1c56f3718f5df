import GameBoyAssembler.Config
import GameBoyAssembler.Config.Toml

/-!
# Reading settings

Settings come from a TOML text.  What it does not set has a default, what it sets beyond the known
keys is ignored, and a known key must have a value of its type, once.  A text that needs more of TOML
than `Toml.parse?` knows is not understood.
-/

set_option relaxedAutoImplicit false
set_option autoImplicit false

namespace GameBoyAssembler

namespace Config

/-- The value of a key, if it is set; the outer `none` says that it is set twice. -/
def setting? (entries : List Toml.Entry) (key : String) : Option (Option Toml.Value) :=
  match entries.filter fun e => e.1 == key with
  | [] => some none
  | [e] => some (some e.2)
  | _ => none

/-- The setting of a key as `read` understands its value, or the default. -/
def read? {α : Type} (entries : List Toml.Entry) (key : String) (default : α)
    (read : Toml.Value → Option α) : Option α := do
  match ← setting? entries key with
  | none => return default
  | some v => read v

def baseOf? : Toml.Value → Option UInt16
  | .integer n => if 0 ≤ n ∧ n ≤ 0xFFFF then some (UInt16.ofInt n) else none
  | _ => none

def flagOf? : Toml.Value → Option Bool
  | .boolean b => some b
  | _ => none

def formatOf? : Toml.Value → Option OutputFormat
  | .text "binary" => some .binary
  | .text "listing" => some .listing
  | _ => none

def textOf? : Toml.Value → Option String
  | .text s => some s
  | _ => none

/-- The assignments of a table; none if the document has no such table. -/
def tableEntries (d : Toml.Document) (name : String) : List Toml.Entry :=
  (d.tables.lookup name).getD []

/-- The settings of a document. -/
def ofDocument? (d : Toml.Document) : Option Config := do
  -- A table name must not be given a plain value.
  guard (d.entries.all fun e => e.1 != "assembler" && e.1 != "output")
  let assembler := tableEntries d "assembler"
  let output := tableEntries d "output"
  let defaults : Config := {}
  return {
    base := ← read? assembler "base" defaults.base baseOf?
    keepGoing := ← read? assembler "keep_going" defaults.keepGoing flagOf?
    format := ← read? output "format" defaults.format formatOf?
    extension := ← read? output "extension" defaults.extension textOf? }

/-- The settings of a TOML text. -/
def parse? (text : String) : Option Config :=
  (Toml.parse? text).bind ofDocument?

end Config

end GameBoyAssembler
