import GameBoyAssembler.CommandLine.Address
import GameBoyAssembler.CommandLine.Run
import GameBoyAssembler.Config.Reader

/-!
# Reading the command line

Arguments are read from left to right.  An option with a value takes it from the same argument or
from the next, which must not look like an option.  Behind a double dash every argument is an input.

* `Request.ofArgs` — the request of a command line;
* `Readers.builtin` — the readers that the command comes with.
-/

set_option relaxedAutoImplicit false
set_option autoImplicit false

namespace GameBoyAssembler

/-- An option that takes a value. -/
inductive ValueOption where
  | output
  | base
  | config
  deriving DecidableEq, Repr

/-- Why reading arguments ends early: they are malformed, or ask for a text to be shown. -/
inductive Stop where
  | usage
  | display (text : String)
  deriving DecidableEq, Repr

/-- The name and version of the program. -/
def versionText : String := "gbasm 0.1.0\n"

/-- The help text of the program. -/
def helpText : String := String.join [
  "Assembler for the Game Boy CPU\n\n",
  "Usage: gbasm [OPTIONS] <INPUT>\n\n",
  "Arguments:\n",
  "  <INPUT>  Assembly source, or a binary image with --disassemble\n\n",
  "Options:\n",
  "  -o, --output <FILE>  Output file. Defaults to the input with the configured extension for ",
  "binaries, and to stdout for listings\n",
  "  -l, --listing        Write a listing instead of the binary image\n",
  "      --keep-going     Report every failing statement instead of stopping at the first\n",
  "      --base <ADDR>    Address of the first instruction, fx. '0x150'\n",
  "      --config <FILE>  Config file to use instead of the one in the config directory\n",
  "      --disassemble    List the instructions of a binary image\n",
  "  -h, --help           Print help\n",
  "  -V, --version        Print version\n"]

/-- What the arguments so far have set. -/
structure Draft where
  input : Option String := none
  output : Option String := none
  listing : Bool := false
  keepGoing : Bool := false
  base : Option UInt16 := none
  config : Option String := none
  disassemble : Bool := false
  /-- The option whose value comes next. -/
  awaiting : Option ValueOption := none
  /-- A double dash has been read. -/
  onlyInputs : Bool := false

namespace Draft

/-- A path, which must be set only once and must not be empty. -/
def path (old : Option String) (value : String) : Except Stop (Option String) :=
  if old.isSome || value.isEmpty then .error .usage else .ok (some value)

def setInput (d : Draft) (value : String) : Except Stop Draft :=
  return { d with input := ← path d.input value }

/-- Set an option to its value. -/
def setValue (d : Draft) (value : String) : ValueOption → Except Stop Draft
  | .output => return { d with output := ← path d.output value }
  | .config => return { d with config := ← path d.config value }
  | .base =>
      match d.base, parseAddress value with
      | none, .ok address => .ok { d with base := some address }
      | _, _ => .error .usage

def setListing (d : Draft) : Except Stop Draft :=
  if d.listing then .error .usage else .ok { d with listing := true }

def setKeepGoing (d : Draft) : Except Stop Draft :=
  if d.keepGoing then .error .usage else .ok { d with keepGoing := true }

def setDisassemble (d : Draft) : Except Stop Draft :=
  if d.disassemble then .error .usage else .ok { d with disassemble := true }

/-- A long option with the value behind its equals sign, if there is one. -/
def long (d : Draft) (name : String) (value : Option String) : Except Stop Draft :=
  let valued (option : ValueOption) : Except Stop Draft :=
    match value with
    | some v => d.setValue v option
    | none => .ok { d with awaiting := some option }
  match name, value with
  | "output", _ => valued .output
  | "base", _ => valued .base
  | "config", _ => valued .config
  | "listing", none => d.setListing
  | "keep-going", none => d.setKeepGoing
  | "disassemble", none => d.setDisassemble
  | "version", none => .error (.display versionText)
  | "help", none => .error (.display helpText)
  | _, _ => .error .usage

/-- A run of short options.  A value takes up the rest of its argument. -/
def short (d : Draft) : List Char → Except Stop Draft
  | [] => .ok d
  | 'l' :: rest => do (← d.setListing).short rest
  | 'o' :: [] => .ok { d with awaiting := some .output }
  | 'o' :: '=' :: value => d.setValue (String.ofList value) .output
  | 'o' :: value => d.setValue (String.ofList value) .output
  | 'V' :: _ => .error (.display versionText)
  | 'h' :: _ => .error (.display helpText)
  | _ => .error .usage

/-- An argument that is read as options. -/
def looksLikeOption (arg : String) : Bool :=
  arg.toList.head? == some '-' && arg != "-"

/-- Read one more argument. -/
def step (d : Draft) (arg : String) : Except Stop Draft :=
  match d.awaiting with
  | some option =>
      if looksLikeOption arg then .error .usage
      else { d with awaiting := none }.setValue arg option
  | none =>
      if d.onlyInputs || ¬ looksLikeOption arg then d.setInput arg
      else
        match arg.toList with
        | ['-', '-'] => .ok { d with onlyInputs := true }
        | '-' :: '-' :: cs =>
            let name := String.ofList (cs.takeWhile (· != '='))
            match cs.dropWhile (· != '=') with
            | _ :: value => d.long name (some (String.ofList value))
            | [] => d.long name none
        | _ => d.short arg.toList.tail

/-- The options, once all arguments are read. -/
def finish (d : Draft) : Except Stop Options :=
  match d.input, d.awaiting with
  | some input, none =>
      if d.disassemble && (d.listing || d.keepGoing) then .error .usage
      else .ok ⟨input, d.output, d.listing, d.keepGoing, d.base, d.config, d.disassemble⟩
  | _, _ => .error .usage

end Draft

/-- The request of a command line. -/
def Request.ofArgs (args : List String) : Request :=
  match args.foldlM Draft.step {} >>= Draft.finish with
  | .ok options => .run options
  | .error (.display text) => .display text
  | .error .usage => .usage "usage"

/-- The readers of arguments and settings that the command comes with. -/
def Readers.builtin : Readers where
  request := Request.ofArgs
  settings text :=
    match Config.parse? text with
    | some config => .ok config
    | none => .error "malformed settings"

end GameBoyAssembler
