import GameBoyAssembler.CommandLine.Options
import GameBoyAssembler.Config
import GameBoyAssembler.Diagnostic
import GameBoyAssembler.File.Tree
import GameBoyAssembler.Program

/-!
# A run of the program

A run reads settings and an input, and writes one file or shows one text, or it fails with messages.
It reaches files and the standard output only through a `Host`, so the same run works on the system
and on a `FileTree`.  How command lines and settings are spelled is left to `Readers`.

* `Readers` — what command lines and settings texts mean;
* `Host` — how a run reads and writes files and shows texts;
* `World`, `FileTree.host` — files and a standard output in memory;
* `Failure` — why a run fails;
* `run` — a run of the program on its arguments.
-/

set_option relaxedAutoImplicit false
set_option autoImplicit false

namespace GameBoyAssembler

/-- What command lines and settings texts mean. -/
structure Readers where
  request : List String → Request
  /-- The settings of a text, or why it has none. -/
  settings : String → Except String Config

/-- How a run reaches files and the standard output. -/
structure Host (m : Type → Type) where
  read : String → m (Except FileFault (List UInt8))
  write : String → List UInt8 → m (Except FileFault Unit)
  /-- Put bytes on the standard output. -/
  print : List UInt8 → m (Except FileFault Unit)
  /-- The settings file of the user. -/
  configPath : Option String

/-- What a run works on. -/
structure World (φ : Type) where
  files : φ
  /-- What stands on the standard output. -/
  stdout : List UInt8
  deriving DecidableEq, Repr

/-- The files of a tree, with a standard output that takes everything. -/
def FileTree.host (configPath : Option String) : Host (StateM (World FileTree)) where
  read path := return (← get).files.read path
  write path content := do
    let world ← get
    match world.files.write path content with
    | .ok files =>
        set { world with files }
        return .ok ()
    | .error fault => return .error fault
  print bytes := do
    modify fun world => { world with stdout := world.stdout ++ bytes }
    return .ok ()
  configPath := configPath

/-- What a run leaves behind besides files and its standard output. -/
structure Outcome where
  exitCode : UInt8
  stderr : String
  deriving DecidableEq, Repr

/-- Why a run fails. -/
inductive Failure where
  | configUnreadable (fault : FileFault)
  | configMalformed (reason : String)
  | unreadable (path : String) (fault : FileFault)
  | unwritable (path : String) (fault : FileFault)
  /-- The standard output does not take all of a text. -/
  | unprintable (fault : FileFault)
  | overwritesInput (path : String)
  /-- The errors of a source, each as it is shown. -/
  | errors (path : String) (shown : List String)
  /-- An extension with a slash.  It is not reported as an error but stops the program. -/
  | badExtension (extension : String)
  deriving DecidableEq, Repr

/-- The text that a failure leaves on the error stream. -/
def Failure.text : Failure → String
  | configUnreadable fault => "error: failed to load config file: " ++ fault.text ++ "\n"
  | configMalformed reason => "error: failed to deserialize config file: " ++ reason ++ "\n"
  | unreadable path fault => "error: failed to read '" ++ path ++ "': " ++ fault.text ++ "\n"
  | unwritable path fault => "error: failed to write '" ++ path ++ "': " ++ fault.text ++ "\n"
  | unprintable fault => "error: failed to write listing: " ++ fault.text ++ "\n"
  | overwritesInput path => "error: output '" ++ path ++ "' would overwrite the input\n"
  | errors path shown =>
      String.join (shown.map (· ++ "\n\n"))
        ++ "error: " ++ Nat.repr shown.length ++ " error(s) in '" ++ path ++ "'\n"
  | badExtension extension =>
      "extension cannot contain path separators: " ++ extension.quote ++ "\n"

/-- The exit code of a failure. -/
def Failure.exitCode : Failure → UInt8
  | badExtension _ => 101
  | _ => 1

/-- The text of a file. -/
def textOf (content : List UInt8) : Except FileFault String :=
  match String.fromUTF8? ⟨content.toArray⟩ with
  | some text => .ok text
  | none => .error .notText

/-- The bytes of a text. -/
def bytesOf (text : String) : List UInt8 :=
  text.toUTF8.toList

/-- Settings from the content of a file. -/
def Readers.configOf (readers : Readers) (content : Except FileFault (List UInt8)) :
    Except Failure Config :=
  match content.bind textOf with
  | .error fault => .error (.configUnreadable fault)
  | .ok text => (readers.settings text).mapError .configMalformed

namespace Options

/-- The program of a source, or its errors. -/
def assembleText (o : Options) (config : Config) (source : String) : Except (List Error) Program :=
  let base := o.base.getD config.base
  if o.keepGoing || config.keepGoing then assembleAll source base
  else (assemble source base).mapError fun e => [e]

/-- A text to show or a file to write. -/
inductive Product where
  | shown (text : String)
  | saved (path : String) (content : List UInt8)
  deriving DecidableEq, Repr

/-- A text goes to the output file if there is one. -/
def textProduct (o : Options) (text : String) : Product :=
  match o.output with
  | some path => .saved path (bytesOf text)
  | none => .shown text

/-- Where machine code goes: to the output file if there is one, and next to the input if not. -/
def imagePath (o : Options) (config : Config) : Except Failure String :=
  match o.output.or (withExtension? o.input config.extension) with
  | some path => .ok path
  | none => .error (.badExtension config.extension)

/-- What a program is turned into.  Machine code must not go to the input. -/
def programProduct (o : Options) (config : Config) (p : Program) : Except Failure Product :=
  let format := if o.listing then .listing else config.format
  match format with
  | .listing => .ok (o.textProduct p.listing)
  | .binary => do
      let path ← o.imagePath config
      if samePath path o.input then .error (.overwritesInput path) else .ok (.saved path p.image)

/-- What the content of the input is turned into. -/
def product (o : Options) (config : Config) (content : Except FileFault (List UInt8)) :
    Except Failure Product :=
  if o.disassemble then
    match content with
    | .error fault => .error (.unreadable o.input fault)
    | .ok bytes =>
        .ok (o.textProduct (GameBoyAssembler.disassemble bytes (o.base.getD config.base)))
  else
    match content.bind textOf with
    | .error fault => .error (.unreadable o.input fault)
    | .ok source =>
        match o.assembleText config source with
        | .error errors => .error (.errors o.input (errors.map (Error.render source)))
        | .ok p => o.programProduct config p

end Options

/-- The outcome of a run that fails. -/
def Outcome.failed (f : Failure) : Outcome :=
  ⟨f.exitCode, f.text⟩

/-- The outcome of a run that succeeds. -/
def Outcome.done : Outcome :=
  ⟨0, ""⟩

/-- The outcome of malformed arguments. -/
def Outcome.usage (text : String) : Outcome :=
  ⟨2, text⟩

section

variable {m : Type → Type} [Monad m]

/-- The settings of a run.  A file that is asked for must be good; the user's own file is ignored if
it is not. -/
def Host.config (host : Host m) (readers : Readers) (o : Options) : m (Except Failure Config) := do
  match o.config, host.configPath with
  | some path, _ => return readers.configOf (← host.read path)
  | none, some path => return .ok ((readers.configOf (← host.read path)).toOption.getD {})
  | none, none => return .ok {}

/-- Show a text or write a file. -/
def Host.deliver (host : Host m) : Options.Product → m Outcome
  | .shown text => do
      match ← host.print (bytesOf text) with
      | .ok () => return .done
      | .error fault => return .failed (.unprintable fault)
  | .saved path content => do
      match ← host.write path content with
      | .ok () => return .done
      | .error fault => return .failed (.unwritable path fault)

/-- A run with given options. -/
def Host.runOptions (host : Host m) (readers : Readers) (o : Options) : m Outcome := do
  match ← host.config readers o with
  | .error f => return .failed f
  | .ok config =>
      match o.product config (← host.read o.input) with
      | .error f => return .failed f
      | .ok product => host.deliver product

end

/-- A run of the program on its arguments.  Whether a text that they ask for could be shown does not
matter. -/
def run {m : Type → Type} [Monad m] (readers : Readers) (host : Host m) (args : List String) :
    m Outcome :=
  match readers.request args with
  | .usage text => return .usage text
  | .display text => do
      let _ ← host.print (bytesOf text)
      return .done
  | .run o => host.runOptions readers o

end GameBoyAssembler
