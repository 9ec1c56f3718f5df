import GameBoyAssembler.CommandLine.Arguments

/-!
# The command

The run of the program on the files and the standard output of the system.
-/

set_option relaxedAutoImplicit false
set_option autoImplicit false

namespace GameBoyAssembler

/-- The fault that the system reports, in words and with its number. -/
def systemFault (e : IO.Error) : FileFault :=
  match e with
  | .noFileOrDirectory _ code details => .system s!"{details} (os error {code})"
  | .inappropriateType _ code details => .system s!"{details} (os error {code})"
  | .permissionDenied _ code details => .system s!"{details} (os error {code})"
  | .otherError code details => .system s!"{details} (os error {code})"
  | e => .system (toString e)

/-- The settings file of the user. -/
def userConfigPath : IO (Option String) := do
  let folder ← match ← IO.getEnv "XDG_CONFIG_HOME", ← IO.getEnv "HOME" with
    | some folder, home =>
        if folder.startsWith "/" then pure (some folder)
        else pure (home.map (· ++ "/.config"))
    | none, home => pure (home.map (· ++ "/.config"))
  return folder.map (· ++ "/gbasm/config.toml")

/-- The files and the standard output of the system. -/
def systemHost (configPath : Option String) : Host IO where
  read path := do
    try
      return .ok (← IO.FS.readBinFile path).toList
    catch e => return .error (systemFault e)
  write path content := do
    try
      IO.FS.writeBinFile path ⟨content.toArray⟩
      return .ok ()
    catch e => return .error (systemFault e)
  print bytes := do
    try
      let stdout ← IO.getStdout
      stdout.write ⟨bytes.toArray⟩
      stdout.flush
      return .ok ()
    catch e => return .error (systemFault e)
  configPath := configPath

end GameBoyAssembler

open GameBoyAssembler in
def main (args : List String) : IO UInt32 := do
  let outcome ← run .builtin (systemHost (← userConfigPath)) args
  IO.eprint outcome.stderr
  return outcome.exitCode.toUInt32
