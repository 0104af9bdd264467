import EntityStore.CommandLine

/-!
The program. It opens no connection of its own, so the server in its session is never reached.
-/
namespace EntityStore.Main

def read (path : String) : IO (Option String) := do
  try
    some <$> IO.FS.readFile path
  catch _ => pure none

def settingsDirectory : IO String := do
  let home := ((← IO.getEnv "HOME").map fun home => home ++ "/.config").getD "."
  match ← IO.getEnv "XDG_CONFIG_HOME" with
  | some path => pure (if path.startsWith "/" then path else home)
  | none => pure home

def settingsPath : IO String := do
  let name := (← IO.appPath).fileStem.getD "."
  pure ((← settingsDirectory) ++ "/" ++ name ++ "/config.toml")

def unreachable : Session :=
  { replies := [.failure (.connection "failed to acquire connection: no server")] }

end EntityStore.Main

def main (arguments : List String) : IO UInt32 := do
  let exit ← EntityStore.CommandLine.run {
    read := EntityStore.Main.read
    settingsPath := ← EntityStore.Main.settingsPath
    session := EntityStore.Main.unreachable } arguments
  IO.print exit.output
  if !exit.complaint.isEmpty then IO.eprintln exit.complaint
  pure (UInt32.ofNat exit.code)
