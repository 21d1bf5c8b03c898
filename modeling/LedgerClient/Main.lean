import LedgerClient.Rehearsal.Servers
import Std.Time.DateTime.Timestamp

/-!
# The program

Reads the arguments, the environment and the configuration, and writes what the command line
comes to.  The program opens no sockets of its own: to it, nobody listens at any address.
-/

namespace LedgerClient

namespace Program

def fileAt (path : String) : IO CommandLine.File := do
  try
    return .octets (← IO.FS.readBinFile path).data.toList
  catch
    | .noFileOrDirectory .. => return .absent
    | _ => return .unreadable

/-- The configuration that the arguments name, if they name one. -/
def configFile (preset : Option String) (arguments : List String) : IO CommandLine.File := do
  match CommandLine.parse preset arguments with
  | .ok (.invoke i) => fileAt i.configPath
  | _ => return .absent

def wallClock : IO Clock := do
  let now ← Std.Time.Timestamp.now
  return .running (UInt64.ofInt now.toMillisecondsSinceUnixEpoch.val)

def run (arguments : List String) : IO UInt32 := do
  let preset ← IO.getEnv "KRATOS_CLIENT_CONFIG"
  let file ← configFile preset arguments
  let servers := Rehearsal.Servers.new (← wallClock) (← IO.monoMsNow) []
  let (outcome, _) :=
    CommandLine.run (Rehearsal.Servers.surroundings 0) (fun _ => file) preset arguments servers
  IO.print outcome.output
  unless outcome.complaint.isEmpty do
    IO.eprintln ("Error: " ++ outcome.complaint)
  return outcome.exitCode.toUInt32

end Program

end LedgerClient

def main (arguments : List String) : IO UInt32 :=
  LedgerClient.Program.run arguments
