import LedgerClient.Client
import LedgerClient.CommandLine.Arguments
import LedgerClient.Config.Document
import LedgerClient.Report.Json
import LedgerClient.Report.Table

/-!
# Running a command line

Arguments, files and surroundings give what is written to the output and the code that the
program ends with: zero for an answer or the report of a failed query, two for arguments that
are not understood, and one where the configuration or the payload is no good.
-/

namespace LedgerClient

namespace CommandLine

inductive File where
  | absent
  /-- Something that cannot be read as a file. -/
  | unreadable
  | octets (bs : Bytes)
deriving DecidableEq

structure Outcome where
  exitCode : UInt8
  output : String
  complaint : String
deriving DecidableEq

namespace Outcome

def success (output : String) : Outcome :=
  { exitCode := 0, output := output, complaint := "" }

def failure (complaint : String) : Outcome :=
  { exitCode := 1, output := "", complaint := complaint }

def misuse (e : UsageError) : Outcome :=
  { exitCode := 2, output := "", complaint := e.message }

/-- A point in time or a span was outside its range. -/
def breakdown : Outcome :=
  { exitCode := 101, output := "", complaint := "time out of range" }

end Outcome

def versionText : String := "kratos-client 0.1.0\n"

def helpText : String :=
  String.join
    ["Usage: kratos-client [OPTIONS] <COMMAND>\n", "\n", "Commands:\n",
      "  nodes [--json]\n",
      "  query --method <N> [--payload-hex <HEX>] [--node <ID>]... [--json]\n", "\n",
      "Options:\n", "  -c, --config <PATH>\n", "      --log-level <LEVEL>\n",
      "      --max-attempts <N>\n", "  -h, --help\n", "  -V, --version\n"]

/-- The configuration in a file, or the default one if there is no such file. -/
def readConfig : File → Except String Config
  | .absent => .ok Config.localNetwork
  | .unreadable => .error "the configuration cannot be read"
  | .octets bs => (Config.load bs).mapError Config.LoadError.message

def clientOf (i : Invocation) (file : File) : Except String Client := do
  let config ← readConfig file
  let config :=
    match i.maxAttempts with
    | some max => { config with maxAttempts := some max }
    | none => config
  (Client.ofConfig config).mapError ClientError.message

/-- Drops every mark at the front that says that hexadecimal digits follow. -/
def dropHexMarks : List Char → List Char
  | '0' :: 'x' :: rest => dropHexMarks rest
  | cs => cs

def payload (digits : String) : Except Hex.Fault Bytes :=
  Hex.decode (Utf8.encode (String.ofList (dropHexMarks digits.toList)))

def statusText (json : Bool) (statuses : List Registry.Status) : String :=
  if json then (JsonValue.list (statuses.map Registry.Status.toJson)).pretty 0 ++ "\n"
  else Report.table statuses

def answerText : Ending Response → Option String
  | .answered r =>
      some ("✅ " ++ r.node.text ++ " answered after " ++ toString r.attempts ++ " attempts: " ++
        Hex.encode r.payload ++ "\n")
  | .failed e => some ("❌ Query failed: " ++ e.message ++ "\n")
  | .halted _ => none

variable {σ : Type}

def showNodes (w : Surroundings σ) (json : Bool) (client : Client) (world : σ) : String × σ :=
  let (now, world) := w.clock world
  (statusText json (client.report now), world)

def perform (w : Surroundings σ) (json : Bool) (client : Client) (command : Command) (world : σ) :
    Outcome × σ :=
  match command with
  | .nodes =>
      let (shown, world) := showNodes w json client world
      (.success shown, world)
  | .query method digits nodes =>
      match payload digits with
      | .error fault => (.failure fault.message, world)
      | .ok bs =>
          let run := client.query w { method := method, payload := bs, nodes := nodes } world
          match answerText run.ending with
          | none => (.breakdown, run.world)
          | some answer =>
              let (shown, world) := showNodes w json (client.withRegistry run.registry) run.world
              (.success (answer ++ shown), world)

/-- Runs a command line; `preset` is the path of the configuration that the environment names. -/
def run (w : Surroundings σ) (files : String → File) (preset : Option String)
    (arguments : List String) (world : σ) : Outcome × σ :=
  match parse preset arguments with
  | .error e => (.misuse e, world)
  | .ok .version => (.success versionText, world)
  | .ok .help => (.success helpText, world)
  | .ok (.invoke i) =>
      match clientOf i (files i.configPath) with
      | .error complaint => (.failure complaint, world)
      | .ok client => perform w i.json client i.command world

end CommandLine

end LedgerClient
