import LedgerClient.Identifier

/-!
# Arguments of the command line

Options stand before the command that they are options of, or after it if they are its own.
The value of an option follows an equals sign or is the next argument; the next argument is
never taken for a value if it looks like an option.  Arguments are read from the left, and a
request for the version or for help is granted as soon as it is read.
-/

namespace LedgerClient

namespace CommandLine

inductive Opt where
  | config
  | logLevel
  | maxAttempts
  | method
  | payloadHex
  | node
  | json
  | version
  | help
deriving DecidableEq

namespace Opt

def name : Opt → String
  | config => "config"
  | logLevel => "log-level"
  | maxAttempts => "max-attempts"
  | method => "method"
  | payloadHex => "payload-hex"
  | node => "node"
  | json => "json"
  | version => "version"
  | help => "help"

def letter? : Opt → Option Char
  | config => some 'c'
  | version => some 'V'
  | help => some 'h'
  | _ => none

def takesValue : Opt → Bool
  | json => false
  | version => false
  | help => false
  | _ => true

end Opt

inductive Given where
  | config (path : String)
  | logLevel (level : String)
  | maxAttempts (count : UInt32)
  | method (method : Method)
  | payloadHex (digits : String)
  | node (id : NodeId)
  | json
deriving DecidableEq

def Given.opt : Given → Opt
  | config _ => .config
  | logLevel _ => .logLevel
  | maxAttempts _ => .maxAttempts
  | method _ => .method
  | payloadHex _ => .payloadHex
  | node _ => .node
  | json => .json

inductive UsageError where
  | unknown (argument : String)
  | noValue (opt : Opt)
  | badValue (opt : Opt) (value : String)
  | needlessValue (opt : Opt)
  | repeated (opt : Opt)
  | missing (opt : Opt)
  | noCommand
deriving DecidableEq

def UsageError.message : UsageError → String
  | .unknown argument => "unexpected argument: " ++ argument
  | .noValue opt => "a value is needed for --" ++ opt.name
  | .badValue opt value => "bad value of --" ++ opt.name ++ ": " ++ value
  | .needlessValue opt => "no value is allowed for --" ++ opt.name
  | .repeated opt => "only one --" ++ opt.name ++ " is allowed"
  | .missing opt => "--" ++ opt.name ++ " is needed"
  | .noCommand => "a command is needed"

/-!
## Values
-/

def digits? (cs : List Char) : Option Nat :=
  if cs.isEmpty || !cs.all (fun c => '0' ≤ c && c ≤ '9') then none
  else some (cs.foldl (fun n c => 10 * n + (c.toNat - 48)) 0)

/-- A number from zero up to, but not including, `bound`; `minusZero` allows zero with a minus. -/
def natural? (minusZero : Bool) (bound : Nat) (s : String) : Option Nat :=
  let n :=
    match s.toList with
    | '+' :: cs => digits? cs
    | '-' :: cs => if minusZero then (digits? cs).filter (· == 0) else none
    | cs => digits? cs
  n.filter (· < bound)

def Given.read? : Opt → String → Option Given
  | .config, s => if s.isEmpty then none else some (.config s)
  | .logLevel, s => some (.logLevel s)
  | .maxAttempts, s => (natural? true UInt32.size s).map fun n => .maxAttempts (UInt32.ofNat n)
  | .method, s => (natural? true UInt16.size s).map fun n => .method ⟨UInt16.ofNat n⟩
  | .payloadHex, s => some (.payloadHex s)
  | .node, s => (natural? false UInt64.size s).map fun n => .node ⟨UInt64.ofNat n⟩
  | _, _ => none

/-- Adds an option to those that were given before; only nodes may be given more than once. -/
def give (given : List Given) (opt : Opt) (value : String) : Except UsageError (List Given) :=
  match Given.read? opt value with
  | none => .error (.badValue opt value)
  | some g =>
      if opt ≠ .node ∧ given.any (fun h => h.opt == opt) then .error (.repeated opt)
      else .ok (given ++ [g])

/-!
## Scanning
-/

inductive Shape where
  | plain
  /-- Two dashes, after which nothing is an option. -/
  | closing
  | long (name : String) (attached : Option String)
  | short (letter : Char) (attached : Option String)

def Shape.of (argument : String) : Shape :=
  match argument.toList with
  | ['-', '-'] => .closing
  | '-' :: '-' :: cs =>
      let name := cs.takeWhile (· != '=')
      let rest := cs.dropWhile (· != '=')
      .long (String.ofList name) (if rest.isEmpty then none else some (String.ofList (rest.drop 1)))
  | '-' :: c :: cs =>
      .short c (if cs.isEmpty then none else
        some (String.ofList (if cs.head? = some '=' then cs.drop 1 else cs)))
  | _ => .plain

def looksLikeOption (argument : String) : Bool :=
  match argument.toList with
  | '-' :: _ :: _ => true
  | _ => false

def find? (allowed : List Opt) : Shape → Option (Opt × Option String)
  | .long name attached => (allowed.find? (fun o => o.name == name)).map fun o => (o, attached)
  | .short letter attached =>
      (allowed.find? (fun o => o.letter? == some letter)).map fun o => (o, attached)
  | _ => none

inductive Stop where
  | finished
  /-- At an argument that is no option, with those after it. -/
  | plain (argument : String) (rest : List String)
  | closed (rest : List String)
  | version
  | help

/-- Takes options from the front of the arguments. -/
def scan (allowed : List Opt) (given : List Given) :
    List String → Except UsageError (List Given × Stop)
  | [] => .ok (given, .finished)
  | argument :: rest =>
      match Shape.of argument with
      | .plain => .ok (given, .plain argument rest)
      | .closing => .ok (given, .closed rest)
      | shape =>
          match find? allowed shape with
          | none => .error (.unknown argument)
          | some (.json, some _) => .error (.needlessValue .json)
          | some (.json, none) =>
              if given.contains .json then .error (.repeated .json)
              else scan allowed (given ++ [.json]) rest
          | some (.version, attached) =>
              match shape, attached with
              | .long .., some _ => .error (.needlessValue .version)
              | _, _ => .ok (given, .version)
          | some (.help, attached) =>
              match shape, attached with
              | .long .., some _ => .error (.needlessValue .help)
              | _, _ => .ok (given, .help)
          | some (opt, some value) =>
              match give given opt value with
              | .error e => .error e
              | .ok given => scan allowed given rest
          | some (opt, none) =>
              match rest with
              | [] => .error (.noValue opt)
              | value :: rest =>
                  if looksLikeOption value then .error (.noValue opt)
                  else
                    match give given opt value with
                    | .error e => .error e
                    | .ok given => scan allowed given rest

/-!
## Invocations
-/

inductive Command where
  | nodes
  /-- Asks a query of some nodes, or of all, and shows the nodes afterwards. -/
  | query (method : Method) (payloadHex : String) (nodes : List NodeId)
deriving DecidableEq

structure Invocation where
  configPath : String
  maxAttempts : Option UInt32
  json : Bool
  command : Command
deriving DecidableEq

inductive Wish where
  | invoke (invocation : Invocation)
  | version
  | help

def defaultConfigPath : String := "kratos-client.toml"

/-- The path that was given, else the one in the environment, else the default. -/
def configPath (preset : Option String) (given : List Given) : Except UsageError String :=
  match given.findSome? (fun | .config path => some path | _ => none), preset with
  | some path, _ => .ok path
  | none, some path => if path.isEmpty then .error (.badValue .config path) else .ok path
  | none, none => .ok defaultConfigPath

def queryOf (given : List Given) : Except UsageError Command :=
  match given.findSome? (fun | .method m => some m | _ => none) with
  | none => .error (.missing .method)
  | some m =>
      let digits := given.findSome? (fun | .payloadHex s => some s | _ => none)
      let nodes := given.filterMap (fun | .node id => some id | _ => none)
      .ok (.query m (digits.getD "") nodes)

/-- The options of a command, after which nothing may follow. -/
def commandOptions (allowed : List Opt) (arguments : List String) :
    Except UsageError (Option (List Given)) :=
  match scan (.help :: allowed) [] arguments with
  | .error e => .error e
  | .ok (given, .finished) => .ok (some given)
  | .ok (given, .closed []) => .ok (some given)
  | .ok (_, .closed (argument :: _)) => .error (.unknown argument)
  | .ok (_, .plain argument _) => .error (.unknown argument)
  | .ok (_, .version) => .error (.unknown "--version")
  | .ok (_, .help) => .ok none

/-- Reads a command with its options; `before` are the options that stand before it. -/
def readCommand (preset : Option String) (before : List Given) (allowed : List Opt)
    (command : List Given → Except UsageError Command) (arguments : List String) :
    Except UsageError Wish := do
  match ← commandOptions allowed arguments with
  | none => return .help
  | some given =>
      let command ← command given
      let path ← configPath preset before
      return .invoke
        { configPath := path
          maxAttempts := before.findSome? (fun | .maxAttempts n => some n | _ => none)
          json := given.contains .json
          command := command }

/-- Help may be asked for with the name of one command. -/
def readHelp : List String → Except UsageError Wish
  | [] => .ok .help
  | [topic] => if topic ∈ ["nodes", "query", "help"] then .ok .help else .error (.unknown topic)
  | _ :: argument :: _ => .error (.unknown argument)

/-- Reads all arguments; `preset` is the path that the environment names. -/
def parse (preset : Option String) (arguments : List String) : Except UsageError Wish := do
  let (before, stop) ← scan [.config, .logLevel, .maxAttempts, .version, .help] [] arguments
  match stop with
  | .plain "nodes" rest => readCommand preset before [.json] (fun _ => .ok .nodes) rest
  | .plain "query" rest =>
      readCommand preset before [.method, .payloadHex, .node, .json] queryOf rest
  | .plain "help" rest => readHelp rest
  | .plain argument _ => throw (.unknown argument)
  | .closed (argument :: _) => throw (.unknown argument)
  | .closed [] => throw .noCommand
  | .finished => throw .noCommand
  | .version => return .version
  | .help => return .help

end CommandLine

end LedgerClient
