import LedgerClient.Config.Basic
import LedgerClient.Toml.Document

/-!
# Configurations as documents

A configuration is kept as a TOML document.  A setting that the document leaves out has the
value that it has in `Config.localNetwork`, and names that mean nothing here are passed over;
a node needs an id and an address.
-/

namespace LedgerClient

open Toml (Table Value)

namespace Config

inductive LoadError where
  | notText (fault : Utf8.Fault)
  | malformed (fault : Toml.Fault)
  /-- A setting has a value of the wrong kind or outside its range. -/
  | badSetting (name : String)
deriving DecidableEq

def LoadError.message : LoadError → String
  | .notText fault => fault.message
  | .malformed fault => "Malformed document: " ++ fault.message
  | .badSetting name => "Bad value of " ++ name

/-!
## Reading
-/

def word? (v : Value) : Option UInt64 :=
  (v.natural? UInt64.size).map UInt64.ofNat

def attempts? (v : Value) : Option UInt32 :=
  (v.natural? UInt32.size).map UInt32.ofNat

/-- A mode by its name, which may also stand as the only name in a table. -/
def mode? : Value → Option TransportMode
  | .text s => TransportMode.ofName? s
  | .table [(name, v)] => if v.isHollow then TransportMode.ofName? name else none
  | _ => none

def hash? (v : Value) : Option Hash :=
  match v with
  | .text s =>
      match Hex.decode (Utf8.encode s) with
      | .ok bs => Octets.ofBytes? 32 bs
      | .error _ => none
  | _ => none

def optionalHash? : Option Value → Option (Option Hash)
  | none => some none
  | some v => (hash? v).map some

def entryOf? (id address : Value) (hash : Option Value) : Option NodeEntry := do
  return { id := ⟨← word? id⟩
           address := ← address.text?
           certificateHash := ← optionalHash? hash }

/-- A node as a table, or as the list of its id, its address and perhaps the hash of its
certificate. -/
def entry? : Value → Option NodeEntry
  | .table t => do
      entryOf? (← Table.get? t "id") (← Table.get? t "address") (Table.get? t "cert_hash")
  | .list (id :: address :: rest) => entryOf? id address rest.head?
  | _ => none

def entries? (v : Value) : Option (List NodeEntry) := do
  (← v.list?).mapM entry?

/-- The value of a setting, or its default if the table has no such name. -/
def setting {α : Type} (t : Table) (name : String) (read : Value → Option α) (default : α) :
    Except LoadError α :=
  match Table.get? t name with
  | none => .ok default
  | some v =>
      match read v with
      | some a => .ok a
      | none => .error (.badSetting name)

def ofTable (t : Table) : Except LoadError Config := do
  let d := localNetwork
  return {
    networkName := ← setting t "network_name" Value.text? d.networkName
    transport := ← setting t "transport" mode? d.transport
    minBackoffMillis := ← setting t "min_backoff_ms" word? d.minBackoffMillis
    maxBackoffMillis := ← setting t "max_backoff_ms" word? d.maxBackoffMillis
    requestTimeoutSecs := ← setting t "request_timeout_secs" word? d.requestTimeoutSecs
    maxAttempts := ← setting t "max_attempts" (fun v => (attempts? v).map some) d.maxAttempts
    attemptShare := ← setting t "attempt_timeout_fraction" Value.number? d.attemptShare
    waitForUnhealthy := ← setting t "wait_for_unhealthy_nodes" Value.flag? d.waitForUnhealthy
    maxChunkSize := ← setting t "max_chunk_size" word? d.maxChunkSize
    maxChunks := ← setting t "max_chunks" word? d.maxChunks
    defaultMaxFee := ← setting t "default_max_fee" word? d.defaultMaxFee
    validDurationSecs := ← setting t "transaction_valid_duration_secs" word? d.validDurationSecs
    nodes := ← setting t "nodes" entries? d.nodes }

def loadFrom (form : Toml.TextForm) (bs : Bytes) : Except LoadError Config :=
  match Utf8.decode bs with
  | .error fault => .error (.notText fault)
  | .ok text =>
      match form.parse text with
      | .error fault => .error (.malformed fault)
      | .ok t => ofTable t

def load (bs : Bytes) : Except LoadError Config :=
  loadFrom Toml.textForm bs

/-!
## Writing
-/

def wordValue (n : UInt64) : Value :=
  .integer n.toNat

def optionalField {α : Type} (name : String) (value : α → Value) : Option α → Table
  | none => []
  | some a => [(name, value a)]

def entryTable (e : NodeEntry) : Table :=
  [("id", wordValue e.id.number), ("address", .text e.address)] ++
    optionalField "cert_hash" (fun h => .text (Hex.encode h.toBytes)) e.certificateHash

def toTable (c : Config) : Table :=
  [("network_name", .text c.networkName), ("transport", .text c.transport.name),
    ("min_backoff_ms", wordValue c.minBackoffMillis),
    ("max_backoff_ms", wordValue c.maxBackoffMillis),
    ("request_timeout_secs", wordValue c.requestTimeoutSecs)] ++
  optionalField "max_attempts" (fun n => .integer n.toNat) c.maxAttempts ++
  [("attempt_timeout_fraction", .float c.attemptShare),
    ("wait_for_unhealthy_nodes", .flag c.waitForUnhealthy),
    ("max_chunk_size", wordValue c.maxChunkSize), ("max_chunks", wordValue c.maxChunks),
    ("default_max_fee", wordValue c.defaultMaxFee),
    ("transaction_valid_duration_secs", wordValue c.validDurationSecs),
    ("nodes", .list (c.nodes.map fun e => .table (entryTable e)))]

def saveAs (form : Toml.TextForm) (c : Config) : Option String :=
  form.render c.toTable

/-- The document of a configuration; there is none if a number does not fit the format. -/
def save (c : Config) : Option String :=
  c.saveAs Toml.textForm

end Config

end LedgerClient
