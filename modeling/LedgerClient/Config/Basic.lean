import LedgerClient.Config.Error
import LedgerClient.Node.Registry

/-!
# Configuration of a client

The nodes of a network and the settings of backoff, delivery and chunking.  A client is
only made from a configuration that `validate` accepts.
-/

namespace LedgerClient

@[ext]
structure NodeEntry where
  id : NodeId
  address : String
  certificateHash : Option Hash
deriving DecidableEq

@[ext]
structure DeliverySettings where
  transport : TransportMode
  /-- At most so many nodes are asked; without a limit every candidate is asked once. -/
  maxAttempts : Option UInt32
  /-- The share of the time that is left that one attempt may take. -/
  attemptShare : Binary64
  /-- Whether to wait until a node is no longer left alone, or to ask it all the same. -/
  waitForUnhealthy : Bool
deriving DecidableEq

def DeliverySettings.validate (s : DeliverySettings) : Except ConfigError Unit :=
  if !s.attemptShare.isShare then .error (.badFraction s.attemptShare)
  else if s.maxAttempts = some 0 then .error (.zero .maxAttempts)
  else .ok ()

@[ext]
structure Config where
  networkName : String
  transport : TransportMode
  minBackoffMillis : UInt64
  maxBackoffMillis : UInt64
  requestTimeoutSecs : UInt64
  maxAttempts : Option UInt32
  attemptShare : Binary64
  waitForUnhealthy : Bool
  maxChunkSize : UInt64
  maxChunks : UInt64
  defaultMaxFee : UInt64
  validDurationSecs : UInt64
  nodes : List NodeEntry
deriving DecidableEq

namespace Config

def localNetwork : Config :=
  { networkName := "kratos-local"
    transport := .plaintext
    minBackoffMillis := 250
    maxBackoffMillis := 8000
    requestTimeoutSecs := 120
    maxAttempts := none
    attemptShare := .ofRatio 1 2
    waitForUnhealthy := true
    maxChunkSize := 1024
    maxChunks := 20
    defaultMaxFee := 200000000
    validDurationSecs := 120
    nodes :=
      [⟨⟨3⟩, "127.0.0.1:50211", none⟩, ⟨⟨4⟩, "127.0.0.1:50212", none⟩,
        ⟨⟨5⟩, "127.0.0.1:50213", none⟩, ⟨⟨6⟩, "127.0.0.1:50214", none⟩] }

instance : Inhabited Config :=
  ⟨localNetwork⟩

/-- Looks for an entry that repeats the id or the address of an earlier one. -/
def validateEntries (earlier : List NodeEntry) : List NodeEntry → Except ConfigError Unit
  | [] => .ok ()
  | entry :: rest =>
      if earlier.any (fun e => e.id == entry.id) then .error (.nodeIdTwice entry.id)
      else if earlier.any (fun e => e.address == entry.address) then
        .error (.addressTwice entry.address)
      else validateEntries (entry :: earlier) rest

def validateNodes (c : Config) : Except ConfigError Unit :=
  if c.nodes.isEmpty then .error .noNodes else validateEntries [] c.nodes

def validateSettings (c : Config) : Except ConfigError Unit :=
  if c.minBackoffMillis = 0 then .error .zeroMinBackoff
  else if c.maxBackoffMillis < c.minBackoffMillis then
    .error (.backoffBounds c.minBackoffMillis c.maxBackoffMillis)
  else if !c.attemptShare.isShare then .error (.badFraction c.attemptShare)
  else if c.requestTimeoutSecs = 0 then .error (.zero .requestTimeout)
  else if c.maxAttempts = some 0 then .error (.zero .maxAttempts)
  else if c.maxChunkSize = 0 then .error (.zero .maxChunkSize)
  else if c.maxChunks = 0 then .error (.zero .maxChunks)
  else if c.validDurationSecs = 0 then .error (.zero .validDuration)
  else .ok ()

/-- The nodes are looked at before the settings. -/
def validate (c : Config) : Except ConfigError Unit :=
  match c.validateNodes with
  | .error e => .error e
  | .ok () => c.validateSettings

def requestTimeout (c : Config) : Duration :=
  Duration.ofSeconds c.requestTimeoutSecs

def maxFee (c : Config) : BitVec 128 :=
  BitVec.ofNat 128 c.defaultMaxFee.toNat

def delivery (c : Config) : DeliverySettings :=
  { transport := c.transport
    maxAttempts := c.maxAttempts
    attemptShare := c.attemptShare
    waitForUnhealthy := c.waitForUnhealthy }

def nodeOf (c : Config) (entry : NodeEntry) : Node :=
  (Node.new entry.id entry.address (Duration.ofMillis c.minBackoffMillis)
    (Duration.ofMillis c.maxBackoffMillis)).withCertificateHash entry.certificateHash

/-- The registry of the configured nodes, all with the same backoff bounds. -/
def registry (c : Config) : Except ConfigError Registry :=
  Registry.ofNodes (c.nodes.map c.nodeOf)

end Config

end LedgerClient
