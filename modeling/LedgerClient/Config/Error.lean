import LedgerClient.Identifier
import LedgerClient.Number.Shortest

/-!
# What can be wrong with a configuration
-/

namespace LedgerClient

inductive Setting where
  | requestTimeout
  | maxAttempts
  | maxChunkSize
  | maxChunks
  | validDuration
deriving DecidableEq

def Setting.name : Setting → String
  | .requestTimeout => "request_timeout_secs"
  | .maxAttempts => "max_attempts"
  | .maxChunkSize => "max_chunk_size"
  | .maxChunks => "max_chunks"
  | .validDuration => "transaction_valid_duration_secs"

inductive ConfigError where
  | noNodes
  | nodeIdTwice (id : NodeId)
  | addressTwice (address : String)
  | backoffBounds (min max : UInt64)
  | zeroMinBackoff
  | badFraction (fraction : Binary64)
  | zero (setting : Setting)
  | secureTransport
deriving DecidableEq

def ConfigError.message : ConfigError → String
  | .noNodes => "At least one node must be configured"
  | .nodeIdTwice id => "Duplicate node id: " ++ id.text
  | .addressTwice address => "Duplicate node address: " ++ address
  | .backoffBounds min max =>
      "min_backoff_ms (" ++ toString min.toNat ++ ") must not exceed max_backoff_ms (" ++
        toString max.toNat ++ ")"
  | .zeroMinBackoff => "min_backoff_ms must be greater than zero"
  | .badFraction fraction => "attempt_timeout_fraction (" ++ fraction.text ++ ") must be in (0, 1]"
  | .zero setting => setting.name ++ " must be greater than zero"
  | .secureTransport =>
      "Unsupported transport: secure transport needs a TLS channel factory, " ++
        "see Client::with_channels"

end LedgerClient
