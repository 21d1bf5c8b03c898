import LedgerClient.Delivery.Run
import LedgerClient.Node.Registry

/-!
# Reports as JSON

The state of nodes and the receipts of transactions as JSON values, and the text of such
values with every item and field on a line of its own.
-/

namespace LedgerClient

inductive JsonValue where
  | number (n : Nat)
  | flag (b : Bool)
  | text (s : String)
  | list (items : List JsonValue)
  | record (fields : List (String × JsonValue))
deriving Inhabited

namespace JsonValue

/-!
## Text
-/

def escape (c : Char) : List Char :=
  if c = '"' then ['\\', '"']
  else if c = '\\' then ['\\', '\\']
  else if c = '\x08' then ['\\', 'b']
  else if c = '\x0c' then ['\\', 'f']
  else if c = '\n' then ['\\', 'n']
  else if c = '\r' then ['\\', 'r']
  else if c = '\t' then ['\\', 't']
  else if c.toNat < 32 then
    '\\' :: 'u' :: '0' :: '0' :: [Hex.digit (c.toNat / 16), Hex.digit (c.toNat % 16)]
  else [c]

def quoted (s : String) : String :=
  "\"" ++ String.ofList (s.toList.flatMap escape) ++ "\""

def newLine (depth : Nat) : String :=
  "\n" ++ String.ofList (List.replicate (2 * depth) ' ')

def bracketed (left right : String) (depth : Nat) (lines : List String) : String :=
  if lines.isEmpty then left ++ right
  else
    left ++ newLine (depth + 1) ++ ("," ++ newLine (depth + 1)).intercalate lines ++
      newLine depth ++ right

mutual

def pretty (depth : Nat) : JsonValue → String
  | .number n => toString n
  | .flag b => if b then "true" else "false"
  | .text s => quoted s
  | .list items => bracketed "[" "]" depth (prettyItems (depth + 1) items)
  | .record fields => bracketed "\x7b" "\x7d" depth (prettyFields (depth + 1) fields)

def prettyItems (depth : Nat) : List JsonValue → List String
  | [] => []
  | v :: rest => v.pretty depth :: prettyItems depth rest

def prettyFields (depth : Nat) : List (String × JsonValue) → List String
  | [] => []
  | (name, v) :: rest => (quoted name ++ ": " ++ v.pretty depth) :: prettyFields depth rest

end

end JsonValue

/-!
## What is reported
-/

def Health.Snapshot.toJson (s : Health.Snapshot) : JsonValue :=
  .record
    [("last_used_at", .number s.lastUsedAt.toNat), ("use_count", .number s.useCount),
      ("backoff_until", .number s.backoffUntil.toNat),
      ("current_backoff_ms", .number s.currentBackoffMillis.toNat),
      ("failure_count", .number s.failureCount)]

def Registry.Status.toJson (s : Registry.Status) : JsonValue :=
  .record
    [("id", .number s.id.number.toNat), ("address", .text s.address), ("healthy", .flag s.healthy),
      ("remaining_backoff_ms", .number s.remainingBackoffMillis), ("health", s.health.toJson)]

def TransactionId.toJson (id : TransactionId) : JsonValue :=
  .record
    [("account_id", .list (id.account.key.toBytes.map fun b => .number b.toNat)),
      ("valid_start", .number id.validStart.toNat), ("nonce", .number id.nonce.toNat),
      ("scheduled", .flag id.scheduled)]

def Receipt.toJson (r : Receipt) : JsonValue :=
  .record
    [("node_id", .number r.node.number.toNat), ("transaction_id", r.transactionId.toJson),
      ("hash", .text (Hex.encode r.hash.toBytes)), ("attempts", .number r.attempts)]

end LedgerClient
