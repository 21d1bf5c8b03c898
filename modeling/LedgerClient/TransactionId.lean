import LedgerClient.Identifier
import LedgerClient.Time.Clock
import LedgerClient.Wire.Codec

/-!
# Transaction ids

Nodes recognise a transaction that is submitted twice by its id: the paying account, the
start of the time in which it is valid, and a nonce that tells apart two transactions of
one account with the same start.
-/

namespace LedgerClient

@[ext]
structure TransactionId where
  account : AccountId
  validStart : Timestamp
  nonce : UInt32
  scheduled : Bool
deriving DecidableEq, Inhabited

namespace AccountId

def codec : Codec AccountId :=
  (Codec.octets 32).iso AccountId.key AccountId.mk

end AccountId

namespace NodeId

def codec : Codec NodeId :=
  Codec.u64.iso NodeId.number NodeId.mk

end NodeId

namespace TransactionId

def codec : Codec TransactionId :=
  (AccountId.codec.pair (Codec.u64.pair (Codec.u32.pair Codec.flag))).iso
    (fun id => (id.account, id.validStart, id.nonce, id.scheduled))
    (fun (account, validStart, nonce, scheduled) => ⟨account, validStart, nonce, scheduled⟩)

def new (account : AccountId) (validStart : Timestamp) : TransactionId :=
  { account := account, validStart := validStart, nonce := 0, scheduled := false }

def generate (account : AccountId) (now : Timestamp) (nonce : UInt32) : TransactionId :=
  { new account now with nonce := nonce }

/-- The id whose validity starts `offset` milliseconds later. -/
def withOffset (id : TransactionId) (offset : UInt64) : TransactionId :=
  { id with validStart := id.validStart.plusMillis offset.toNat }

def withScheduled (id : TransactionId) (scheduled : Bool) : TransactionId :=
  { id with scheduled := scheduled }

def threeDigits (n : Nat) : String :=
  let digits := toString n
  String.ofList (List.replicate (3 - digits.length) '0') ++ digits

/-- Account, then the start in seconds with three decimals, then a mark if it is scheduled. -/
def text (id : TransactionId) : String :=
  let start := id.validStart.toNat
  id.account.text ++ "@" ++ toString (start / 1000) ++ "." ++ threeDigits (start % 1000) ++
    (if id.scheduled then "?scheduled" else "")

end TransactionId

end LedgerClient
