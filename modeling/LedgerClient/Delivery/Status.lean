import LedgerClient.Wire.Codec

/-!
# What a node answers

A node looks at a request before it takes part in consensus on it and answers with a code
and a payload.  The code says whether the request was accepted, whether another node may
still accept it, or whether it is the request itself that is at fault.
-/

namespace LedgerClient

inductive PrecheckCode where
  | ok
  | busy
  | transactionNotCreated
  | notActive
  | invalidSignature
  | insufficientFee
  | invalidBody
  | duplicateTransaction
  | expired
  | other (number : UInt32)
deriving DecidableEq, Inhabited

inductive PrecheckClass where
  | accepted
  | retryable
  | fatal
deriving DecidableEq

namespace PrecheckCode

def classify : PrecheckCode → PrecheckClass
  | ok => .accepted
  | busy => .retryable
  | transactionNotCreated => .retryable
  | notActive => .retryable
  | _ => .fatal

def text : PrecheckCode → String
  | ok => "Ok"
  | busy => "Busy"
  | transactionNotCreated => "PlatformTransactionNotCreated"
  | notActive => "PlatformNotActive"
  | invalidSignature => "InvalidSignature"
  | insufficientFee => "InsufficientTxFee"
  | invalidBody => "InvalidTransactionBody"
  | duplicateTransaction => "DuplicateTransaction"
  | expired => "TransactionExpired"
  | other number => "Other(" ++ toString number.toNat ++ ")"

def encode : PrecheckCode → Bytes
  | ok => Codec.encodeAlternative 0 []
  | busy => Codec.encodeAlternative 1 []
  | transactionNotCreated => Codec.encodeAlternative 2 []
  | notActive => Codec.encodeAlternative 3 []
  | invalidSignature => Codec.encodeAlternative 4 []
  | insufficientFee => Codec.encodeAlternative 5 []
  | invalidBody => Codec.encodeAlternative 6 []
  | duplicateTransaction => Codec.encodeAlternative 7 []
  | expired => Codec.encodeAlternative 8 []
  | other number => Codec.encodeAlternative 9 (Codec.u32.encode number)

def decode : Reader PrecheckCode :=
  Codec.decodeSum
    [Reader.pure ok, Reader.pure busy, Reader.pure transactionNotCreated, Reader.pure notActive,
      Reader.pure invalidSignature, Reader.pure insufficientFee, Reader.pure invalidBody,
      Reader.pure duplicateTransaction, Reader.pure expired, Codec.u32.decode.map other]

def codec : Codec PrecheckCode where
  encode := encode
  decode := decode

end PrecheckCode

@[ext]
structure NodeResponse where
  status : PrecheckCode
  payload : Bytes
deriving DecidableEq

namespace NodeResponse

def codec : Codec NodeResponse :=
  (PrecheckCode.codec.pair Codec.blob).iso
    (fun r => (r.status, r.payload)) (fun (status, payload) => ⟨status, payload⟩)

end NodeResponse

end LedgerClient
