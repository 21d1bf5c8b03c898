import LedgerClient.Signing.Ed25519

/-!
# Signers of transactions

What is signed is never a body alone but a body behind a fixed text, so that a signature
made for a transaction is good for nothing else.
-/

namespace LedgerClient

def transactionDomain : Bytes :=
  "KRATOS_TRANSACTION_V1:".toUTF8.data.toList

def domainSeparated (domain message : Bytes) : Bytes :=
  domain ++ message

structure Signer where
  publicKey : PublicKey
  sign : Bytes → Signature

namespace Signer

def ofSecret (key : Ed25519.SecretKey) : Signer :=
  { publicKey := key.publicKey
    sign := fun body => Ed25519.sign key (domainSeparated transactionDomain body) }

end Signer

/-- Whether a signature of a body was made by the owner of a key. -/
def verifySignature (key : PublicKey) (body : Bytes) (signature : Signature) : Bool :=
  Ed25519.verify key (domainSeparated transactionDomain body) signature

end LedgerClient
