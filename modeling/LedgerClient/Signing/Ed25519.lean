import LedgerClient.Digest.Sha512
import LedgerClient.Identifier
import LedgerClient.Signing.Edwards

/-!
# Signatures on the Edwards curve

A secret of 32 octets gives a scalar and a string that makes nonces; signing needs no
chance.  A signature is checked by computing its first half again, so its point is never
read from the octets.
-/

namespace LedgerClient

namespace Ed25519

open Edwards

structure SecretKey where
  seed : Octets 32
deriving DecidableEq

/-- The number in the first half of a digest with its lowest three bits and its highest bit cleared
and its second highest bit set. -/
def clamp (digest : Bytes) : Nat :=
  let n := Bytes.ofLittleEndian (digest.take 32)
  n % (1 <<< 254) / 8 * 8 + (1 <<< 254)

def SecretKey.scalar (key : SecretKey) : Nat :=
  clamp (Sha512.hash key.seed.toBytes).toBytes

def SecretKey.nonceSource (key : SecretKey) : Bytes :=
  (Sha512.hash key.seed.toBytes).toBytes.drop 32

def SecretKey.publicKey (key : SecretKey) : PublicKey :=
  compress (scale key.scalar basePoint)

def scalarOf (bs : Bytes) : Nat :=
  Bytes.ofLittleEndian (Sha512.hash bs).toBytes % groupOrder

def sign (key : SecretKey) (message : Bytes) : Signature :=
  let publicKey := key.publicKey
  let r := scalarOf (key.nonceSource ++ message)
  let first := compress (scale r basePoint)
  let k := scalarOf (first.toBytes ++ publicKey.toBytes ++ message)
  let s := (r + k * (key.scalar % groupOrder)) % groupOrder
  ⟨first.toBytes ++ Bytes.littleEndian 32 s, by simp [first.length_eq]⟩

/-- Accepts a signature whose second half is reduced and whose first half is the compressed point
that key, message and second half give. -/
def verify (key : PublicKey) (message : Bytes) (signature : Signature) : Bool :=
  let first := signature.toBytes.take 32
  let s := Bytes.ofLittleEndian (signature.toBytes.drop 32)
  if groupOrder ≤ s then false
  else
    match decompress? key with
    | none => false
    | some point =>
        let k := scalarOf (first ++ key.toBytes ++ message)
        let expected := add (scale s basePoint) (scale k (opposite point))
        (compress expected).toBytes == first

end Ed25519

end LedgerClient
