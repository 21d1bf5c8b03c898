import LedgerClient.Transaction.Error

/-!
# Signature maps

Who has signed a body, in the order of signing.  Nodes find a signer by the first octets
of the key, so a map that signing makes never holds two keys with the same first octets;
a map that was read from octets may.
-/

namespace LedgerClient

@[ext]
structure SignaturePair where
  publicKey : PublicKey
  signature : Signature
deriving DecidableEq

namespace SignaturePair

def tag (p : SignaturePair) : Bytes :=
  p.publicKey.tag

def codec : Codec SignaturePair :=
  ((Codec.octets 32).pair Codec.signature).iso
    (fun p => (p.publicKey, p.signature)) (fun (key, signature) => ⟨key, signature⟩)

end SignaturePair

@[ext]
structure SignatureMap where
  pairs : List SignaturePair
deriving DecidableEq

namespace SignatureMap

def empty : SignatureMap :=
  ⟨[]⟩

instance : Inhabited SignatureMap :=
  ⟨empty⟩

def codec : Codec SignatureMap :=
  SignaturePair.codec.list.iso pairs mk

inductive Standing where
  | absent
  | present
  /-- Another key with the same first octets has signed. -/
  | clash
deriving DecidableEq

/-- The first pair with the first octets of the key decides. -/
def standing (m : SignatureMap) (key : PublicKey) : Standing :=
  match m.pairs.find? (fun p => p.tag == key.tag) with
  | none => .absent
  | some p => if p.publicKey = key then .present else .clash

def contains (m : SignatureMap) (key : PublicKey) : Bool :=
  m.standing key == .present

def checkSigner (m : SignatureMap) (key : PublicKey) : Except TransactionError Unit :=
  match m.standing key with
  | .clash => .error (.sharedTag key.tag)
  | _ => .ok ()

/-- Adds a signature unless the key has signed before; says whether it was added. -/
def insert (m : SignatureMap) (key : PublicKey) (signature : Signature) :
    Except TransactionError (SignatureMap × Bool) :=
  match m.standing key with
  | .present => .ok (m, false)
  | .clash => .error (.sharedTag key.tag)
  | .absent => .ok (⟨m.pairs ++ [⟨key, signature⟩]⟩, true)

def validateFrom (earlier : List Bytes) : List SignaturePair → Except TransactionError Unit
  | [] => .ok ()
  | p :: rest =>
      if earlier.contains p.tag then .error (.sharedTag p.tag)
      else validateFrom (p.tag :: earlier) rest

def validate (m : SignatureMap) : Except TransactionError Unit :=
  validateFrom [] m.pairs

def get? (m : SignatureMap) (key : PublicKey) : Option Signature :=
  (m.pairs.find? (fun p => p.publicKey == key)).map SignaturePair.signature

def signers (m : SignatureMap) : List PublicKey :=
  m.pairs.map SignaturePair.publicKey

def isEmpty (m : SignatureMap) : Bool :=
  m.pairs.isEmpty

def size (m : SignatureMap) : Nat :=
  m.pairs.length

end SignatureMap

/-- A signed body that a schedule carries until enough parties have signed it. -/
@[ext]
structure Envelope where
  body : Bytes
  signatures : SignatureMap
deriving DecidableEq, Inhabited

namespace Envelope

def codec : Codec Envelope :=
  (Codec.blob.pair SignatureMap.codec).iso
    (fun e => (e.body, e.signatures)) (fun (body, signatures) => ⟨body, signatures⟩)

def addSignature (e : Envelope) (key : PublicKey) (signature : Signature) :
    Except TransactionError (Envelope × Bool) :=
  match e.signatures.insert key signature with
  | .error err => .error err
  | .ok (signatures, added) => .ok ({ e with signatures := signatures }, added)

end Envelope

end LedgerClient
