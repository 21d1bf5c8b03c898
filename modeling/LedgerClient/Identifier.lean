import LedgerClient.Bytes.Hex

/-!
# Names of things on the ledger

Nodes, files, topics and contracts are numbered; accounts are named by a key of 32
octets.  Each kind of name is a type of its own.
-/

namespace LedgerClient

abbrev PublicKey := Octets 32

abbrev Signature := Octets 64

abbrev Hash := Octets 32

namespace PublicKey

def tagLength : Nat := 6

/-- The first octets of a key, by which a signature map refers to it. -/
def tag (key : PublicKey) : Bytes :=
  key.toBytes.take tagLength

theorem length_tag (key : PublicKey) : key.tag.length = tagLength := by
  simp [tag, tagLength, key.length_eq]

end PublicKey

@[ext]
structure NodeId where
  number : UInt64
deriving DecidableEq, Inhabited

def NodeId.text (id : NodeId) : String :=
  "node:" ++ toString id.number.toNat

@[ext]
structure FileId where
  number : UInt64
deriving DecidableEq, Inhabited

def FileId.text (id : FileId) : String :=
  "file:" ++ toString id.number.toNat

@[ext]
structure TopicId where
  number : UInt64
deriving DecidableEq, Inhabited

def TopicId.text (id : TopicId) : String :=
  "topic:" ++ toString id.number.toNat

@[ext]
structure ContractId where
  number : UInt64
deriving DecidableEq, Inhabited

def ContractId.text (id : ContractId) : String :=
  "contract:" ++ toString id.number.toNat

@[ext]
structure AccountId where
  key : Octets 32
deriving DecidableEq, Inhabited

/-- An account is shown by the first eight octets of its key. -/
def AccountId.text (id : AccountId) : String :=
  "0x" ++ Hex.encode (id.key.toBytes.take 8)

/-- The number by which a node tells what a frame asks for. -/
@[ext]
structure Method where
  number : UInt16
deriving DecidableEq, Inhabited

def Method.text (m : Method) : String :=
  "method:" ++ toString m.number.toNat

end LedgerClient
