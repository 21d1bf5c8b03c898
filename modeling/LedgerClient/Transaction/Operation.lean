import LedgerClient.Transaction.SignatureMap
import LedgerClient.TransactionId

/-!
# Operations

What a transaction asks the ledger to do.  Fields may be missing while a transaction is
being drafted; `validate` says whether enough of them are there to submit it.
-/

namespace LedgerClient

/-- An amount of the smallest unit of currency. -/
abbrev Amount := BitVec 128

/-- The place of a message in a sequence of messages that belong together. -/
@[ext]
structure ChunkInfo where
  initialId : TransactionId
  number : UInt32
  total : UInt32
deriving DecidableEq

def ChunkInfo.codec : Codec ChunkInfo :=
  (TransactionId.codec.pair (Codec.u32.pair Codec.u32)).iso
    (fun i => (i.initialId, i.number, i.total))
    (fun (initialId, number, total) => ⟨initialId, number, total⟩)

def FileId.codec : Codec FileId :=
  Codec.u64.iso FileId.number FileId.mk

def TopicId.codec : Codec TopicId :=
  Codec.u64.iso TopicId.number TopicId.mk

def ContractId.codec : Codec ContractId :=
  Codec.u64.iso ContractId.number ContractId.mk

inductive Operation where
  | transfer (recipient : Option AccountId) (amount : Amount)
  | accountCreate (key : Option PublicKey) (initialBalance : Amount)
  | fileAppend (file : Option FileId) (contents : Bytes)
  | fileDelete (file : Option FileId)
  | systemUndelete (file : Option FileId) (contract : Option ContractId)
  | topicMessageSubmit (topic : Option TopicId) (message : Bytes) (chunk : Option ChunkInfo)
  | ethereumCall (data : Bytes) (callDataFile : Option FileId) (maxGasAllowance : Amount)
  | scheduleCreate (scheduled : Envelope) (payer : Option AccountId) (adminKey : Option PublicKey)
      (memo : String)
deriving DecidableEq

namespace Operation

def kind : Operation → OperationKind
  | transfer .. => .transfer
  | accountCreate .. => .accountCreate
  | fileAppend .. => .fileAppend
  | fileDelete .. => .fileDelete
  | systemUndelete .. => .systemUndelete
  | topicMessageSubmit .. => .topicMessageSubmit
  | ethereumCall .. => .ethereumCall
  | scheduleCreate .. => .scheduleCreate

def method (op : Operation) : Method :=
  op.kind.method

def isSchedulable (op : Operation) : Bool :=
  op.kind.isSchedulable

def validate : Operation → Except TransactionError Unit
  | transfer none _ => .error (.missing .recipient)
  | transfer (some _) amount => if amount = 0 then .error (.notPositive .amount) else .ok ()
  | accountCreate none _ => .error (.missing .key)
  | accountCreate (some _) _ => .ok ()
  | fileAppend none _ => .error (.missing .fileId)
  | fileAppend (some _) _ => .ok ()
  | fileDelete none => .error (.missing .fileId)
  | fileDelete (some _) => .ok ()
  | systemUndelete none none => .error (.missing .fileOrContract)
  | systemUndelete (some _) (some _) => .error .bothTargets
  | systemUndelete _ _ => .ok ()
  | topicMessageSubmit none _ _ => .error (.missing .topicId)
  | topicMessageSubmit (some _) message _ =>
      if message.isEmpty then .error (.missing .message) else .ok ()
  | ethereumCall data _ _ => if data.isEmpty then .error (.missing .ethereumData) else .ok ()
  | scheduleCreate scheduled _ _ _ =>
      if scheduled.body.isEmpty then .error (.missing .scheduled)
      else scheduled.signatures.validate

def chunkContent? : Operation → Option Bytes
  | fileAppend _ contents => some contents
  | topicMessageSubmit _ message _ => some message
  | _ => none

/-- The same operation with a part of the content.  Only messages say which part it is. -/
def withChunk (op : Operation) (content : Bytes) (info : ChunkInfo) : Operation :=
  match op with
  | fileAppend file _ => fileAppend file content
  | topicMessageSubmit topic _ _ => topicMessageSubmit topic content (some info)
  | other => other

/-!
## Wire format
-/

def transferCodec : Codec (Option AccountId × Amount) :=
  AccountId.codec.option.pair Codec.u128

def accountCreateCodec : Codec (Option PublicKey × Amount) :=
  (Codec.octets 32).option.pair Codec.u128

def fileAppendCodec : Codec (Option FileId × Bytes) :=
  FileId.codec.option.pair Codec.blob

def systemUndeleteCodec : Codec (Option FileId × Option ContractId) :=
  FileId.codec.option.pair ContractId.codec.option

def topicMessageSubmitCodec : Codec (Option TopicId × Bytes × Option ChunkInfo) :=
  TopicId.codec.option.pair (Codec.blob.pair ChunkInfo.codec.option)

def ethereumCallCodec : Codec (Bytes × Option FileId × Amount) :=
  Codec.blob.pair (FileId.codec.option.pair Codec.u128)

def scheduleCreateCodec : Codec (Envelope × Option AccountId × Option PublicKey × String) :=
  Envelope.codec.pair (AccountId.codec.option.pair ((Codec.octets 32).option.pair Codec.text))

def encode : Operation → Bytes
  | transfer recipient amount =>
    Codec.encodeAlternative 0 (transferCodec.encode (recipient, amount))
  | accountCreate key balance =>
      Codec.encodeAlternative 1 (accountCreateCodec.encode (key, balance))
  | fileAppend file contents =>
      Codec.encodeAlternative 2 (fileAppendCodec.encode (file, contents))
  | fileDelete file => Codec.encodeAlternative 3 (FileId.codec.option.encode file)
  | systemUndelete file contract =>
      Codec.encodeAlternative 4 (systemUndeleteCodec.encode (file, contract))
  | topicMessageSubmit topic message chunk =>
      Codec.encodeAlternative 5 (topicMessageSubmitCodec.encode (topic, message, chunk))
  | ethereumCall data file gas =>
      Codec.encodeAlternative 6 (ethereumCallCodec.encode (data, file, gas))
  | scheduleCreate scheduled payer key memo =>
      Codec.encodeAlternative 7 (scheduleCreateCodec.encode (scheduled, payer, key, memo))

/-- How each alternative is read, in the order of their numbers. -/
def readers : List (Reader Operation) :=
  [transferCodec.decode.map fun (recipient, amount) => transfer recipient amount,
    accountCreateCodec.decode.map fun (key, balance) => accountCreate key balance,
    fileAppendCodec.decode.map fun (file, contents) => fileAppend file contents,
    FileId.codec.option.decode.map fileDelete,
    systemUndeleteCodec.decode.map fun (file, contract) => systemUndelete file contract,
    topicMessageSubmitCodec.decode.map fun (topic, message, chunk) =>
      topicMessageSubmit topic message chunk,
    ethereumCallCodec.decode.map fun (data, file, gas) => ethereumCall data file gas,
    scheduleCreateCodec.decode.map fun (scheduled, payer, key, memo) =>
      scheduleCreate scheduled payer key memo]

def decode : Reader Operation :=
  Codec.decodeSum readers

def codec : Codec Operation where
  encode := encode
  decode := decode

end Operation

end LedgerClient
