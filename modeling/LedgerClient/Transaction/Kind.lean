import LedgerClient.Identifier

/-!
# Kinds of operations

The kind of an operation decides by which method it is submitted and whether it can be
carried out by a schedule.
-/

namespace LedgerClient

inductive OperationKind where
  | transfer
  | accountCreate
  | fileAppend
  | fileDelete
  | systemUndelete
  | topicMessageSubmit
  | ethereumCall
  | scheduleCreate
deriving DecidableEq

namespace OperationKind

def name : OperationKind → String
  | transfer => "Transfer"
  | accountCreate => "AccountCreate"
  | fileAppend => "FileAppend"
  | fileDelete => "FileDelete"
  | systemUndelete => "SystemUndelete"
  | topicMessageSubmit => "TopicMessageSubmit"
  | ethereumCall => "EthereumCall"
  | scheduleCreate => "ScheduleCreate"

def method : OperationKind → Method
  | transfer => ⟨1⟩
  | accountCreate => ⟨2⟩
  | fileAppend => ⟨10⟩
  | fileDelete => ⟨11⟩
  | systemUndelete => ⟨12⟩
  | topicMessageSubmit => ⟨20⟩
  | ethereumCall => ⟨30⟩
  | scheduleCreate => ⟨40⟩

def isSchedulable : OperationKind → Bool
  | ethereumCall => false
  | scheduleCreate => false
  | _ => true

end OperationKind

namespace Method

def accountBalance : Method := ⟨100⟩

def transactionReceipt : Method := ⟨101⟩

def fileContents : Method := ⟨102⟩

end Method

end LedgerClient
