import LedgerClient.Config.Error
import LedgerClient.Delivery.Status
import LedgerClient.Network.Error
import LedgerClient.Transaction.Error

/-!
# How a request can end without an answer

Every request ends in exactly one way.  An error that arises before any node was asked is
`local`, and it never counts against a node.
-/

namespace LedgerClient

/-- Why an attempt at one node says nothing about the others. -/
inductive AttemptFault where
  | transport (cause : TransportError)
  | malformed (cause : DecodeError)
  | turnedAway (code : PrecheckCode)
deriving DecidableEq

def AttemptFault.message : AttemptFault → String
  | .transport cause => cause.message
  | .malformed cause => "Malformed response: " ++ cause.message
  | .turnedAway code => code.text

/-- The last thing that kept a request from being answered. -/
inductive Setback where
  | inBackoff (node : NodeId)
  | failed (fault : AttemptFault)
deriving DecidableEq

def Setback.message : Setback → String
  | .inBackoff node => node.text ++ " in backoff"
  | .failed fault => fault.message

inductive ClientError where
  | transaction (cause : TransactionError)
  | unknownNode (node : NodeId)
  /-- A node refused the request itself, so no other node is asked. -/
  | precheck (node : NodeId) (code : PrecheckCode)
  | deadlineExceeded (attempts : Nat) (nodesTried : List NodeId) (setback : Option Setback)
  /-- One transaction of a batch failed after others were accepted. -/
  | chunkFailed (index committed : Nat) (cause : ClientError)
  | cancelled
  | config (cause : ConfigError)
deriving DecidableEq

namespace ClientError

def nodeList (nodes : List NodeId) : String :=
  "[" ++ ", ".intercalate (nodes.map fun id => "NodeId(" ++ toString id.number.toNat ++ ")") ++ "]"

def message : ClientError → String
  | transaction cause => cause.message
  | unknownNode node => "Unknown node: " ++ node.text
  | precheck node code => "Precheck failed on " ++ node.text ++ ": " ++ code.text
  | deadlineExceeded attempts nodes setback =>
      "Deadline exceeded after " ++ toString attempts ++ " attempts across " ++ nodeList nodes ++
        (match setback with
          | none => ""
          | some s => " (last error: " ++ s.message ++ ")")
  | chunkFailed index committed cause =>
      "Chunk " ++ toString index ++ " failed after " ++ toString committed ++
        " committed chunks: " ++ cause.message
  | cancelled => "Request cancelled"
  | config cause => "Invalid configuration: " ++ cause.message

/-- Whether the error arose before any node was asked. -/
def isLocal : ClientError → Bool
  | transaction _ => true
  | unknownNode _ => true
  | config _ => true
  | _ => false

def attempts? : ClientError → Option Nat
  | deadlineExceeded attempts _ _ => some attempts
  | chunkFailed _ _ cause => cause.attempts?
  | _ => none

end ClientError

end LedgerClient
