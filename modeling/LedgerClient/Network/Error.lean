/-!
# What can go wrong on the way to a node
-/

namespace LedgerClient

inductive TransportError where
  | unavailable (reason : String)
  | connectionReset
  | timeout
  | io (reason : String)
  | unsupported (reason : String)
  | badFrame (reason : String)
deriving DecidableEq

namespace TransportError

def message : TransportError → String
  | unavailable reason => "Channel unavailable: " ++ reason
  | connectionReset => "Connection reset"
  | timeout => "Transport timeout"
  | io reason => "I/O error: " ++ reason
  | unsupported reason => "Unsupported transport: " ++ reason
  | badFrame reason => "Invalid frame: " ++ reason

inductive Failure where
  | reset
  | aborted
  | brokenPipe
  | endOfStream
  | refused
  | notConnected
  | timedOut
  | other
deriving DecidableEq

/-- A connection that broke off, that never came about, or that was too slow; all else is reported
as it is. -/
def ofFailure (failure : Failure) (text : String) : TransportError :=
  match failure with
  | .reset => connectionReset
  | .aborted => connectionReset
  | .brokenPipe => connectionReset
  | .endOfStream => connectionReset
  | .refused => unavailable text
  | .notConnected => unavailable text
  | .timedOut => timeout
  | .other => io text

end TransportError

end LedgerClient
