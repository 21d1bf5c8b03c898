import LedgerClient.Delivery.Surroundings
import LedgerClient.Network.Frame

/-!
# Plain connections

Every request gets a connection of its own: one frame goes out and one comes back.  There are
no secure connections here; they need a factory of channels of their own.
-/

namespace LedgerClient

inductive Connection where
  | refused (reason : String)
  /-- Everything that the other side will say until it closes the connection. -/
  | accepted (incoming : Bytes)
deriving DecidableEq

namespace Tcp

structure Exchange where
  sent : Bytes
  result : Except TransportError Bytes

/-- Sends a message over a connection and takes the first frame that comes back.  A message that is
too long for a frame is not sent at all. -/
def exchange (message : Message) (incoming : Bytes) : Exchange :=
  match Frame.write (Message.codec.encode message) with
  | .error e => { sent := [], result := .error e }
  | .ok frame => { sent := frame, result := (Frame.read incoming).map Prod.fst }

def supports : TransportMode → Except TransportError Unit
  | .plaintext => .ok ()
  | .secure => .error (.unsupported "secure channels need a TLS channel factory")

def unreachable (address reason : String) : TransportError :=
  .unavailable (address ++ ": " ++ reason)

structure Dialer (σ : Type) where
  connect : String → σ → Connection × σ
  deliver : Bytes → σ → σ

variable {σ : Type}

/-- A request over a connection of its own. -/
def send (dialer : Dialer σ) (address : String) (message : Message) (world : σ) :
    Except TransportError Bytes × σ :=
  match dialer.connect address world with
  | (.refused reason, world) => (.error (unreachable address reason), world)
  | (.accepted incoming, world) =>
      let done := exchange message incoming
      (done.result, dialer.deliver done.sent world)

def answer (dialer : Dialer σ) (call : Call) (world : σ) : Answer × σ :=
  match supports call.mode with
  | .error e => (.refused e, world)
  | .ok () =>
      match send dialer call.address ⟨call.method, call.payload⟩ world with
      | (.ok bs, world) => (.received bs, world)
      | (.error e, world) => (.failed e, world)

end Tcp

end LedgerClient
