import LedgerClient.Identifier
import LedgerClient.Network.Error
import LedgerClient.Wire.Codec

/-!
# Frames

A connection carries frames: a length in four octets, the most significant first, and so many
octets of content.  A frame is read from the front of what comes in, and what follows it is
left alone.  Main statement: what was written as a frame is read back.
-/

namespace LedgerClient

@[ext]
structure Message where
  method : Method
  payload : Bytes
deriving DecidableEq

namespace Method

def codec : Codec Method :=
  Codec.u16.iso Method.number Method.mk

end Method

namespace Message

def codec : Codec Message :=
  (Method.codec.pair Codec.blob).iso
    (fun m => (m.method, m.payload)) (fun (method, payload) => ⟨method, payload⟩)

end Message

namespace Frame

def maxLength : Nat := 2 * 1024 * 1024

def tooLong (length : Nat) : TransportError :=
  .badFrame (toString length ++ " bytes exceeds " ++ toString maxLength ++ " byte limit")

def write (content : Bytes) : Except TransportError Bytes :=
  if maxLength < content.length then .error (tooLong content.length)
  else .ok (Bytes.bigEndian 4 content.length ++ content)

/-- Reads the frame at the front of everything that comes in before the connection is closed. -/
def read (incoming : Bytes) : Except TransportError (Bytes × Bytes) :=
  let head := incoming.take 4
  if head.length < 4 then .error .connectionReset
  else
    let length := Bytes.ofBigEndian head
    if maxLength < length then .error (tooLong length)
    else
      let content := (incoming.drop 4).take length
      if content.length < length then .error .connectionReset
      else .ok (content, (incoming.drop 4).drop length)

theorem read_write {content frame : Bytes} (h : write content = .ok frame) (rest : Bytes) :
    read (frame ++ rest) = .ok (content, rest) := by
  unfold write at h
  split at h
  · cases h
  · next hlen =>
    have hlen : content.length ≤ maxLength := Nat.le_of_not_lt hlen
    have hfit : content.length < Bytes.capacity 4 := Nat.lt_of_le_of_lt hlen (by decide)
    cases h
    have hlength : Bytes.ofBigEndian (Bytes.bigEndian 4 content.length) = content.length :=
      Bytes.ofBigEndian_bigEndian 4 _ hfit
    simp [read, hlength, Nat.not_lt.mpr hlen]

end Frame

end LedgerClient
