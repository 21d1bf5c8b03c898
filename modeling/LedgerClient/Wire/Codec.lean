import LedgerClient.Bytes.Hex
import LedgerClient.Text.Utf8

/-!
# The binary wire format

Values travel as octets without names or types: numbers in a fixed width with the least
significant octet first, a flag or the presence of an optional value as one octet, the
alternative of a sum as a number of four octets, lengths as numbers of eight octets.  A
reader takes what it needs from the front and returns the rest, so values can follow each
other; a codec is a writer with its reader, and codecs of larger values are put together
from those of their parts.
-/

namespace LedgerClient

inductive DecodeError where
  | endOfInput
  /-- A text claims to be longer than the rest of the input. -/
  | textTooLong
  | badFlag (octet : UInt8)
  | badPresence (octet : UInt8)
  | badAlternative (index count : Nat)
  | badText (fault : Utf8.Fault)
  | badHex (fault : Hex.Fault)
  | badSignatureLength
deriving DecidableEq

def DecodeError.message : DecodeError → String
  | .endOfInput => "io error: unexpected end of file"
  | .textTooLong => "io error: "
  | .badFlag octet =>
      "invalid u8 while decoding bool, expected 0 or 1, found " ++ toString octet.toNat
  | .badPresence octet => "tag for enum is not valid, found " ++ toString octet.toNat
  | .badAlternative index count =>
      "invalid value: integer `" ++ toString index ++ "`, expected variant index 0 <= i < " ++
        toString count
  | .badText fault => "string is not valid utf8: " ++ fault.message
  | .badHex fault => fault.message
  | .badSignatureLength => "signature must be 64 bytes"

/-- Takes a value from the front of the input and returns the rest. -/
abbrev Reader (α : Type) := Bytes → Except DecodeError (α × Bytes)

namespace Reader

def pure {α : Type} (a : α) : Reader α :=
  fun bs => .ok (a, bs)

def bind {α β : Type} (r : Reader α) (f : α → Reader β) : Reader β :=
  fun bs =>
    match r bs with
    | .error e => .error e
    | .ok (a, rest) => f a rest

def map {α β : Type} (f : α → β) (r : Reader α) : Reader β :=
  fun bs =>
    match r bs with
    | .error e => .error e
    | .ok (a, rest) => .ok (f a, rest)

def take (n : Nat) : Reader Bytes :=
  fun bs =>
    let front := bs.take n
    if front.length < n then .error .endOfInput else .ok (front, bs.drop n)

def times {α : Type} (r : Reader α) : (count : Nat) → Reader (List α)
  | 0 => fun bs => .ok ([], bs)
  | count + 1 => fun bs =>
      match r bs with
      | .error e => .error e
      | .ok (a, rest) =>
          match times r count rest with
          | .error e => .error e
          | .ok (as, rest) => .ok (a :: as, rest)

/-- Reads a value and drops what follows it. -/
def run {α : Type} (r : Reader α) (bs : Bytes) : Except DecodeError α :=
  match r bs with
  | .error e => .error e
  | .ok (a, _) => .ok a

end Reader

structure Codec (α : Type) where
  encode : α → Bytes
  decode : Reader α

namespace Codec

def word {α : Type} (width : Nat) (toNat : α → Nat) (ofNat : Nat → α) : Codec α where
  encode a := Bytes.littleEndian width (toNat a)
  decode := (Reader.take width).map fun bs => ofNat (Bytes.ofLittleEndian bs)

def u16 : Codec UInt16 := word 2 UInt16.toNat UInt16.ofNat

def u32 : Codec UInt32 := word 4 UInt32.toNat UInt32.ofNat

def u64 : Codec UInt64 := word 8 UInt64.toNat UInt64.ofNat

def u128 : Codec (BitVec 128) := word 16 BitVec.toNat (BitVec.ofNat 128)

def length : Codec Nat := word 8 id id

def octet : Codec UInt8 := word 1 UInt8.toNat UInt8.ofNat

def flag : Codec Bool where
  encode b := [if b then 1 else 0]
  decode := octet.decode.bind fun o => fun rest =>
    if o = 0 then .ok (false, rest)
    else if o = 1 then .ok (true, rest)
    else .error (.badFlag o)

/-- A string of a fixed length, written without its length. -/
def octets (n : Nat) : Codec (Octets n) where
  encode o := o.toBytes
  decode := (Reader.take n).bind fun bs => fun rest =>
    match Octets.ofBytes? n bs with
    | some o => .ok (o, rest)
    | none => .error .endOfInput

def blob : Codec Bytes where
  encode bs := length.encode bs.length ++ bs
  decode := length.decode.bind fun n => Reader.take n

/-- A text behind the number of its octets. -/
def text : Codec String where
  encode s := blob.encode (Utf8.encode s)
  decode := length.decode.bind fun n => fun rest =>
    match Reader.take n rest with
    | .error _ => .error .textTooLong
    | .ok (front, rest) =>
        match Utf8.decode front with
        | .ok s => .ok (s, rest)
        | .error fault => .error (.badText fault)

def option {α : Type} (c : Codec α) : Codec (Option α) where
  encode
    | none => [0]
    | some a => 1 :: c.encode a
  decode := octet.decode.bind fun o =>
    if o = 0 then Reader.pure none
    else if o = 1 then c.decode.map some
    else fun _ => .error (.badPresence o)

def list {α : Type} (c : Codec α) : Codec (List α) where
  encode as := length.encode as.length ++ as.flatMap c.encode
  decode := length.decode.bind fun n => c.decode.times n

def pair {α β : Type} (c : Codec α) (d : Codec β) : Codec (α × β) where
  encode p := c.encode p.1 ++ d.encode p.2
  decode := c.decode.bind fun a => d.decode.map fun b => (a, b)

/-- The codec of a type whose values stand for those of another one. -/
def iso {α β : Type} (c : Codec α) (toParts : β → α) (ofParts : α → β) : Codec β where
  encode b := c.encode (toParts b)
  decode := c.decode.map ofParts

def decodeSum {α : Type} (alternatives : List (Reader α)) : Reader α :=
  u32.decode.bind fun index =>
    match alternatives[index.toNat]? with
    | some r => r
    | none => fun _ => .error (.badAlternative index.toNat alternatives.length)

def encodeAlternative (index : UInt32) (parts : Bytes) : Bytes :=
  u32.encode index ++ parts

/-- A signature is written as a text of 128 hexadecimal digits; digits in either case are read. -/
def signature : Codec (Octets 64) where
  encode o := text.encode (Hex.encode o.toBytes)
  decode := text.decode.bind fun s => fun rest =>
    match Hex.decode (Utf8.encode s) with
    | .error fault => .error (.badHex fault)
    | .ok bs =>
        match Octets.ofBytes? 64 bs with
        | some o => .ok (o, rest)
        | none => .error .badSignatureLength

/-- The first value of a byte string, whatever follows it. -/
def read {α : Type} (c : Codec α) (bs : Bytes) : Except DecodeError α :=
  c.decode.run bs

end Codec

end LedgerClient
