import LedgerClient.Bytes

/-!
# UTF-8

A text is stored as its UTF-8 octets.  Reading refuses octets that are no text and
says where the first bad sequence starts and how many octets of it were read before
it went wrong; a sequence that the end of the input cuts short is `incomplete`.
-/

namespace LedgerClient

namespace Utf8

inductive Fault where
  /-- A bad sequence of `length` octets from `index`. -/
  | invalid (length index : Nat)
  /-- The input ends inside a sequence that starts at `index`. -/
  | incomplete (index : Nat)
deriving DecidableEq

def Fault.message : Fault → String
  | .invalid length index =>
      "invalid utf-8 sequence of " ++ toString length ++ " bytes from index " ++ toString index
  | .incomplete index => "incomplete utf-8 byte sequence from index " ++ toString index

def width? (first : UInt8) : Option Nat :=
  let n := first.toNat
  if n < 0x80 then some 1
  else if 0xC2 ≤ n ∧ n ≤ 0xDF then some 2
  else if 0xE0 ≤ n ∧ n ≤ 0xEF then some 3
  else if 0xF0 ≤ n ∧ n ≤ 0xF4 then some 4
  else none

/-- Whether an octet may stand second: no overlong form, no surrogate, nothing above U+10FFFF. -/
def isSecond (first second : UInt8) : Bool :=
  let n := second.toNat
  let low := if first = 0xE0 then 0xA0 else if first = 0xF0 then 0x90 else 0x80
  let high := if first = 0xED then 0x9F else if first = 0xF4 then 0x8F else 0xBF
  low ≤ n && n ≤ high

def isContinuation (b : UInt8) : Bool :=
  0x80 ≤ b.toNat && b.toNat ≤ 0xBF

/-- How many octets of the sequence from `first` on are good, and whether the input ended. -/
def goodOctets (first : UInt8) (width : Nat) (rest : Bytes) : Nat × Bool :=
  match rest with
  | [] => (1, true)
  | second :: rest =>
      if isSecond first second then
        let later := (rest.take (width - 2)).takeWhile isContinuation
        (2 + later.length, rest.length < width - 2 && later.length == rest.length)
      else (1, false)

/-- The first fault of octets from `index` on, `skip` of which belong to a sequence before. -/
def faultFrom? : (index skip : Nat) → Bytes → Option Fault
  | _, _, [] => none
  | index, skip + 1, _ :: rest => faultFrom? (index + 1) skip rest
  | index, 0, first :: rest =>
      match width? first with
      | none => some (.invalid 1 index)
      | some 1 => faultFrom? (index + 1) 0 rest
      | some width =>
          let (good, ended) := goodOctets first width rest
          if good = width then faultFrom? (index + 1) (width - 1) rest
          else if ended then some (.incomplete index)
          else some (.invalid good index)

def fault? (bs : Bytes) : Option Fault :=
  faultFrom? 0 0 bs

def encode (s : String) : Bytes :=
  s.toByteArray.data.toList

def decode (bs : Bytes) : Except Fault String :=
  match String.fromUTF8? ⟨bs.toArray⟩ with
  | some s => .ok s
  | none => .error ((fault? bs).getD (.incomplete bs.length))

theorem decode_encode (s : String) : decode (encode s) = .ok s := by
  have h : (⟨(encode s).toArray⟩ : ByteArray) = s.toByteArray := by simp [encode]
  simp [decode, h, String.fromUTF8?, s.isValidUTF8, String.fromUTF8]

end Utf8

end LedgerClient
