import LedgerClient.Bytes

/-!
# Hexadecimal text

Two lower-case digits per octet.  Reading takes digits in either case and refuses
an odd number of digits before it looks at any of them.
-/

namespace LedgerClient

namespace Hex

inductive Fault where
  | oddLength
  | badDigit (octet : UInt8) (position : Nat)
deriving DecidableEq

def digit (n : Nat) : Char :=
  if n < 10 then Char.ofNat (48 + n) else Char.ofNat (87 + n)

def encode (bs : Bytes) : String :=
  String.ofList (bs.flatMap fun b => [digit (b.toNat / 16), digit (b.toNat % 16)])

def value? (c : UInt8) : Option Nat :=
  let n := c.toNat
  if 48 ≤ n ∧ n ≤ 57 then some (n - 48)
  else if 97 ≤ n ∧ n ≤ 102 then some (n - 87)
  else if 65 ≤ n ∧ n ≤ 70 then some (n - 55)
  else none

/-- Reads digit pairs; `position` is the place of the first octet in the whole text. -/
def decodePairs : (position : Nat) → Bytes → Except Fault Bytes
  | position, high :: low :: rest =>
      match value? high, value? low with
      | none, _ => .error (.badDigit high position)
      | some _, none => .error (.badDigit low (position + 1))
      | some h, some l =>
          match decodePairs (position + 2) rest with
          | .error fault => .error fault
          | .ok bs => .ok (UInt8.ofNat (16 * h + l) :: bs)
  | _, [_] => .error .oddLength
  | _, [] => .ok []

def decode (text : Bytes) : Except Fault Bytes :=
  if text.length % 2 = 1 then .error .oddLength else decodePairs 0 text

/-- A character of the first 256 as a quoted literal: what does not print is written by its code. -/
def quoted (c : UInt8) : String :=
  let n := c.toNat
  if n = 0 then "'\\0'"
  else if n = 9 then "'\\t'"
  else if n = 10 then "'\\n'"
  else if n = 13 then "'\\r'"
  else if n = 39 then "'\\''"
  else if n = 92 then "'\\\\'"
  else if n < 32 ∨ (127 ≤ n ∧ n ≤ 160) ∨ n = 173 then
    "'\\u\x7b" ++ String.ofList (Nat.toDigits 16 n) ++ "\x7d'"
  else "'" ++ String.singleton (Char.ofNat n) ++ "'"

def Fault.message : Fault → String
  | .oddLength => "Odd number of digits"
  | .badDigit octet position =>
      "Invalid character " ++ quoted octet ++ " at position " ++ toString position

end Hex

end LedgerClient
