import LedgerClient.Number.Binary64

/-!
# Values of a TOML document

A document is a table: a list of names with values, among which other tables and lists may
be.  No name stands in a table twice.
-/

namespace LedgerClient

namespace Toml

inductive Value where
  | integer (n : Int)
  | float (x : Binary64)
  | flag (b : Bool)
  | text (s : String)
  /-- A date, a time or both, as it is written. -/
  | moment (s : String)
  | list (items : List Value)
  | table (fields : List (String × Value))
deriving Inhabited

abbrev Table := List (String × Value)

/-- The integers that a document can hold are those of 64 bits with a sign. -/
def isInteger (n : Int) : Bool :=
  Int64.minValue.toInt ≤ n && n ≤ Int64.maxValue.toInt

inductive Fault where
  | unexpected
  | unclosed
  | badEscape
  | badNumber
  | badMoment
  | tooDeep
  | alreadyDefined (name : String)
deriving DecidableEq

def Fault.message : Fault → String
  | .unexpected => "unexpected character"
  | .unclosed => "unexpected end"
  | .badEscape => "bad escape sequence"
  | .badNumber => "bad number"
  | .badMoment => "bad date or time"
  | .tooDeep => "nested too deeply"
  | .alreadyDefined name => "defined twice: " ++ name

abbrev Parser (α : Type) := List Char → Except Fault (α × List Char)

namespace Table

def get? (t : Table) (name : String) : Option Value :=
  (t.find? (fun f => f.1 == name)).map Prod.snd

end Table

namespace Value

/-- An integer from zero up to, but not including, `bound`. -/
def natural? (bound : Nat) : Value → Option Nat
  | integer n => if 0 ≤ n ∧ n < bound then some n.toNat else none
  | _ => none

/-- A number; an integer stands for the nearest floating-point number. -/
def number? : Value → Option Binary64
  | float x => some x
  | integer n => some (Binary64.ofUnits (n < 0) (n.natAbs * Binary64.one) 1)
  | _ => none

def flag? : Value → Option Bool
  | flag b => some b
  | _ => none

def text? : Value → Option String
  | text s => some s
  | _ => none

def list? : Value → Option (List Value)
  | list items => some items
  | _ => none

/-- Whether the value holds other values but has none. -/
def isHollow : Value → Bool
  | list items => items.isEmpty
  | table fields => fields.isEmpty
  | _ => false

end Value

end Toml

end LedgerClient
