import LedgerClient.Toml.Number

/-!
# Dates and times of TOML

A date, a time, or a date with a time and perhaps its distance from universal time.  The
days of a month are counted; the sixtieth second of a minute is allowed everywhere.
-/

namespace LedgerClient

namespace Toml

def fixedNumber? (count : Nat) (cs : List Char) : Option (Nat × List Char) :=
  let front := cs.take count
  if front.length == count && front.all isDigit then
    some (ofDigits 10 (front.map fun c => c.toNat - 48), cs.drop count)
  else none

/-- A number of two digits that is not above a bound. -/
def twoDigits? (bound : Nat) (cs : List Char) : Option (Nat × List Char) :=
  (fixedNumber? 2 cs).filter fun n => n.1 ≤ bound

def expect? (c : Char) : List Char → Option (List Char)
  | d :: rest => if c == d then some rest else none
  | [] => none

def isLeapYear (year : Nat) : Bool :=
  year % 4 == 0 && (year % 100 != 0 || year % 400 == 0)

def daysInMonth (year month : Nat) : Nat :=
  if month = 2 then if isLeapYear year then 29 else 28
  else if month = 4 ∨ month = 6 ∨ month = 9 ∨ month = 11 then 30
  else 31

def date? (cs : List Char) : Option (List Char) := do
  let (year, cs) ← fixedNumber? 4 cs
  let (month, cs) ← twoDigits? 12 (← expect? '-' cs)
  let (day, cs) ← twoDigits? (daysInMonth year month) (← expect? '-' cs)
  if month = 0 ∨ day = 0 then none else some cs

def secondFraction? : List Char → Option (List Char)
  | '.' :: c :: rest => if isDigit c then some (rest.dropWhile isDigit) else none
  | '.' :: _ => none
  | cs => some cs

def time? (cs : List Char) : Option (List Char) := do
  let (_, cs) ← twoDigits? 23 cs
  let (_, cs) ← twoDigits? 59 (← expect? ':' cs)
  let (_, cs) ← twoDigits? 60 (← expect? ':' cs)
  secondFraction? cs

def offset? : List Char → Option (List Char)
  | [] => some []
  | c :: rest =>
      if c == 'Z' || c == 'z' then some rest
      else if c == '+' || c == '-' then do
        let (_, cs) ← twoDigits? 23 rest
        let (_, cs) ← twoDigits? 59 (← expect? ':' cs)
        some cs
      else none

/-- Whether a whole word is a date, a time, or a date and a time with a letter between them. -/
def isMoment (cs : List Char) : Bool :=
  match date? cs with
  | some [] => true
  | some (c :: rest) =>
      (c == 'T' || c == 't') && (time? rest).bind offset? == some []
  | none => time? cs == some []

def isDate (cs : List Char) : Bool :=
  date? cs == some []

/-- Whether a whole word is a time with or without its distance from universal time. -/
def isOffsetTime (cs : List Char) : Bool :=
  (time? cs).bind offset? == some []

end Toml

end LedgerClient
