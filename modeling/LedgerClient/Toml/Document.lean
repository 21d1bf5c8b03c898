import LedgerClient.Number.Shortest
import LedgerClient.Toml.Statement

/-!
# TOML documents

Reading a document gives a table.  Writing is for tables whose values hold no others, but
for lists of such tables: their fields come first, one a line, and then every table of a
list behind a header of its own.  An integer outside the range of the format cannot be
written.  Both together are the text form of tables.
-/

namespace LedgerClient

namespace Toml

/-!
## Reading
-/

/-- What has been read, and the path to the table that the next values belong to. -/
structure Draft where
  branches : Branches
  current : List String

namespace Draft

def empty : Draft :=
  { branches := [], current := [] }

def apply (d : Draft) : Statement → Except Fault Draft
  | .assign k v => do
      return { d with
        branches := ← Branches.inTable (Branches.assign k.name v k.parents) d.current d.branches }
  | .header k => do
      return { branches := ← Branches.inTable (Branches.openTable k.name) k.parents d.branches
               current := k.parents ++ [k.name] }
  | .listHeader k => do
      return { branches := ← Branches.inTable (Branches.openElement k.name) k.parents d.branches
               current := k.parents ++ [k.name] }

end Draft

/-- A mark at the front that says which way round the octets of characters are is no part of the
text. -/
def skipMark : List Char → List Char
  | c :: rest => if c.toNat = 0xFEFF then rest else c :: rest
  | [] => []

def parse (text : String) : Except Fault Table := do
  let cs := skipMark text.toList
  let d ← (← statements (cs.length + 1) cs).foldlM Draft.apply Draft.empty
  return Branches.toTable d.branches

/-!
## Writing
-/

def codeEscape (c : Char) : List Char :=
  let digits := (Nat.toDigits 16 c.toNat).map Char.toUpper
  '\\' :: 'u' :: (List.replicate (4 - digits.length) '0' ++ digits)

/-- How the quotes of a text are drawn: between double quotes some characters need an escape,
between single ones everything stands for itself, and three quotes go over several lines. -/
inductive Quoting where
  | basic
  | literal
  | basicBlock
  | literalBlock
deriving DecidableEq

namespace Quoting

def isBlock : Quoting → Bool
  | basicBlock => true
  | literalBlock => true
  | _ => false

def mark : Quoting → String
  | basic => "\""
  | literal => "'"
  | basicBlock => "\"\"\""
  | literalBlock => "'''"

def longestRow (c : Char) : (current : Nat) → List Char → Nat
  | current, [] => current
  | current, d :: rest =>
      if d = c then longestRow c (current + 1) rest else max current (longestRow c 0 rest)

def needsEscape (c : Char) : Bool :=
  (c.toNat < 32 && c != '\t' && c != '\n') || c.toNat == 127

/-- The quotes that read best: those that need no escapes, one before three and double before
single; where none will do, double ones with escapes. -/
def forText (cs : List Char) : Quoting :=
  let plain := !cs.any needsEscape
  let straight := plain && !cs.contains '\\'
  let lines := cs.contains '\n'
  if straight && !lines && !cs.contains '"' then basic
  else if plain && !lines && !cs.contains '\'' then literal
  else if straight && longestRow '"' 0 cs ≤ 2 then basicBlock
  else if plain && longestRow '\'' 0 cs ≤ 2 then literalBlock
  else if lines then basicBlock
  else basic

end Quoting

/-- A character that is no quote, as it stands between double quotes; a line end stays as it is on
several lines. -/
def escape (block : Bool) (c : Char) : List Char :=
  if c = '\x08' then ['\\', 'b']
  else if c = '\t' then ['\\', 't']
  else if c = '\n' then if block then ['\n'] else ['\\', 'n']
  else if c = '\x0c' then ['\\', 'f']
  else if c = '\r' then ['\\', 'r']
  else if c = '\\' then ['\\', '\\']
  else if c.toNat < 32 ∨ c.toNat = 127 then codeEscape c
  else [c]

/-- A text between double quotes, `row` quotes of which stand right before it; between three quotes
two in a row are left as they are. -/
def escaped (block : Bool) : (row : Nat) → List Char → List Char
  | _, [] => []
  | row, c :: rest =>
      if c = '"' then
        if block ∧ row < 2 then c :: escaped block (row + 1) rest
        else '\\' :: c :: escaped block 0 rest
      else escape block c ++ escaped block 0 rest

/-- A text between quotes; between three, a text of several lines begins on a line of its own. -/
def quoted (s : String) : String :=
  let cs := s.toList
  let q := Quoting.forText cs
  let start := if q.isBlock && cs.contains '\n' then "\n" else ""
  let body :=
    match q with
    | .literal => s
    | .literalBlock => s
    | _ => String.ofList (escaped q.isBlock 0 cs)
  q.mark ++ start ++ body ++ q.mark

/-- A floating-point number, which has a point even if it is whole. -/
def floatText (x : Binary64) : String :=
  match x with
  | .nan => "nan"
  | x => if x.isWhole then x.text ++ ".0" else x.text

/-- A value that holds no others, on one line or behind quotes that go over several. -/
def Value.written : Value → Option String
  | .integer n => if isInteger n then some (toString n) else none
  | .float x => some (floatText x)
  | .flag b => some (if b then "true" else "false")
  | .text s => some (quoted s)
  | .moment s => some s
  | .list [] => some "[]"
  | _ => none

def fieldText (f : String × Value) : Option String := do
  return f.1 ++ " = " ++ (← f.2.written) ++ "\n"

/-- The tables of a list that holds nothing but tables, and at least one. -/
def tables? : Value → Option (List Table)
  | .list (first :: rest) =>
      (first :: rest).mapM fun v =>
        match v with
        | .table t => some t
        | _ => none
  | _ => none

def elementText (name : String) (t : Table) : Option String := do
  return "\n[[" ++ name ++ "]]\n" ++ String.join (← t.mapM fieldText)

/-- The fields that are no lists of tables, and then those that are. -/
def render (t : Table) : Option String := do
  let plain ← (t.filter fun f => (tables? f.2).isNone).mapM fieldText
  let lists ← t.mapM fun f => ((tables? f.2).getD []).mapM (elementText f.1)
  return String.join plain ++ String.join lists.flatten

/-!
## Text forms
-/

/-- How a table is written as a text, if it can be, and how a text is read. -/
structure TextForm where
  render : Table → Option String
  parse : String → Except Fault Table

def textForm : TextForm :=
  { render := render, parse := parse }

end Toml

end LedgerClient
