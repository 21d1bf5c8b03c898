import LedgerClient.Toml.Moment
import LedgerClient.Toml.Text
import LedgerClient.Toml.Tree

/-!
# Statements of a TOML document

A document is a row of statements, each on a line of its own unless its value goes over
several: a name with its value, the header of a table, or the header of the next table of a
list.
-/

namespace LedgerClient

namespace Toml

/-- How deeply values may be nested, and how many parts a name may have. -/
def maxDepth : Nat := 79

inductive Statement where
  | assign (key : Key) (v : Value)
  | header (key : Key)
  | listHeader (key : Key)

/-!
## Names
-/

def isBare (c : Char) : Bool :=
  c.isAlphanum || c == '_' || c == '-'

def simpleName : Parser String
  | '"' :: rest => (basicText .outside rest).map fun (cs, rest) => (String.ofList cs, rest)
  | '\'' :: rest => (literalText rest).map fun (cs, rest) => (String.ofList cs, rest)
  | cs =>
      let name := cs.takeWhile isBare
      if name.isEmpty then .error .unexpected
      else .ok (String.ofList name, cs.dropWhile isBare)

/-- A name of at most `room` parts with dots between them, and the blanks around it. -/
def dottedName : (room : Nat) → Parser Key
  | 0, _ => .error .tooDeep
  | room + 1, cs =>
      match simpleName (skipBlanks cs) with
      | .error fault => .error fault
      | .ok (part, rest) =>
          match skipBlanks rest with
          | '.' :: rest =>
              (dottedName room rest).map fun (key, rest) =>
                ({ key with parents := part :: key.parents }, rest)
          | rest => .ok ({ parents := [], name := part }, rest)

def key : Parser Key :=
  dottedName maxDepth

def expect (c : Char) (cs : List Char) : Except Fault (List Char) :=
  match cs with
  | d :: rest => if c == d then .ok rest else .error .unexpected
  | [] => .error .unclosed

/-!
## Values
-/

def isWordChar (c : Char) : Bool :=
  c.isAlphanum || c == '_' || c == '+' || c == '-' || c == '.' || c == ':'

/-- The time that may follow a date after a blank. -/
def timeAfter (date : List Char) : Parser Value
  | ' ' :: c :: rest =>
      if isDigit c then
        let word := (c :: rest).takeWhile isWordChar
        if isOffsetTime word then
          .ok (.moment (String.ofList (date ++ ' ' :: word)), (c :: rest).dropWhile isWordChar)
        else .error .badMoment
      else .ok (.moment (String.ofList date), ' ' :: c :: rest)
  | rest => .ok (.moment (String.ofList date), rest)

def word (cs : List Char) : Except Fault (Value × List Char) :=
  let front := cs.takeWhile isWordChar
  let rest := cs.dropWhile isWordChar
  if front.isEmpty then .error .unexpected
  else if front = ['t', 'r', 'u', 'e'] then .ok (.flag true, rest)
  else if front = ['f', 'a', 'l', 's', 'e'] then .ok (.flag false, rest)
  else if isDate front then timeAfter front rest
  else if isMoment front then .ok (.moment (String.ofList front), rest)
  else
    match number? front with
    | some v => .ok (v, rest)
    | none => .error .badNumber

def plainValue (cs : List Char) : Except Fault (Value × List Char) :=
  match cs with
  | '"' :: _ => (quotedText cs).map fun (text, rest) => (.text (String.ofList text), rest)
  | '\'' :: _ => (quotedText cs).map fun (text, rest) => (.text (String.ofList text), rest)
  | _ => word cs

/-- The items of a list and its closing bracket; there are at most `fuel` items. -/
def items (item : Parser Value) : (fuel : Nat) → Parser (List Value)
  | 0, _ => .error .unclosed
  | fuel + 1, cs => do
      match ← skipLines false cs with
      | ']' :: rest => return ([], rest)
      | cs =>
          let (v, cs) ← item cs
          match ← skipLines false cs with
          | ',' :: cs =>
              let (vs, rest) ← items item fuel cs
              return (v :: vs, rest)
          | ']' :: rest => return ([v], rest)
          | _ => throw .unexpected

/-- The fields of a table on one line and its closing brace; there are at most `fuel` fields. -/
def fields (item : Parser Value) : (fuel : Nat) → Parser (List (Key × Value))
  | 0, _ => .error .unclosed
  | fuel + 1, cs => do
      let (k, cs) ← key cs
      let (v, cs) ← item (skipBlanks (← expect '=' cs))
      match skipBlanks cs with
      | ',' :: cs =>
          let (kvs, rest) ← fields item fuel cs
          return ((k, v) :: kvs, rest)
      | '\x7d' :: rest => return ([(k, v)], rest)
      | _ => throw .unexpected

def tableOf (kvs : List (Key × Value)) : Except Fault Value := do
  let branches ← kvs.foldlM (fun bs kv => Branches.assign kv.1.name kv.2 kv.1.parents bs) []
  return .table (Branches.toTable branches)

/-- A value with at most `depth` lists and tables around any value in it. -/
def value : (depth : Nat) → Parser Value
  | 0, cs =>
      match cs with
      | '[' :: _ => .error .tooDeep
      | '\x7b' :: _ => .error .tooDeep
      | _ => plainValue cs
  | depth + 1, cs =>
      match cs with
      | '[' :: rest => do
          let (vs, rest) ← items (value depth) rest.length rest
          return (.list vs, rest)
      | '\x7b' :: rest =>
          match skipBlanks rest with
          | '\x7d' :: rest => .ok (.table [], rest)
          | rest => do
              let (kvs, rest) ← fields (value depth) rest.length rest
              return (← tableOf kvs, rest)
      | _ => plainValue cs

/-!
## Lines
-/

def statement : Parser Statement
  | '[' :: '[' :: cs => do
      let (k, cs) ← key cs
      let cs ← lineEnd (← expect ']' (← expect ']' cs))
      return (.listHeader k, cs)
  | '[' :: cs => do
      let (k, cs) ← key cs
      let cs ← lineEnd (← expect ']' cs)
      return (.header k, cs)
  | cs => do
      let (k, cs) ← key cs
      let (v, cs) ← value maxDepth (skipBlanks (← expect '=' cs))
      return (.assign k v, ← lineEnd cs)

def statements : (fuel : Nat) → List Char → Except Fault (List Statement)
  | 0, _ => .ok []
  | fuel + 1, cs => do
      match skipBlanks cs with
      | [] => return []
      | '#' :: rest => statements fuel (← lineBreak (rest.dropWhile isPrintable))
      | '\n' :: rest => statements fuel rest
      | '\r' :: rest => statements fuel (← expect '\n' rest)
      | cs =>
          let (s, rest) ← statement cs
          return s :: (← statements fuel rest)

end Toml

end LedgerClient
