import LedgerClient.Toml.Value

/-!
# Characters and quoted texts of TOML

Blanks, line ends and comments, and the four ways to quote a text: between double quotes
with escapes or between single quotes without them, on one line or, between three quotes
each, on several.
-/

namespace LedgerClient

namespace Toml

def isBlank (c : Char) : Bool :=
  c == ' ' || c == '\t'

/-- No control character but the tabulator may stand in a text or a comment. -/
def isPrintable (c : Char) : Bool :=
  c == '\t' || (32 ≤ c.toNat && c.toNat != 127)

def skipBlanks (cs : List Char) : List Char :=
  cs.dropWhile isBlank

def lineBreak : List Char → Except Fault (List Char)
  | [] => .ok []
  | '\n' :: rest => .ok rest
  | '\r' :: '\n' :: rest => .ok rest
  | _ => .error .unexpected

def lineEnd (cs : List Char) : Except Fault (List Char) :=
  match skipBlanks cs with
  | '#' :: rest => lineBreak (rest.dropWhile isPrintable)
  | rest => lineBreak rest

def skipLines : (inComment : Bool) → List Char → Except Fault (List Char)
  | _, '\n' :: rest => skipLines false rest
  | _, '\r' :: '\n' :: rest => skipLines false rest
  | false, '#' :: rest => skipLines true rest
  | false, c :: rest => if isBlank c then skipLines false rest else .ok (c :: rest)
  | true, c :: rest => if isPrintable c then skipLines true rest else .error .unexpected
  | _, [] => .error .unclosed

/-!
## Escapes
-/

def hexValue? (c : Char) : Option Nat :=
  if '0' ≤ c ∧ c ≤ '9' then some (c.toNat - 48)
  else if 'a' ≤ c ∧ c ≤ 'f' then some (c.toNat - 87)
  else if 'A' ≤ c ∧ c ≤ 'F' then some (c.toNat - 55)
  else none

def ofCode? (n : Nat) : Option Char :=
  if h : n.isValidChar then some (Char.ofNatAux n h) else none

def escaped? : Char → Option Char
  | 'b' => some '\x08'
  | 't' => some '\t'
  | 'n' => some '\n'
  | 'f' => some '\x0c'
  | 'r' => some '\r'
  | '"' => some '"'
  | '\\' => some '\\'
  | _ => none

inductive Escape where
  | outside
  | begun
  /-- Before the last `left` digits of a code; those before them make `value`. -/
  | code (left value : Nat)
  /-- Between a backslash and the end of its line. -/
  | beforeBreak
  /-- After an escaped line end: blanks and further line ends are dropped. -/
  | margin
deriving DecidableEq

/-- One character of an escape that has begun: the character it completes, if it does, and how far
the escape has come. -/
def Escape.step (multiline : Bool) (c : Char) : Escape → Except Fault (Option Char × Escape)
  | begun =>
      if c == 'u' then .ok (none, code 4 0)
      else if c == 'U' then .ok (none, code 8 0)
      else
        match escaped? c with
        | some d => .ok (some d, outside)
        | none =>
            if multiline && isBlank c then .ok (none, beforeBreak)
            else if multiline && c == '\n' then .ok (none, margin)
            else .error .badEscape
  | code left value =>
      match hexValue? c with
      | none => .error .badEscape
      | some d =>
          let value := 16 * value + d
          if 1 < left then .ok (none, code (left - 1) value)
          else
            match ofCode? value with
            | some d => .ok (some d, outside)
            | none => .error .badEscape
  | beforeBreak =>
      if isBlank c then .ok (none, beforeBreak)
      else if c == '\n' then .ok (none, margin)
      else .error .badEscape
  | outside => .error .unexpected
  | margin => .error .unexpected

def prepend (c : Option Char) : Except Fault (List Char × List Char) →
    Except Fault (List Char × List Char)
  | .error fault => .error fault
  | .ok (text, rest) => .ok (c.toList ++ text, rest)

/-!
## Quoted texts
-/

def basicText : Escape → Parser (List Char)
  | _, [] => .error .unclosed
  | .outside, '"' :: rest => .ok ([], rest)
  | .outside, '\\' :: rest => basicText .begun rest
  | .outside, c :: rest =>
      if isPrintable c then prepend (some c) (basicText .outside rest) else .error .unexpected
  | escape, c :: rest =>
      match escape.step false c with
      | .error fault => .error fault
      | .ok (d, escape) => prepend d (basicText escape rest)

def literalText : Parser (List Char)
  | [] => .error .unclosed
  | '\'' :: rest => .ok ([], rest)
  | c :: rest =>
      if isPrintable c then prepend (some c) (literalText rest) else .error .unexpected

/-- How many times a character stands at the front, six counting as enough. -/
def leading (c : Char) (cs : List Char) : Nat :=
  ((cs.take 6).takeWhile (· == c)).length

/-- A text on several lines between triple double quotes, after the opening ones.  One or two quotes
more may stand before the closing ones. -/
def basicLines : Escape → Parser (List Char)
  | _, [] => .error .unclosed
  | .beforeBreak, '\r' :: '\n' :: rest => basicLines .margin rest
  | .begun, '\r' :: '\n' :: rest => basicLines .margin rest
  | .margin, '\r' :: '\n' :: rest => basicLines .margin rest
  | .outside, '\r' :: '\n' :: rest => prepend (some '\n') (basicLines .outside rest)
  | .outside, '\\' :: rest => basicLines .begun rest
  | .margin, '\\' :: rest => basicLines .begun rest
  | .begun, c :: rest =>
      match Escape.begun.step true c with
      | .error fault => .error fault
      | .ok (d, escape) => prepend d (basicLines escape rest)
  | .code left value, c :: rest =>
      match (Escape.code left value).step true c with
      | .error fault => .error fault
      | .ok (d, escape) => prepend d (basicLines escape rest)
  | .beforeBreak, c :: rest =>
      match Escape.beforeBreak.step true c with
      | .error fault => .error fault
      | .ok (d, escape) => prepend d (basicLines escape rest)
  | escape, c :: rest =>
      if escape == .margin && (isBlank c || c == '\n') then basicLines .margin rest
      else if c == '"' then
        let quotes := leading '"' (c :: rest)
        if 5 < quotes then .error .unexpected
        else if quotes == 3 then .ok ([], rest.drop 2)
        else prepend (some c) (basicLines .outside rest)
      else if isPrintable c || c == '\n' then prepend (some c) (basicLines .outside rest)
      else .error .unexpected

def literalLines : Parser (List Char)
  | [] => .error .unclosed
  | '\r' :: '\n' :: rest => prepend (some '\n') (literalLines rest)
  | c :: rest =>
      if c == '\'' then
        let quotes := leading '\'' (c :: rest)
        if 5 < quotes then .error .unexpected
        else if quotes == 3 then .ok ([], rest.drop 2)
        else prepend (some c) (literalLines rest)
      else if isPrintable c || c == '\n' then prepend (some c) (literalLines rest)
      else .error .unexpected

/-- A line end right after opening triple quotes does not belong to the text. -/
def skipFirstBreak : List Char → List Char
  | '\n' :: rest => rest
  | '\r' :: '\n' :: rest => rest
  | cs => cs

def quotedText : Parser (List Char)
  | '"' :: '"' :: '"' :: rest => basicLines .outside (skipFirstBreak rest)
  | '"' :: rest => basicText .outside rest
  | '\'' :: '\'' :: '\'' :: rest => literalLines (skipFirstBreak rest)
  | '\'' :: rest => literalText rest
  | _ => .error .unexpected

end Toml

end LedgerClient
