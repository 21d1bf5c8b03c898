import LedgerClient.Toml.Value

/-!
# Tables under construction

While a document is read it must be known how each table has come about: a table that a
header names is complete in itself, one that was only passed on the way to another may
still get a header, and one made by dotted names grows by dotted names alone.
-/

namespace LedgerClient

namespace Toml

structure Key where
  parents : List String
  name : String
deriving DecidableEq

inductive Origin where
  /-- It has a header of its own. -/
  | named
  /-- It stands in the header of another table. -/
  | passed
  /-- It stands before a dot in the name of a value. -/
  | dotted
deriving DecidableEq

inductive Tree where
  | value (v : Value)
  | table (origin : Origin) (fields : List (String × Tree))
  /-- A list of tables, each with a header of its own. -/
  | tables (elements : List (List (String × Tree)))

abbrev Branches := List (String × Tree)

namespace Branches

def get? (bs : Branches) (name : String) : Option Tree :=
  (bs.find? (fun b => b.1 == name)).map Prod.snd

/-- Puts a tree in the place of the one with the same name, or at the end. -/
def put (name : String) (t : Tree) : Branches → Branches
  | [] => [(name, t)]
  | (other, u) :: rest =>
      if other == name then (name, t) :: rest else (other, u) :: put name t rest

def onLast (change : Branches → Except Fault Branches) :
    List Branches → Except Fault (List Branches)
  | [] => .ok []
  | [last] => (change last).map fun bs => [bs]
  | first :: rest => (onLast change rest).map fun others => first :: others

def define (name : String) (t : Tree) (bs : Branches) : Except Fault Branches :=
  match bs.get? name with
  | some _ => .error (.alreadyDefined name)
  | none => .ok (bs ++ [(name, t)])

/-- Changes the table that headers lead to; a list of tables leads to its last one. -/
def inTable (change : Branches → Except Fault Branches) :
    List String → Branches → Except Fault Branches
  | [], bs => change bs
  | name :: path, bs =>
      match bs.get? name with
      | none => (inTable change path []).map fun inner => put name (.table .passed inner) bs
      | some (.value _) => .error (.alreadyDefined name)
      | some (.table origin inner) =>
          (inTable change path inner).map fun inner => put name (.table origin inner) bs
      | some (.tables elements) =>
          (onLast (inTable change path) elements).map fun elements => put name (.tables elements) bs

def assign (name : String) (v : Value) : List String → Branches → Except Fault Branches
  | [], bs => define name (.value v) bs
  | parent :: path, bs =>
      match bs.get? parent with
      | none =>
          (assign name v path []).map fun inner => put parent (.table .dotted inner) bs
      | some (.value _) => .error (.alreadyDefined parent)
      | some (.table origin inner) =>
          if origin = .named ∨ (path.isEmpty ∧ origin ≠ .dotted) then .error (.alreadyDefined name)
          else
            (assign name v path inner).map fun inner => put parent (.table origin inner) bs
      | some (.tables elements) =>
          if path.isEmpty then .error (.alreadyDefined name)
          else
            (onLast (assign name v path) elements).map fun elements =>
              put parent (.tables elements) bs

def openTable (name : String) (bs : Branches) : Except Fault Branches :=
  match bs.get? name with
  | none => .ok (bs ++ [(name, .table .named [])])
  | some (.table .passed inner) => .ok (put name (.table .named inner) bs)
  | some _ => .error (.alreadyDefined name)

def openElement (name : String) (bs : Branches) : Except Fault Branches :=
  match bs.get? name with
  | none => .ok (bs ++ [(name, .tables [[]])])
  | some (.tables elements) => .ok (put name (.tables (elements ++ [[]])) bs)
  | some _ => .error (.alreadyDefined name)

end Branches

mutual

def Tree.toValue : Tree → Value
  | .value v => v
  | .table _ fields => .table (Branches.toTable fields)
  | .tables elements => .list (Branches.toTables elements)

def Branches.toTable : List (String × Tree) → List (String × Value)
  | [] => []
  | (name, t) :: rest => (name, t.toValue) :: Branches.toTable rest

def Branches.toTables : List (List (String × Tree)) → List Value
  | [] => []
  | bs :: rest => .table (Branches.toTable bs) :: Branches.toTables rest

end

end Toml

end LedgerClient
