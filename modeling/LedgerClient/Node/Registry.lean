import LedgerClient.Error
import LedgerClient.Node.Basic

/-!
# The nodes of a network

A registry holds at least one node, and its nodes differ in id and in address.  Which nodes
it holds never changes; their health does.
-/

namespace LedgerClient

@[ext]
structure Registry where
  nodes : List Node
  nodes_ne_nil : nodes ≠ []
  ids_nodup : (nodes.map Node.id).Nodup
  addresses_nodup : (nodes.map Node.address).Nodup
deriving DecidableEq

namespace Registry

/-!
## Construction
-/

/-- The first node whose id or address occurs before it; the id is looked at first. -/
def findClash (ids : List NodeId) (addresses : List String) : List Node → Option ConfigError
  | [] => none
  | n :: rest =>
      if n.id ∈ ids then some (.nodeIdTwice n.id)
      else if n.address ∈ addresses then some (.addressTwice n.address)
      else findClash (n.id :: ids) (n.address :: addresses) rest

theorem nodup_of_findClash {ids : List NodeId} {addresses : List String} {nodes : List Node}
    (h : findClash ids addresses nodes = none) :
    ((nodes.map Node.id).Nodup ∧ ∀ n ∈ nodes, n.id ∉ ids) ∧
      (nodes.map Node.address).Nodup ∧ ∀ n ∈ nodes, n.address ∉ addresses := by
  induction nodes generalizing ids addresses with
  | nil => simp
  | cons n rest ih =>
      unfold findClash at h
      split at h
      · cases h
      · split at h
        · cases h
        · rename_i hid haddress
          obtain ⟨⟨hids, hfreshId⟩, haddresses, hfreshAddress⟩ := ih h
          refine ⟨⟨?_, ?_⟩, ?_, ?_⟩
          · simp only [List.map_cons, List.nodup_cons]
            refine ⟨?_, hids⟩
            intro hmem
            obtain ⟨m, hm, heq⟩ := List.mem_map.mp hmem
            exact hfreshId m hm (by simp [heq])
          · intro m hm
            rcases List.mem_cons.mp hm with rfl | hm
            · exact hid
            · exact fun hmem => hfreshId m hm (List.mem_cons_of_mem _ hmem)
          · simp only [List.map_cons, List.nodup_cons]
            refine ⟨?_, haddresses⟩
            intro hmem
            obtain ⟨m, hm, heq⟩ := List.mem_map.mp hmem
            exact hfreshAddress m hm (by simp [heq])
          · intro m hm
            rcases List.mem_cons.mp hm with rfl | hm
            · exact haddress
            · exact fun hmem => hfreshAddress m hm (List.mem_cons_of_mem _ hmem)

def ofNodes (nodes : List Node) : Except ConfigError Registry :=
  match nodes with
  | [] => .error .noNodes
  | first :: rest =>
      match h : findClash [] [] (first :: rest) with
      | some e => .error e
      | none =>
          .ok
            { nodes := first :: rest
              nodes_ne_nil := List.cons_ne_nil first rest
              ids_nodup := (nodup_of_findClash h).1.1
              addresses_nodup := (nodup_of_findClash h).2.1 }

/-!
## Look-up
-/

def get? (r : Registry) (id : NodeId) : Option Node :=
  r.nodes.find? (fun n => n.id == id)

def getByAddress? (r : Registry) (address : String) : Option Node :=
  r.nodes.find? (fun n => n.address == address)

def contains (r : Registry) (id : NodeId) : Bool :=
  (r.get? id).isSome

def ids (r : Registry) : List NodeId :=
  r.nodes.map Node.id

def size (r : Registry) : Nat :=
  r.nodes.length

def isEmpty (r : Registry) : Bool :=
  r.nodes.isEmpty

/-- The nodes with the given ids, in their order; an unknown id is an error. -/
def candidates (r : Registry) : List NodeId → Except ClientError (List Node)
  | [] => .ok []
  | id :: rest =>
      match r.get? id with
      | none => .error (.unknownNode id)
      | some n =>
          match r.candidates rest with
          | .error e => .error e
          | .ok nodes => .ok (n :: nodes)

/-!
## Health
-/

def recordWhere (r : Registry) (p : Node → Bool) (e : Health.Event) : Registry :=
  { nodes := r.nodes.map fun n => if p n then n.record e else n
    nodes_ne_nil := by simpa using r.nodes_ne_nil
    ids_nodup := by
      have h : (r.nodes.map fun n => if p n then n.record e else n).map Node.id =
          r.nodes.map Node.id := by
        rw [List.map_map]
        apply List.map_congr_left
        intro n _
        by_cases hp : p n <;> simp [hp]
      rw [h]
      exact r.ids_nodup
    addresses_nodup := by
      have h : (r.nodes.map fun n => if p n then n.record e else n).map Node.address =
          r.nodes.map Node.address := by
        rw [List.map_map]
        apply List.map_congr_left
        intro n _
        by_cases hp : p n <;> simp [hp]
      rw [h]
      exact r.addresses_nodup }

def record (r : Registry) (id : NodeId) (e : Health.Event) : Registry :=
  r.recordWhere (fun n => n.id == id) e

def recordAt (r : Registry) (address : String) (e : Health.Event) : Registry :=
  r.recordWhere (fun n => n.address == address) e

/-- The record of a node; a node that is not registered was never used. -/
def health (r : Registry) (id : NodeId) : Health :=
  match r.get? id with
  | some n => n.health
  | none => default

def resetHealth (r : Registry) (id : NodeId) : Except ClientError Registry :=
  if r.contains id then .ok (r.record id .forgotten) else .error (.unknownNode id)

def resetAll (r : Registry) : Registry :=
  r.recordWhere (fun _ => true) .forgotten

@[ext]
structure Status where
  id : NodeId
  address : String
  healthy : Bool
  remainingBackoffMillis : Nat
  health : Health.Snapshot
deriving DecidableEq

def statusOf (now : Timestamp) (n : Node) : Status :=
  let health := n.health.snapshot
  { id := n.id
    address := n.address
    healthy := health.isHealthy now
    remainingBackoffMillis := health.backoffUntil.toNat - now.toNat
    health := health }

def report (r : Registry) (now : Timestamp) : List Status :=
  r.nodes.map (statusOf now)

end Registry

end LedgerClient
