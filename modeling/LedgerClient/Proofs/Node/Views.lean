import LedgerClient.Proofs.Node.Lookups

/-!
# Views of a registry

A node is reached in four ways: in its turn, by its id, by its address, and as a candidate for a
request.  Whichever way an event is entered in its record, it is read there in every other way, and
no other node has changed.
-/

namespace LedgerClient

/-- How a node is reached. -/
inductive View where
  | inTurn (i : Nat)
  | byId (id : NodeId)
  | byAddress (address : String)
  /-- As the `i`-th candidate for a request to the nodes `ids`. -/
  | asCandidate (ids : List NodeId) (i : Nat)
deriving DecidableEq

/-- What is done to the records of nodes. -/
inductive Update where
  | entered (view : View) (event : Health.Event)
  | allForgotten
deriving DecidableEq

namespace Node

/-- All of a node but its record. -/
def endpoint (n : Node) : NodeId × String × Option Hash :=
  (n.id, n.address, n.certificateHash)

/-- The node once an event of the node with the given id was entered. -/
def after (n : Node) (id : NodeId) (e : Health.Event) : Node :=
  if n.id = id then n.record e else n

@[simp]
theorem endpoint_record (n : Node) (e : Health.Event) : (n.record e).endpoint = n.endpoint :=
  rfl

end Node

/-!
## Views of a list of nodes
-/

namespace Registry

def view? (r : Registry) : View → Option Node
  | .inTurn i => r.nodes[i]?
  | .byId id => r.get? id
  | .byAddress address => r.getByAddress? address
  | .asCandidate ids i =>
      match r.candidates ids with
      | .error _ => none
      | .ok nodes => nodes[i]?

/-- Enters an event in the record that a view shows; without one there is nothing to enter it in. -/
def enter (r : Registry) (view : View) (e : Health.Event) : Registry :=
  match r.view? view with
  | none => r
  | some n => r.record n.id e

def update (r : Registry) : Update → Registry
  | .entered view e => r.enter view e
  | .allForgotten => r.resetAll

def updateAll (r : Registry) (updates : List Update) : Registry :=
  updates.foldl update r

variable {r : Registry} {view : View} {e : Health.Event} {n : Node}

theorem nodes_record (r : Registry) (id : NodeId) (e : Health.Event) :
    (r.record id e).nodes = r.nodes.map fun n => n.after id e := by
  simp only [record, recordWhere, Node.after, beq_iff_eq]

theorem find?_recordWhere {α : Type} [DecidableEq α] {key : Node → α}
    (hkey : forall n : Node, key (n.record e) = key n) (r : Registry) (p : Node → Bool) (k : α) :
    (r.recordWhere p e).nodes.find? (fun n => key n == k) =
      (r.nodes.find? fun n => key n == k).map fun n => if p n then n.record e else n := by
  have hsame : (fun n : Node => key n == k) ∘ (fun n => if p n then n.record e else n) =
      fun n => key n == k := by
    funext n
    cases hp : p n with
    | false => simp [hp]
    | true => simp [hp, hkey]
  simp only [recordWhere, List.find?_map, hsame]

theorem get?_recordWhere (r : Registry) (p : Node → Bool) (e : Health.Event) (id : NodeId) :
    (r.recordWhere p e).get? id = (r.get? id).map fun n => if p n then n.record e else n :=
  find?_recordWhere (fun n => n.id_record e) r p id

theorem candidates_recordWhere (r : Registry) (p : Node → Bool) (e : Health.Event)
    (ids : List NodeId) :
    (r.recordWhere p e).candidates ids =
      (r.candidates ids).map (List.map fun n => if p n then n.record e else n) := by
  induction ids with
  | nil => rfl
  | cons id rest ih =>
      rw [candidates, candidates, get?_recordWhere, ih]
      cases r.get? id with
      | none => rfl
      | some n =>
          cases r.candidates rest with
          | error error => rfl
          | ok nodes => rfl

theorem view?_recordWhere (r : Registry) (p : Node → Bool) (e : Health.Event) (view : View) :
    (r.recordWhere p e).view? view =
      (r.view? view).map fun n => if p n then n.record e else n := by
  cases view with
  | inTurn i => exact List.getElem?_map
  | byId id => exact get?_recordWhere r p e id
  | byAddress address => exact find?_recordWhere (fun n => n.address_record e) r p address
  | asCandidate ids i =>
      rw [view?, view?, candidates_recordWhere]
      cases r.candidates ids with
      | error error => rfl
      | ok nodes => exact List.getElem?_map

theorem enter_of_view? (h : r.view? view = some n) (e : Health.Event) :
    r.enter view e = r.record n.id e := by
  rw [enter, h]

theorem view?_enter (h : r.view? view = some n) (e : Health.Event) (other : View) :
    (r.enter view e).view? other = (r.view? other).map fun m => m.after n.id e := by
  rw [enter_of_view? h, record, view?_recordWhere]
  simp only [Node.after, beq_iff_eq]

/-- An event that is entered for nobody changes nothing. -/
theorem recordWhere_eq_self {p : Node → Bool} (h : r.nodes.find? p = none) (e : Health.Event) :
    r.recordWhere p e = r := by
  apply Registry.ext
  have hsame : forall n, n ∈ r.nodes -> (if p n then n.record e else n) = n := by
    intro n hn
    simp [List.find?_eq_none.mp h n hn]
  exact (List.map_congr_left hsame).trans (List.map_id' r.nodes)

theorem enter_byId (r : Registry) (id : NodeId) (e : Health.Event) :
    r.enter (.byId id) e = r.record id e := by
  cases hget : r.get? id with
  | some n =>
      have hview : r.view? (.byId id) = some n := hget
      rw [enter_of_view? hview, id_of_get? hget]
  | none =>
      have hnone : r.view? (.byId id) = none := hget
      rw [enter, hnone]
      exact (recordWhere_eq_self hget e).symm

theorem enter_byAddress (r : Registry) (address : String) (e : Health.Event) :
    r.enter (.byAddress address) e = r.recordAt address e := by
  cases hget : r.getByAddress? address with
  | some n =>
      rcases getByAddress?_eq_some_iff.mp hget with ⟨hn, haddress⟩
      have hview : r.view? (.byAddress address) = some n := hget
      rw [enter_of_view? hview]
      apply Registry.ext
      apply List.map_congr_left
      intro m hm
      have hboth : (m.id == n.id) = (m.address == address) := by
        rw [Bool.eq_iff_iff, beq_iff_eq, beq_iff_eq]
        constructor
        · intro hid
          rw [List.inj_on_of_nodup_map r.ids_nodup hm hn hid, haddress]
        · intro hsame
          rw [List.inj_on_of_nodup_map r.addresses_nodup hm hn (hsame.trans haddress.symm)]
      simp only [hboth]
  | none =>
      have hnone : r.view? (.byAddress address) = none := hget
      rw [enter, hnone]
      exact (recordWhere_eq_self hget e).symm

theorem resetHealth_eq (r : Registry) (id : NodeId) :
    r.resetHealth id =
      if id ∈ r.ids then .ok (r.enter (.byId id) .forgotten) else .error (.unknownNode id) := by
  have hknown : r.contains id = true <-> id ∈ r.ids := by
    rw [contains, ← not_iff_not, Bool.not_eq_true, Option.isSome_eq_false_iff,
      Option.isNone_iff_eq_none, get?_eq_none_iff]
  rw [resetHealth, enter_byId]
  simp only [hknown]

theorem view?_resetAll (r : Registry) (view : View) :
    r.resetAll.view? view = (r.view? view).map fun n => n.record .forgotten :=
  view?_recordWhere r (fun _ => true) .forgotten view

/-!
## Updates
-/

theorem endpoints_recordWhere (r : Registry) (p : Node → Bool) (e : Health.Event) :
    (r.recordWhere p e).nodes.map Node.endpoint = r.nodes.map Node.endpoint := by
  simp only [recordWhere, List.map_map]
  apply List.map_congr_left
  intro n _
  cases hp : p n with
  | false => simp [hp]
  | true => simp [hp]

theorem endpoints_enter (r : Registry) (view : View) (e : Health.Event) :
    (r.enter view e).nodes.map Node.endpoint = r.nodes.map Node.endpoint := by
  unfold enter
  cases r.view? view with
  | none => rfl
  | some n => exact r.endpoints_recordWhere _ e

theorem endpoints_update (r : Registry) (u : Update) :
    (r.update u).nodes.map Node.endpoint = r.nodes.map Node.endpoint := by
  cases u with
  | entered view e => exact r.endpoints_enter view e
  | allForgotten => exact r.endpoints_recordWhere _ .forgotten

/-- Which nodes are registered never changes. -/
theorem endpoints_updateAll (r : Registry) (updates : List Update) :
    (r.updateAll updates).nodes.map Node.endpoint = r.nodes.map Node.endpoint := by
  induction updates generalizing r with
  | nil => rfl
  | cons u rest ih => exact (ih (r.update u)).trans (r.endpoints_update u)

/-- The views of a registry show the same records. -/
structure ViewsAgree (r : Registry) : Prop where
  byId : forall id n, r.get? id = some n <-> n ∈ r.nodes ∧ n.id = id
  byAddress : forall address n,
    r.getByAddress? address = some n <-> n ∈ r.nodes ∧ n.address = address
  /-- What is entered through one view is seen through every view, and nothing else is. -/
  entered : forall view n, r.view? view = some n -> forall e other,
    (r.enter view e).view? other = (r.view? other).map fun m => m.after n.id e
  reported : forall view n, r.view? view = some n -> forall e now,
    (r.enter view e).report now = r.nodes.map fun m => statusOf now (m.after n.id e)
  missed : forall view, r.view? view = none -> forall e, r.enter view e = r
  record : forall id e, r.record id e = r.enter (.byId id) e
  recordAt : forall address e, r.recordAt address e = r.enter (.byAddress address) e
  resetHealth : forall id, r.resetHealth id =
    if id ∈ r.ids then .ok (r.enter (.byId id) .forgotten) else .error (.unknownNode id)
  resetAll : forall view, r.resetAll.view? view = (r.view? view).map fun n => n.record .forgotten
  candidates : forall ids,
    (forall nodes, r.candidates ids = .ok nodes <->
      List.Forall₂ (fun id n => r.get? id = some n) ids nodes) ∧
    ((exists nodes, r.candidates ids = .ok nodes) <-> forall id, id ∈ ids -> id ∈ r.ids) ∧
    (forall error, r.candidates ids = .error error <->
      exists before id after, ids = before ++ id :: after ∧
        (forall known, known ∈ before -> known ∈ r.ids) ∧ id ∉ r.ids ∧ error = .unknownNode id)

theorem viewsAgree (r : Registry) : r.ViewsAgree := by
  constructor
  case byId => exact fun id n => get?_eq_some_iff
  case byAddress => exact fun address n => getByAddress?_eq_some_iff
  case entered => exact fun view n h e other => view?_enter h e other
  case reported =>
    intro view n h e now
    rw [enter_of_view? h, report, nodes_record, List.map_map]
    rfl
  case missed =>
    intro view h e
    rw [enter, h]
  case record => exact fun id e => (r.enter_byId id e).symm
  case recordAt => exact fun address e => (r.enter_byAddress address e).symm
  case resetHealth => exact r.resetHealth_eq
  case resetAll => exact r.view?_resetAll
  case candidates =>
    exact fun ids =>
      ⟨fun nodes => candidates_eq_ok_iff_forall₂, exists_candidates_iff,
        fun error => candidates_eq_error_iff⟩

end Registry

end LedgerClient
