import LedgerClient.Proofs.Node.Views
import Mathlib.Logic.Function.Basic

/-!
# Registries with indexes

A registry can be kept as one record for each node, with an order and two indexes that lead to the
places of the records.  Nodes are entered one after the other, and a key that leads somewhere
already is refused.  Such a registry is made of the same nodes as one that is searched from end to
end, and refused with the same errors; and since all ways to a node lead to the same place, both
give the same answers after the same updates.
-/

namespace LedgerClient

structure IndexedRegistry where
  /-- The nodes with their records, by place. -/
  nodes : List Node
  order : List Nat
  byId : NodeId → Option Nat
  byAddress : String → Option Nat

namespace IndexedRegistry

/-!
## Construction
-/

def empty : IndexedRegistry :=
  { nodes := []
    order := []
    byId := fun _ => none
    byAddress := fun _ => none }

/-- Puts a node at a place of its own and lets the order and both indexes lead there. -/
def register (s : IndexedRegistry) (n : Node) : Except ConfigError IndexedRegistry :=
  let place := s.nodes.length
  if (s.byId n.id).isSome then .error (.nodeIdTwice n.id)
  else if (s.byAddress n.address).isSome then .error (.addressTwice n.address)
  else
    .ok { nodes := s.nodes ++ [n]
          order := s.order ++ [place]
          byId := Function.update s.byId n.id (some place)
          byAddress := Function.update s.byAddress n.address (some place) }

def registerAll (s : IndexedRegistry) : List Node → Except ConfigError IndexedRegistry
  | [] => .ok s
  | n :: rest =>
      match s.register n with
      | .error e => .error e
      | .ok s => s.registerAll rest

def ofNodes (nodes : List Node) : Except ConfigError IndexedRegistry :=
  if nodes.isEmpty then .error .noNodes else empty.registerAll nodes

/-!
## Views and updates
-/

def candidates (s : IndexedRegistry) : List NodeId → Except ClientError (List Nat)
  | [] => .ok []
  | id :: rest =>
      match s.byId id with
      | none => .error (.unknownNode id)
      | some place =>
          match s.candidates rest with
          | .error e => .error e
          | .ok places => .ok (place :: places)

/-- Where a view leads. -/
def place? (s : IndexedRegistry) : View → Option Nat
  | .inTurn i => s.order[i]?
  | .byId id => s.byId id
  | .byAddress address => s.byAddress address
  | .asCandidate ids i =>
      match s.candidates ids with
      | .error _ => none
      | .ok places => places[i]?

def view? (s : IndexedRegistry) (view : View) : Option Node :=
  (s.place? view).bind fun place => s.nodes[place]?

def enterAt (e : Health.Event) (nodes : List Node) (place : Nat) : List Node :=
  nodes.modify place fun n => n.record e

def enter (s : IndexedRegistry) (view : View) (e : Health.Event) : IndexedRegistry :=
  { s with
    nodes :=
      match s.place? view with
      | none => s.nodes
      | some place => enterAt e s.nodes place }

def resetHealth (s : IndexedRegistry) (id : NodeId) : Except ClientError IndexedRegistry :=
  match s.byId id with
  | none => .error (.unknownNode id)
  | some place => .ok { s with nodes := enterAt .forgotten s.nodes place }

def resetAll (s : IndexedRegistry) : IndexedRegistry :=
  { s with nodes := s.order.foldl (enterAt .forgotten) s.nodes }

def update (s : IndexedRegistry) : Update → IndexedRegistry
  | .entered view e => s.enter view e
  | .allForgotten => s.resetAll

def updateAll (s : IndexedRegistry) (updates : List Update) : IndexedRegistry :=
  updates.foldl update s

def report (s : IndexedRegistry) (now : Timestamp) : List Registry.Status :=
  (s.order.filterMap fun place => s.nodes[place]?).map (Registry.statusOf now)

/-!
## Where the indexes lead
-/

/-- The order and the indexes lead to the places of these nodes. -/
structure Holds (s : IndexedRegistry) (nodes : List Node) : Prop where
  records : s.nodes = nodes
  order : s.order = List.range nodes.length
  byId : forall id, s.byId id = nodes.findIdx? fun n => n.id == id
  byAddress : forall address, s.byAddress address = nodes.findIdx? fun n => n.address == address

variable {s : IndexedRegistry} {nodes : List Node}

theorem holds_empty : empty.Holds [] := by
  constructor
  case records => rfl
  case order => rfl
  case byId => exact fun _ => rfl
  case byAddress => exact fun _ => rfl

section

variable {α : Type} [DecidableEq α] {key : Node → α}

/-- A new key leads to the end. -/
theorem update_eq_findIdx? {index : α → Option Nat}
    (hindex : forall k, index k = nodes.findIdx? fun n => key n == k) {n : Node}
    (hfresh : (index (key n)).isSome = false) (k : α) :
    Function.update index (key n) (some nodes.length) k =
      (nodes ++ [n]).findIdx? fun n => key n == k := by
  rw [List.findIdx?_append, ← hindex]
  by_cases hk : k = key n
  · have hnone : index k = none := by
      rw [hk]
      simpa using hfresh
    rw [hnone, hk, Function.update_self]
    simp
  · rw [Function.update_of_ne hk]
    simp [Ne.symm hk]

theorem isSome_index_iff {index : α → Option Nat}
    (hindex : forall k, index k = nodes.findIdx? fun n => key n == k) {k : α} :
    (index k).isSome = true <-> k ∈ nodes.map key := by
  simp [hindex, List.findIdx?_isSome, List.any_eq_true, List.mem_map]

end

theorem Holds.register (h : s.Holds nodes) {n : Node} (hid : (s.byId n.id).isSome = false)
    (haddress : (s.byAddress n.address).isSome = false) :
    exists larger, s.register n = .ok larger ∧ larger.Holds (nodes ++ [n]) := by
  refine ⟨_, by rw [IndexedRegistry.register, hid, haddress]; rfl, ?_⟩
  constructor
  case records => rw [h.records]
  case order => rw [h.order, h.records, List.length_append, List.length_singleton, List.range_succ]
  case byId =>
    rw [h.records]
    exact update_eq_findIdx? h.byId hid
  case byAddress =>
    rw [h.records]
    exact update_eq_findIdx? h.byAddress haddress

/-- Entering nodes in the indexes finds the same clash as looking through what was met. -/
theorem Holds.registerAll {earlier : List Node} (h : s.Holds earlier) {ids : List NodeId}
    {addresses : List String} (hids : forall id, id ∈ ids <-> id ∈ earlier.map Node.id)
    (haddresses : forall address, address ∈ addresses <-> address ∈ earlier.map Node.address)
    (nodes : List Node) :
    (forall e, s.registerAll nodes = .error e <->
      Registry.findClash ids addresses nodes = some e) ∧
    (Registry.findClash ids addresses nodes = none ->
      exists full, s.registerAll nodes = .ok full ∧ full.Holds (earlier ++ nodes)) := by
  induction nodes generalizing s earlier ids addresses with
  | nil =>
      refine ⟨fun e => by simp [IndexedRegistry.registerAll, Registry.findClash], fun _ => ?_⟩
      exact ⟨s, rfl, by rw [List.append_nil]; exact h⟩
  | cons n rest ih =>
      have hidMet : (s.byId n.id).isSome = true <-> n.id ∈ ids := by
        rw [isSome_index_iff h.byId, hids]
      have haddressMet : (s.byAddress n.address).isSome = true <-> n.address ∈ addresses := by
        rw [isSome_index_iff h.byAddress, haddresses]
      by_cases hid : n.id ∈ ids
      · simp [IndexedRegistry.registerAll, IndexedRegistry.register, Registry.findClash, hid,
          hidMet.mpr hid]
      · have hidFresh := Bool.eq_false_iff.mpr (mt hidMet.mp hid)
        by_cases haddress : n.address ∈ addresses
        · simp [IndexedRegistry.registerAll, IndexedRegistry.register, Registry.findClash, hid,
            hidFresh, haddress, haddressMet.mpr haddress]
        · have haddressFresh := Bool.eq_false_iff.mpr (mt haddressMet.mp haddress)
          rcases h.register hidFresh haddressFresh with ⟨larger, hlarger, hholds⟩
          rw [IndexedRegistry.registerAll, hlarger, Registry.findClash, if_neg hid,
            if_neg haddress]
          have hrest := @ih larger (earlier ++ [n]) hholds (n.id :: ids) (n.address :: addresses)
            (fun id => by simp [hids, or_comm]) (fun address => by simp [haddresses, or_comm])
          rwa [List.append_assoc, List.singleton_append] at hrest

theorem ofNodes_eq_error_iff {e : ConfigError} :
    ofNodes nodes = .error e <-> Registry.ofNodes nodes = .error e := by
  have hscan := (@Holds.registerAll empty [] holds_empty [] [] (fun _ => Iff.rfl)
    (fun _ => Iff.rfl) nodes).left e
  rw [ofNodes, Registry.ofNodes_eq_error_iff]
  cases nodes with
  | nil => simp [eq_comm]
  | cons first rest => simpa using hscan

/-!
## Answers
-/

variable {r : Registry}

theorem getElem?_index {α : Type} [DecidableEq α] {key : Node → α} {index : α → Option Nat}
    (hindex : forall k, index k = nodes.findIdx? fun n => key n == k) (k : α) :
    ((index k).bind fun place => nodes[place]?) = nodes.find? fun n => key n == k := by
  rw [hindex, List.find?_eq_bind_findIdx?_getElem?]

theorem cases_of_map_eq_map {ε α β γ : Type} {x : Except ε α} {y : Except ε β} {f : α → γ}
    {g : β → γ} (h : x.map f = y.map g) :
    (exists e, x = .error e ∧ y = .error e) ∨
      exists a b, x = .ok a ∧ y = .ok b ∧ f a = g b := by
  cases x with
  | error e =>
      cases y with
      | error e' =>
          cases h
          exact Or.inl ⟨e, rfl, rfl⟩
      | ok b => cases h
  | ok a =>
      cases y with
      | error e => cases h
      | ok b =>
          injection h with h
          exact Or.inr ⟨a, b, rfl, rfl, h⟩

/-- The candidates are where their nodes are. -/
theorem Holds.candidates (h : s.Holds r.nodes) (ids : List NodeId) :
    (s.candidates ids).map (List.map fun place => s.nodes[place]?) =
      (r.candidates ids).map (List.map some) := by
  induction ids with
  | nil => rfl
  | cons id rest ih =>
      have hlead := getElem?_index h.byId id
      rw [IndexedRegistry.candidates, Registry.candidates]
      cases hget : r.get? id with
      | none =>
          have hnone : s.byId id = none := by
            rw [h.byId]
            apply List.findIdx?_eq_none_iff.mpr
            intro n hn
            simpa using List.find?_eq_none.mp hget n hn
          rw [hnone]
          rfl
      | some n =>
          rcases Option.bind_eq_some_iff.mp (hlead.trans hget) with ⟨place, hplace, hn⟩
          rw [← h.records] at hn
          rw [hplace]
          rcases cases_of_map_eq_map ih with ⟨e, hs, hr⟩ | ⟨places, nodes, hs, hr, hsame⟩
          · rw [hs, hr]
            rfl
          · rw [hs, hr]
            show Except.ok (s.nodes[place]? :: _) = Except.ok (some n :: _)
            rw [hn, hsame]

theorem Holds.view? (h : s.Holds r.nodes) (view : View) : s.view? view = r.view? view := by
  cases view with
  | inTurn i =>
      rw [IndexedRegistry.view?, place?, h.order, h.records, Registry.view?]
      by_cases hi : i < r.nodes.length
      · rw [List.getElem?_range hi]
        rfl
      · have hrange : (List.range r.nodes.length)[i]? = none := by simpa using hi
        rw [hrange, List.getElem?_eq_none (Nat.le_of_not_lt hi)]
        rfl
  | byId id =>
      rw [IndexedRegistry.view?, place?, h.records, getElem?_index h.byId]
      rfl
  | byAddress address =>
      rw [IndexedRegistry.view?, place?, h.records, getElem?_index h.byAddress]
      rfl
  | asCandidate ids i =>
      rw [IndexedRegistry.view?, place?, Registry.view?]
      rcases cases_of_map_eq_map (h.candidates ids) with
        ⟨e, hs, hr⟩ | ⟨places, nodes, hs, hr, hsame⟩
      · rw [hs, hr]
        rfl
      · rw [hs, hr]
        have hi := congrArg (fun found => found[i]?) hsame
        simp only [List.getElem?_map] at hi
        calc
          (places[i]?.bind fun place => s.nodes[place]?)
              = (places[i]?.map fun place => s.nodes[place]?).bind id := by
                rw [Option.bind_map, Function.id_comp]
          _ = (nodes[i]?.map some).bind id := by rw [hi]
          _ = nodes[i]? := by rw [Option.bind_map, Function.id_comp, Option.bind_fun_some]

/-!
## Updates
-/

/-- Nodes whose ids differ are told apart by their places. -/
theorem enterAt_eq_map (hdistinct : (nodes.map Node.id).Nodup) {place : Nat} {n : Node}
    (hn : nodes[place]? = some n) (e : Health.Event) :
    enterAt e nodes place = nodes.map fun m => m.after n.id e := by
  apply List.ext_getElem?
  intro i
  rw [enterAt, List.getElem?_modify, List.getElem?_map]
  cases hm : nodes[i]? with
  | none => rfl
  | some m =>
      have hplace : place < (nodes.map Node.id).length := by
        rw [List.length_map]
        exact (List.getElem?_eq_some_iff.mp hn).1
      have hsame := List.getElem?_inj (j := i) hplace hdistinct
      rw [List.getElem?_map, List.getElem?_map, hn, hm] at hsame
      simp only [Option.map_some, Option.some.injEq, eq_comm (a := n.id)] at hsame
      simp [Node.after, hsame]

theorem findIdx?_of_map_eq {α : Type} [DecidableEq α] {key : Node → α} {others : List Node}
    (hsame : others.map key = nodes.map key) (k : α) :
    (others.findIdx? fun n => key n == k) = nodes.findIdx? fun n => key n == k := by
  have hmap (xs : List Node) :
      (xs.findIdx? fun n => key n == k) = (xs.map key).findIdx? fun x => x == k := by
    rw [List.findIdx?_map]
    rfl
  rw [hmap, hmap, hsame]

/-- The indexes do not look at the records. -/
theorem Holds.withNodes (h : s.Holds nodes) {others : List Node}
    (hsame : others.map Node.endpoint = nodes.map Node.endpoint) :
    ({ s with nodes := others } : IndexedRegistry).Holds others := by
  have hids := congrArg (List.map Prod.fst) hsame
  have haddresses := congrArg (List.map fun endpoint => endpoint.2.1) hsame
  have hlength := congrArg List.length hsame
  rw [List.map_map, List.map_map] at hids haddresses
  rw [List.length_map, List.length_map] at hlength
  constructor
  case records => rfl
  case order => rw [h.order, hlength]
  case byId => exact fun id => (h.byId id).trans (findIdx?_of_map_eq hids id).symm
  case byAddress =>
    exact fun address => (h.byAddress address).trans (findIdx?_of_map_eq haddresses address).symm

theorem Holds.nodes_enter (h : s.Holds r.nodes) (view : View) (e : Health.Event) :
    (s.enter view e).nodes = (r.enter view e).nodes := by
  have hview := h.view? view
  rw [IndexedRegistry.view?, h.records] at hview
  rw [IndexedRegistry.enter, Registry.enter, ← hview]
  cases s.place? view with
  | none => exact h.records
  | some place =>
      rw [Option.bind_some, h.records]
      cases hn : r.nodes[place]? with
      | none => exact List.modify_eq_self (List.getElem?_eq_none_iff.mp hn)
      | some n => exact (enterAt_eq_map r.ids_nodup hn e).trans (r.nodes_record n.id e).symm

theorem Holds.enter (h : s.Holds r.nodes) (view : View) (e : Health.Event) :
    (s.enter view e).Holds (r.enter view e).nodes := by
  have hkept := h.withNodes (r.endpoints_enter view e)
  rw [← h.nodes_enter view e] at hkept ⊢
  exact hkept

theorem getElem?_foldl_enterAt (e : Health.Event) (nodes : List Node) (count i : Nat) :
    ((List.range count).foldl (enterAt e) nodes)[i]? =
      nodes[i]?.map fun n => if i < count then n.record e else n := by
  induction count with
  | zero => simp
  | succ count ih =>
      rw [List.range_succ, List.foldl_append, List.foldl_cons, List.foldl_nil, enterAt,
        List.getElem?_modify, ih]
      cases nodes[i]? with
      | none => rfl
      | some n =>
          rcases Nat.lt_trichotomy i count with hlt | heq | hgt
          · have hne : count ≠ i := by omega
            simp [hlt, hne, Nat.lt_succ_of_lt hlt]
          · simp [heq]
          · have hne : count ≠ i := by omega
            have hout : ¬ i < count + 1 := by omega
            simp [Nat.not_lt_of_gt hgt, hne, hout]

theorem Holds.resetAll (h : s.Holds r.nodes) : s.resetAll.Holds r.resetAll.nodes := by
  have hnodes : s.order.foldl (enterAt .forgotten) s.nodes = r.resetAll.nodes := by
    rw [h.order, h.records]
    apply List.ext_getElem?
    intro i
    rw [getElem?_foldl_enterAt, Registry.resetAll, Registry.recordWhere, List.getElem?_map]
    cases hn : r.nodes[i]? with
    | none => rfl
    | some n =>
        have hi : i < r.nodes.length := (List.getElem?_eq_some_iff.mp hn).1
        simp [hi]
  rw [IndexedRegistry.resetAll, hnodes]
  exact h.withNodes (r.endpoints_recordWhere _ .forgotten)

theorem Holds.updateAll (h : s.Holds r.nodes) (updates : List Update) :
    (s.updateAll updates).Holds (r.updateAll updates).nodes := by
  induction updates generalizing s r with
  | nil => exact h
  | cons u rest ih =>
      cases u with
      | entered view e => exact ih (h.enter view e)
      | allForgotten => exact ih h.resetAll

theorem Holds.report (h : s.Holds r.nodes) (now : Timestamp) : s.report now = r.report now := by
  have hall : (s.order.filterMap fun place => s.nodes[place]?) = r.nodes := by
    have hplaces : (List.range r.nodes.length).map (fun place => r.nodes[place]?) =
        r.nodes.map some := by
      apply List.ext_getElem
      · simp
      · simp
    have hfound := congrArg (List.filterMap id) hplaces
    rw [List.filterMap_map, List.filterMap_map] at hfound
    rw [h.order, h.records]
    exact hfound.trans List.filterMap_some
  rw [IndexedRegistry.report, hall]
  rfl

theorem Holds.resetHealth (h : s.Holds r.nodes) (id : NodeId) :
    s.resetHealth id =
      if id ∈ r.ids then .ok (s.enter (.byId id) .forgotten) else .error (.unknownNode id) := by
  have hknown : (s.byId id).isSome = true <-> id ∈ r.ids := isSome_index_iff h.byId
  rw [IndexedRegistry.resetHealth, IndexedRegistry.enter, place?]
  cases hplace : s.byId id with
  | none =>
      rw [hplace] at hknown
      rw [if_neg (mt hknown.mpr Bool.false_ne_true)]
  | some place =>
      rw [hplace] at hknown
      rw [if_pos (hknown.mp rfl)]

/-- The indexed registry gives the answers of the other one. -/
structure AnswersAs (s : IndexedRegistry) (r : Registry) : Prop where
  view : forall view, s.view? view = r.view? view
  report : forall now, s.report now = r.report now
  candidates : forall ids,
    (s.candidates ids).map (List.map fun place => s.nodes[place]?) =
      (r.candidates ids).map (List.map some)
  resetHealth : forall id, s.resetHealth id =
    if id ∈ r.ids then .ok (s.enter (.byId id) .forgotten) else .error (.unknownNode id)

theorem Holds.answersAs (h : s.Holds r.nodes) : s.AnswersAs r := by
  constructor
  case view => exact h.view?
  case report => exact h.report
  case candidates => exact h.candidates
  case resetHealth => exact h.resetHealth

theorem exists_ofNodes (hmade : Registry.ofNodes nodes = .ok r) :
    exists s, ofNodes nodes = .ok s ∧ s.Holds r.nodes := by
  have hnodes := Registry.nodes_of_ofNodes hmade
  have hsome : nodes ≠ [] := by
    rw [← hnodes]
    exact r.nodes_ne_nil
  have hclash : Registry.findClash [] [] nodes = none := by
    cases hfound : Registry.findClash [] [] nodes with
    | none => rfl
    | some e =>
        rw [Registry.ofNodes_eq_error_iff.mpr (Or.inr ⟨hsome, hfound⟩)] at hmade
        cases hmade
  rw [ofNodes, if_neg (by simpa using hsome), hnodes]
  exact (@Holds.registerAll empty [] holds_empty [] [] (fun _ => Iff.rfl)
    (fun _ => Iff.rfl) nodes).right hclash

end IndexedRegistry

def firstNode : Node :=
  Node.new ⟨3⟩ "a" Health.defaultMinBackoff Health.defaultMaxBackoff

def secondNode : Node :=
  Node.new ⟨4⟩ "b" Health.defaultMinBackoff Health.defaultMaxBackoff

end LedgerClient
