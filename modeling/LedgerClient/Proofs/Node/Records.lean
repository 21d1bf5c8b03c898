import LedgerClient.Delivery.Surroundings

/-!
# The records of nodes

A registry changes by events alone, and an event changes the record of one node.  So the
record of a node is what the events of that node made of it, in their order, and its counters
are those events counted.
-/

namespace LedgerClient

/-- The events of one node among all that happened. -/
def eventsAt (node : NodeId) (happenings : List Happening) : List Health.Event :=
  happenings.filterMap fun h => if h.node = node then some h.event else none

theorem eventsAt_cons_same (happening : Happening) (rest : List Happening) :
    eventsAt happening.node (happening :: rest) =
      happening.event :: eventsAt happening.node rest := by
  simp [eventsAt]

theorem eventsAt_cons_other {node : NodeId} {happening : Happening} (h : happening.node ≠ node)
    (rest : List Happening) : eventsAt node (happening :: rest) = eventsAt node rest := by
  simp [eventsAt, h]

@[simp]
theorem eventsAt_append (node : NodeId) (xs ys : List Happening) :
    eventsAt node (xs ++ ys) = eventsAt node xs ++ eventsAt node ys := by
  simp [eventsAt]

theorem eventsAt_same (node : NodeId) (events : List Health.Event) :
    eventsAt node (events.map (Happening.mk node)) = events := by
  simp only [eventsAt, List.filterMap_map, Function.comp_def, if_true, List.filterMap_some]

theorem eventsAt_other {node id : NodeId} (h : id ≠ node) (events : List Health.Event) :
    eventsAt node (events.map (Happening.mk id)) = [] := by
  simp [eventsAt, List.filterMap_map, h]

namespace Health

/-!
## Counters
-/

namespace Event

def isUse : Event → Bool
  | used _ => true
  | _ => false

def isFailure : Event → Bool
  | failed _ => true
  | _ => false

end Event

/-- A number in the record that goes up by one with the events of one kind. -/
theorem counter_foldl {counter : Health → Nat} {counts : Event → Bool}
    (hstep : forall (h : Health) (e : Event), e ≠ .forgotten ->
      counter (h.record e) = counter h + (counts e).toNat)
    {events : List Event} (hkept : Event.forgotten ∉ events) (h : Health) :
    counter (events.foldl record h) = counter h + events.countP counts := by
  induction events generalizing h with
  | nil => rfl
  | cons e rest ih =>
      rcases not_or.mp (fun hmem => hkept (List.mem_cons.mpr hmem)) with ⟨hfirst, hrest⟩
      rw [List.foldl_cons, ih hrest, hstep h e (Ne.symm hfirst), List.countP_cons]
      cases counts e with
      | false => rfl
      | true =>
          simp only [Bool.toNat_true, if_true]
          omega

theorem useCount_foldl {events : List Event} (hkept : Event.forgotten ∉ events) (h : Health) :
    (events.foldl record h).useCount = h.useCount + events.countP Event.isUse := by
  apply counter_foldl _ hkept
  intro h e he
  cases e with
  | used now => rfl
  | failed now => rfl
  | succeeded => rfl
  | forgotten => exact (he rfl).elim

theorem failureCount_foldl {events : List Event} (hkept : Event.forgotten ∉ events)
    (h : Health) :
    (events.foldl record h).failureCount = h.failureCount + events.countP Event.isFailure := by
  apply counter_foldl _ hkept
  intro h e he
  cases e with
  | used now => rfl
  | failed now => rfl
  | succeeded => rfl
  | forgotten => exact (he rfl).elim

end Health

namespace Registry

/-!
## What an event changes
-/

theorem id_record_if (n : Node) (p : Bool) (e : Health.Event) :
    (if p then n.record e else n).id = n.id := by
  cases p with
  | false => rfl
  | true => rfl

@[simp]
theorem ids_recordWhere (r : Registry) (p : Node → Bool) (e : Health.Event) :
    (r.recordWhere p e).ids = r.ids := by
  simp only [ids, recordWhere, List.map_map]
  apply List.map_congr_left
  intro n _
  exact id_record_if n (p n) e

@[simp]
theorem ids_record (r : Registry) (id : NodeId) (e : Health.Event) :
    (r.record id e).ids = r.ids :=
  r.ids_recordWhere (fun n => n.id == id) e

theorem get?_record (r : Registry) (id : NodeId) (e : Health.Event) (node : NodeId) :
    (r.record id e).get? node =
      (r.get? node).map fun n => if n.id == id then n.record e else n := by
  have hsame : (fun n : Node => n.id == node) ∘ (fun n => if n.id == id then n.record e else n) =
      fun n => n.id == node := by
    funext n
    rw [Function.comp, id_record_if]
  simp only [get?, record, recordWhere, List.find?_map, hsame]

theorem exists_get? {r : Registry} {node : NodeId} (h : node ∈ r.ids) :
    exists n, r.get? node = some n ∧ n.id = node := by
  rcases List.mem_map.mp h with ⟨n, hn, hid⟩
  cases hget : r.get? node with
  | none =>
      have hmiss := List.find?_eq_none.mp hget n hn
      simp [hid] at hmiss
  | some found =>
      have htest := List.find?_some hget
      exact ⟨found, rfl, by simpa using htest⟩

theorem health_record_same {r : Registry} {node : NodeId} (h : node ∈ r.ids) (e : Health.Event) :
    (r.record node e).health node = (r.health node).record e := by
  rcases exists_get? h with ⟨n, hget, hid⟩
  simp [health, get?_record, hget, hid, Node.record]

theorem health_record_other {node id : NodeId} (h : id ≠ node) (r : Registry)
    (e : Health.Event) : (r.record id e).health node = r.health node := by
  simp only [health, get?_record]
  cases hget : r.get? node with
  | none => rfl
  | some n =>
      have hid : n.id = node := by simpa using List.find?_some hget
      simp [hid, Ne.symm h]

@[simp]
theorem ids_meanwhile (r : Registry) (happenings : List Happening) :
    (r.meanwhile happenings).ids = r.ids := by
  induction happenings generalizing r with
  | nil => rfl
  | cons happening rest ih =>
      show ((r.record happening.node happening.event).meanwhile rest).ids = r.ids
      rw [ih, ids_record]

theorem meanwhile_append (r : Registry) (xs ys : List Happening) :
    r.meanwhile (xs ++ ys) = (r.meanwhile xs).meanwhile ys :=
  List.foldl_append

/-- The record of a node is what its events made of it. -/
theorem health_meanwhile {r : Registry} {node : NodeId} (hnode : node ∈ r.ids)
    (happenings : List Happening) :
    (r.meanwhile happenings).health node =
      (eventsAt node happenings).foldl Health.record (r.health node) := by
  induction happenings generalizing r with
  | nil => rfl
  | cons happening rest ih =>
      have hkept : node ∈ (r.record happening.node happening.event).ids := by simpa using hnode
      have hrest := ih hkept
      show ((r.record happening.node happening.event).meanwhile rest).health node = _
      by_cases hsame : happening.node = node
      · subst hsame
        rw [hrest, eventsAt_cons_same, health_record_same hnode]
        rfl
      · rw [hrest, eventsAt_cons_other hsame, health_record_other hsame]

end Registry

end LedgerClient
