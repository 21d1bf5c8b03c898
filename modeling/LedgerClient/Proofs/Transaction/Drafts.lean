import Mathlib.Data.List.Nodup
import LedgerClient.Proofs.Transaction.Freezing

/-!
# Which drafts can be frozen

Freezing checks a draft in a fixed order, and what it reports is the first thing that is
wrong.  It succeeds for all other drafts, and the bodies that it writes for the nodes of one
transaction differ in nothing but the octets of the node.
-/

namespace LedgerClient

/-!
## The first repetition in a list
-/

section

variable {α : Type} {x : α} {l : List α}

/-- The first element that stands earlier in the list as well. -/
def IsFirstRepeat (x : α) (l : List α) : Prop :=
  exists before after, l = before ++ x :: after ∧ before.Nodup ∧ x ∈ before

theorem IsFirstRepeat.ne_nil (h : IsFirstRepeat x l) : l ≠ [] := by
  rcases h with ⟨before, after, hl, _⟩
  rw [hl]
  exact List.append_ne_nil_of_right_ne_nil before (List.cons_ne_nil x after)

variable [DecidableEq α] {earlier : List α}

def firstRepeat? (earlier : List α) : List α → Option α
  | [] => none
  | x :: rest => if x ∈ earlier then some x else firstRepeat? (x :: earlier) rest

theorem firstRepeat?_eq_none_iff (hearlier : earlier.Nodup) :
    firstRepeat? earlier l = none <-> (l.reverse ++ earlier).Nodup := by
  induction l generalizing earlier with
  | nil => simp [firstRepeat?, hearlier]
  | cons y rest ih =>
      rw [firstRepeat?, List.reverse_cons, List.append_assoc, List.singleton_append]
      by_cases hy : y ∈ earlier
      · have hrepeated : ¬(rest.reverse ++ y :: earlier).Nodup :=
          fun h => (List.nodup_cons.mp h.of_append_right).left hy
        simp [hy, hrepeated]
      · rw [if_neg hy]
        exact ih (List.nodup_cons.mpr ⟨hy, hearlier⟩)

theorem firstRepeat?_eq_some_iff (hearlier : earlier.Nodup) :
    firstRepeat? earlier l = some x <->
      exists before after, l = before ++ x :: after ∧ (before.reverse ++ earlier).Nodup ∧
        x ∈ before.reverse ++ earlier := by
  induction l generalizing earlier with
  | nil => simp [firstRepeat?]
  | cons y rest ih =>
      rw [firstRepeat?]
      by_cases hy : y ∈ earlier
      · rw [if_pos hy]
        constructor
        · intro h
          cases h
          exact ⟨[], rest, rfl, hearlier, hy⟩
        · rintro ⟨before, after, hl, hdistinct, _⟩
          cases before with
          | nil =>
              cases hl
              rfl
          | cons z before =>
              cases hl
              rw [List.reverse_cons, List.append_assoc] at hdistinct
              exact ((List.nodup_cons.mp hdistinct.of_append_right).left hy).elim
      · rw [if_neg hy, ih (List.nodup_cons.mpr ⟨hy, hearlier⟩)]
        constructor
        · rintro ⟨before, after, hl, hdistinct, hx⟩
          refine ⟨y :: before, after, by rw [hl, List.cons_append], ?_, ?_⟩
          · rwa [List.reverse_cons, List.append_assoc, List.singleton_append]
          · rwa [List.reverse_cons, List.append_assoc, List.singleton_append]
        · rintro ⟨before, after, hl, hdistinct, hx⟩
          cases before with
          | nil =>
              cases hl
              exact (hy hx).elim
          | cons z before =>
              cases hl
              rw [List.reverse_cons, List.append_assoc, List.singleton_append] at hdistinct hx
              exact ⟨before, after, rfl, hdistinct, hx⟩

theorem firstRepeat?_nil_eq_some_iff : firstRepeat? [] l = some x <-> IsFirstRepeat x l := by
  rw [firstRepeat?_eq_some_iff List.nodup_nil]
  simp only [List.append_nil, List.mem_reverse, List.nodup_reverse, IsFirstRepeat]

theorem nodup_or_isFirstRepeat (l : List α) : l.Nodup ∨ exists x, IsFirstRepeat x l := by
  cases hrepeat : firstRepeat? [] l with
  | some x => exact Or.inr ⟨x, firstRepeat?_nil_eq_some_iff.mp hrepeat⟩
  | none =>
      rw [firstRepeat?_eq_none_iff List.nodup_nil, List.append_nil, List.nodup_reverse] at hrepeat
      exact Or.inl hrepeat

end

/-!
## Octets that agree outside a range
-/

/-- The octets from `start` on, `width` of them, are the only ones in which two strings of one
length may differ. -/
def Bytes.AgreeOutside (start width : Nat) (a b : Bytes) : Prop :=
  a.length = b.length ∧ forall i : Nat, i < start ∨ start + width ≤ i -> a[i]? = b[i]?

theorem Bytes.agreeOutside_of_middle (front back : Bytes) {middle other : Bytes}
    (hlength : middle.length = other.length) :
    Bytes.AgreeOutside front.length middle.length (front ++ (middle ++ back))
      (front ++ (other ++ back)) := by
  constructor
  · simp only [List.length_append, hlength]
  · intro i hi
    rcases hi with hfront | hback
    · rw [List.getElem?_append_left hfront, List.getElem?_append_left hfront]
    · have hafter : front.length ≤ i := by omega
      have hmiddle : middle.length ≤ i - front.length := by omega
      rw [List.getElem?_append_right hafter, List.getElem?_append_right hafter,
        List.getElem?_append_right hmiddle, List.getElem?_append_right (hlength ▸ hmiddle), hlength]

/-- What a body says behind the node it is addressed to. -/
def Body.terms (b : Body) : Bytes :=
  (Codec.u128.pair (Codec.u64.pair (Codec.text.pair Operation.codec))).encode
    (b.maxFee, b.validDurationSecs, b.memo, b.operation)

theorem Body.encode_eq (b : Body) :
    Body.codec.encode b =
      TransactionId.codec.encode b.transactionId ++
        (Bytes.littleEndian 8 b.node.number.toNat ++ b.terms) :=
  rfl

namespace Transaction

/-!
## What is wrong with a draft
-/

/-- What freezing asks for. -/
structure CanFreeze (tx : Transaction) : Prop where
  draft : tx.state = .draft
  addressed : tx.nodes ≠ []
  distinct : tx.nodes.Nodup
  identified : exists id, tx.id = some id
  valid : tx.operation.validate = .ok ()

/-- The first condition that is violated and its error. -/
inductive FreezeFault (tx : Transaction) : TransactionError -> Prop where
  | sealed : tx.state ≠ .draft -> FreezeFault tx .alreadyFrozen
  | addressless : tx.state = .draft -> tx.nodes = [] -> FreezeFault tx .noNodes
  | repeated {node : NodeId} : tx.state = .draft -> IsFirstRepeat node tx.nodes ->
      FreezeFault tx (.nodeTwice node)
  | nameless : tx.state = .draft -> tx.nodes ≠ [] -> tx.nodes.Nodup -> tx.id = none ->
      FreezeFault tx (.missing .transactionId)
  | invalid {id : TransactionId} {e : TransactionError} : tx.state = .draft -> tx.nodes ≠ [] ->
      tx.nodes.Nodup -> tx.id = some id -> tx.operation.validate = .error e -> FreezeFault tx e

theorem firstRepeated?_eq (earlier nodes : List NodeId) :
    firstRepeated? earlier nodes = firstRepeat? earlier nodes := by
  induction nodes generalizing earlier with
  | nil => rfl
  | cons node rest ih =>
      rw [firstRepeated?, firstRepeat?, ih]
      simp only [List.contains_iff_mem]

variable {tx frozen : Transaction} {e : TransactionError}

theorem canFreeze_or_fault (tx : Transaction) : tx.CanFreeze ∨ exists e, tx.FreezeFault e := by
  by_cases hstate : tx.state = .draft
  · by_cases hnodes : tx.nodes = []
    · exact Or.inr ⟨_, .addressless hstate hnodes⟩
    · rcases nodup_or_isFirstRepeat tx.nodes with hdistinct | ⟨node, hrepeat⟩
      · cases hid : tx.id with
        | none => exact Or.inr ⟨_, .nameless hstate hnodes hdistinct hid⟩
        | some id =>
            cases hvalid : tx.operation.validate with
            | error e => exact Or.inr ⟨e, .invalid hstate hnodes hdistinct hid hvalid⟩
            | ok valid => exact Or.inl ⟨hstate, hnodes, hdistinct, ⟨id, hid⟩, hvalid⟩
      · exact Or.inr ⟨_, .repeated hstate hrepeat⟩
  · exact Or.inr ⟨_, .sealed hstate⟩

theorem FreezeFault.freeze_eq (h : tx.FreezeFault e) : tx.freeze = .error e := by
  have haddressed : tx.nodes ≠ [] -> tx.nodes.isEmpty = false := by
    simp
  have hfresh : tx.nodes.Nodup -> firstRepeated? [] tx.nodes = none :=
    fun hdistinct => firstRepeated?_eq_none_iff.mpr ⟨hdistinct, fun _ _ => List.not_mem_nil⟩
  cases h with
  | sealed hstate =>
      rw [freeze, requireDraft, if_neg hstate]
      rfl
  | addressless hstate hnodes =>
      rw [freeze, requireDraft_eq_ok_iff.mpr hstate, hnodes]
      rfl
  | repeated hstate hrepeat =>
      have hrepeated := firstRepeat?_nil_eq_some_iff.mpr hrepeat
      rw [← firstRepeated?_eq] at hrepeated
      rw [freeze, requireDraft_eq_ok_iff.mpr hstate, haddressed hrepeat.ne_nil, hrepeated]
      rfl
  | nameless hstate hnodes hdistinct hid =>
      rw [freeze, requireDraft_eq_ok_iff.mpr hstate, haddressed hnodes, hfresh hdistinct, hid]
      rfl
  | invalid hstate hnodes hdistinct hid hvalid =>
      rw [freeze, requireDraft_eq_ok_iff.mpr hstate, haddressed hnodes, hfresh hdistinct, hid,
        hvalid]
      rfl

theorem freeze_eq_error_iff : tx.freeze = .error e <-> tx.FreezeFault e := by
  constructor
  · intro h
    rcases tx.canFreeze_or_fault with hfree | ⟨other, hfault⟩
    · rcases hfree.identified with ⟨id, hid⟩
      rw [freeze_of_valid hfree.draft hfree.addressed hfree.distinct hid hfree.valid] at h
      cases h
    · have hother := hfault.freeze_eq
      rw [h] at hother
      cases hother
      exact hfault
  · exact FreezeFault.freeze_eq

theorem canFreeze_iff : tx.CanFreeze <-> exists frozen, tx.freeze = .ok frozen := by
  constructor
  · intro h
    rcases h.identified with ⟨id, hid⟩
    exact ⟨_, freeze_of_valid h.draft h.addressed h.distinct hid h.valid⟩
  · rintro ⟨frozen, h⟩
    rcases freeze_eq_ok h with ⟨hstate, hnodes, hdistinct, hvalid, id, hid, _⟩
    exact ⟨hstate, hnodes, hdistinct, ⟨id, hid⟩, hvalid⟩

/-!
## Freezing in place
-/

/-- Writes the bodies one after the other, up to the first that cannot be written. -/
def writePayloads (write : Body → Except TransactionError Bytes) (bodyFor : NodeId → Body) :
    List NodeId → Except TransactionError (List Payload)
  | [] => .ok []
  | node :: rest =>
      match write (bodyFor node) with
      | .error e => .error e
      | .ok body =>
          match writePayloads write bodyFor rest with
          | .error e => .error e
          | .ok payloads => .ok ({ node := node, body := body, signatures := .empty } :: payloads)

/-- Freezing field by field, with a writer of bodies that might fail.  The defaults are set before
any body is written. -/
def freezeInPlace (write : Body → Except TransactionError Bytes) (tx : Transaction) :
    Transaction × Except TransactionError Unit :=
  match tx.requireDraft with
  | .error e => (tx, .error e)
  | .ok () =>
      if tx.nodes.isEmpty then (tx, .error .noNodes)
      else
        match firstRepeated? [] tx.nodes with
        | some node => (tx, .error (.nodeTwice node))
        | none =>
            match tx.id with
            | none => (tx, .error (.missing .transactionId))
            | some id =>
                match tx.operation.validate with
                | .error e => (tx, .error e)
                | .ok () =>
                    let fee := tx.maxFee.getD defaultMaxFee
                    let tx := { tx with maxFee := some fee }
                    let secs := tx.validDurationSecs.getD defaultValidDurationSecs
                    let tx := { tx with validDurationSecs := some secs }
                    let bodyFor := fun node : NodeId =>
                      { transactionId := id
                        node := node
                        maxFee := fee
                        validDurationSecs := secs
                        memo := tx.memo
                        operation := tx.operation }
                    match writePayloads write bodyFor tx.nodes with
                    | .error e => (tx, .error e)
                    | .ok payloads => ({ tx with payloads := payloads, state := .frozen }, .ok ())

/-- The writer there is does not fail. -/
def writeBody (b : Body) : Except TransactionError Bytes :=
  .ok (Body.codec.encode b)

theorem writePayloads_writeBody (bodyFor : NodeId → Body) (nodes : List NodeId) :
    writePayloads writeBody bodyFor nodes =
      .ok (nodes.map fun node =>
        { node := node, body := Body.codec.encode (bodyFor node), signatures := .empty }) := by
  induction nodes with
  | nil => rfl
  | cons node rest ih =>
      rw [writePayloads, ih]
      rfl

/-- On error a transaction is what it was before. -/
theorem freezeInPlace_eq (tx : Transaction) :
    (exists frozen, tx.freeze = .ok frozen ∧ tx.freezeInPlace writeBody = (frozen, .ok ())) ∨
      exists e, tx.freeze = .error e ∧ tx.freezeInPlace writeBody = (tx, .error e) := by
  unfold freeze freezeInPlace
  cases tx.requireDraft with
  | error e => exact Or.inr ⟨e, rfl, rfl⟩
  | ok draft =>
      cases tx.nodes.isEmpty with
      | true => exact Or.inr ⟨_, rfl, rfl⟩
      | false =>
          cases firstRepeated? [] tx.nodes with
          | some node => exact Or.inr ⟨_, rfl, rfl⟩
          | none =>
              cases tx.id with
              | none => exact Or.inr ⟨_, rfl, rfl⟩
              | some id =>
                  cases tx.operation.validate with
                  | error e => exact Or.inr ⟨e, rfl, rfl⟩
                  | ok valid =>
                      left
                      refine ⟨_, rfl, ?_⟩
                      simp only [writePayloads_writeBody]
                      rfl

/-!
## What freezing makes of a draft
-/

/-- A transaction frozen with an id: a payload for each node, in bodies that differ in the node. -/
structure FreezesTo (tx frozen : Transaction) (id : TransactionId) : Prop where
  identified : tx.id = some id
  state : frozen.state = .frozen
  kept : frozen.id = tx.id ∧ frozen.nodes = tx.nodes ∧ frozen.memo = tx.memo ∧
    frozen.operation = tx.operation
  maxFee : frozen.maxFee = some (tx.maxFee.getD defaultMaxFee)
  duration : frozen.validDurationSecs = some (tx.validDurationSecs.getD defaultValidDurationSecs)
  addressed : frozen.payloads.map Payload.node = tx.nodes
  unsigned : forall p, p ∈ frozen.payloads -> p.signatures = .empty
  alike : forall p q, p ∈ frozen.payloads -> q ∈ frozen.payloads ->
    Bytes.AgreeOutside (TransactionId.codec.encode id).length 8 p.body q.body
  placed : forall p, p ∈ frozen.payloads ->
    exists terms, p.body = TransactionId.codec.encode id ++
      (Bytes.littleEndian 8 p.node.number.toNat ++ terms)

theorem freezesTo_frozenAs {id : TransactionId} (hid : tx.id = some id) :
    tx.FreezesTo (tx.frozenAs id) id := by
  have hbody : exists terms, forall p, p ∈ (tx.frozenAs id).payloads ->
      p.signatures = .empty ∧
        p.body = TransactionId.codec.encode id ++
          (Bytes.littleEndian 8 p.node.number.toNat ++ terms) := by
    refine ⟨Body.terms ⟨id, default, tx.maxFee.getD defaultMaxFee,
      tx.validDurationSecs.getD defaultValidDurationSecs, tx.memo, tx.operation⟩, ?_⟩
    intro p hp
    rcases List.mem_map.mp hp with ⟨node, _, hpayload⟩
    rw [← hpayload]
    exact ⟨rfl, Body.encode_eq _⟩
  rcases hbody with ⟨terms, hbody⟩
  constructor
  case identified => exact hid
  case state => rfl
  case kept => exact ⟨rfl, rfl, rfl, rfl⟩
  case maxFee => rfl
  case duration => rfl
  case addressed =>
    rw [frozenAs, List.map_map]
    exact List.map_id tx.nodes
  case unsigned => exact fun p hp => (hbody p hp).left
  case alike =>
    intro p q hp hq
    rw [(hbody p hp).right, (hbody q hq).right]
    have hlength := Bytes.length_littleEndian 8 p.node.number.toNat
    have hagree := Bytes.agreeOutside_of_middle (TransactionId.codec.encode id) terms
      (hlength.trans (Bytes.length_littleEndian 8 q.node.number.toNat).symm)
    rwa [hlength] at hagree
  case placed => exact fun p hp => ⟨terms, (hbody p hp).right⟩

/-- Freezing reports the first thing that is wrong and leaves the transaction as it is.  If nothing
is wrong, it writes one unsigned payload for each node, in bodies of one length that differ only in
the octets of the node behind the id. -/
theorem freeze_decides (tx : Transaction) :
    (tx.CanFreeze <-> exists frozen, tx.freeze = .ok frozen) ∧
      (forall e, tx.FreezeFault e <-> tx.freeze = .error e) ∧
      (forall e, tx.freeze = .error e -> tx.freezeInPlace writeBody = (tx, .error e)) ∧
      forall frozen, tx.freeze = .ok frozen ->
        tx.freezeInPlace writeBody = (frozen, .ok ()) ∧ exists id, tx.FreezesTo frozen id := by
  refine ⟨canFreeze_iff, fun e => freeze_eq_error_iff.symm, ?_, ?_⟩
  · intro e h
    rcases tx.freezeInPlace_eq with ⟨_, hfreeze, _⟩ | ⟨other, hfreeze, hplace⟩
    · rw [h] at hfreeze
      cases hfreeze
    · rw [h] at hfreeze
      cases hfreeze
      exact hplace
  · intro frozen h
    rcases tx.freezeInPlace_eq with ⟨other, hfreeze, hplace⟩ | ⟨_, hfreeze, _⟩
    · rw [h] at hfreeze
      cases hfreeze
      rcases freeze_eq_ok h with ⟨_, _, _, _, id, hid, hfrozen⟩
      rw [hfrozen] at hplace ⊢
      exact ⟨hplace, id, freezesTo_frozenAs hid⟩
    · rw [h] at hfreeze
      cases hfreeze

/-- There is no id and no file either, but the node comes first. -/
example : freeze { new (.fileDelete none) with nodes := [⟨3⟩, ⟨4⟩, ⟨3⟩] } =
    .error (.nodeTwice ⟨3⟩) :=
  rfl

end Transaction

end LedgerClient
