import LedgerClient.Proofs.Client.Acceptance
import LedgerClient.Proofs.Client.Calls
import LedgerClient.Proofs.Delivery.Sending
import LedgerClient.Proofs.Node.Records
import LedgerClient.Proofs.Transaction.Drafts

/-!
# What a client fills in

A client sets what a draft leaves open, one field after the other, and freezes it.  Its own
configuration was accepted, so setting a field of a draft does not fail, and a draft is frozen as if
it had been completed at once.  What the caller has set stays as it is, also if the draft cannot be
frozen.
-/

namespace LedgerClient

namespace Client

/-!
## Clients that were made
-/

/-- A client from an accepted configuration.  It may have got an operator since, and anything may
have happened to the records of its nodes. -/
inductive IsMade : Client -> Prop where
  | new {config : Config} {c : Client} : Client.new config = .ok c -> IsMade c
  | withOperator {c : Client} (account : AccountId) (signer : Signer) : IsMade c ->
      IsMade (c.withOperator account signer)
  | withRecords {c : Client} (p : Node → Bool) (e : Health.Event) : IsMade c ->
      IsMade (c.withRegistry (c.registry.recordWhere p e))

variable {σ : Type} {c : Client} {w : Surroundings σ} {tx frozen after : Transaction}
  {world started : σ} {id : TransactionId} {e : TransactionError}

theorem IsMade.validate_config (h : c.IsMade) : c.config.validate = .ok () := by
  induction h with
  | new hnew =>
      rcases validate_of_new hnew with ⟨hvalid, hconfig⟩
      rw [hconfig]
      exact hvalid
  | withOperator account signer _ ih => exact ih
  | withRecords p e _ ih => exact ih

theorem IsMade.validDuration (h : c.IsMade) : c.config.validDurationSecs ≠ 0 :=
  (Config.validate_eq_ok_iff.mp h.validate_config).right.validDuration

/-- The nodes are those of the configuration, in the order in which it lists them. -/
theorem IsMade.ids (h : c.IsMade) : c.registry.ids = c.config.nodes.map NodeEntry.id := by
  induction h with
  | @new config c hnew =>
      rcases new_of_valid (validate_of_new hnew).left with ⟨registry, hregistry, hmade⟩
      rw [hnew] at hmade
      cases hmade
      show registry.nodes.map Node.id = config.nodes.map NodeEntry.id
      rw [Registry.nodes_of_ofNodes hregistry, List.map_map]
      rfl
  | withOperator account signer _ ih => exact ih
  | @withRecords c p e _ ih => exact (c.registry.ids_recordWhere p e).trans ih

/-!
## Filling in one field
-/

def nodesFor (c : Client) (tx : Transaction) : List NodeId :=
  if tx.nodes.isEmpty then c.registry.ids else tx.nodes

theorem fillNodes_of_draft (c : Client) (hdraft : tx.state = .draft) :
    c.fillNodes tx = .ok { tx with nodes := c.nodesFor tx } := by
  unfold fillNodes nodesFor Transaction.setNodes
  rw [Transaction.requireDraft_eq_ok_iff.mpr hdraft]
  cases tx.nodes.isEmpty with
  | true => rfl
  | false => rfl

theorem fillMaxFee_of_draft (c : Client) (hdraft : tx.state = .draft) :
    c.fillMaxFee tx = .ok { tx with maxFee := some (tx.maxFee.getD c.config.maxFee) } := by
  unfold fillMaxFee Transaction.setMaxFee
  rw [Transaction.requireDraft_eq_ok_iff.mpr hdraft]
  cases hfee : tx.maxFee with
  | none => rfl
  | some fee =>
      show Except.ok tx = .ok { tx with maxFee := some fee }
      rw [← hfee]

theorem fillValidDuration_of_draft (hduration : c.config.validDurationSecs ≠ 0)
    (hdraft : tx.state = .draft) :
    c.fillValidDuration tx =
      .ok { tx with
        validDurationSecs := some (tx.validDurationSecs.getD c.config.validDurationSecs) } := by
  unfold fillValidDuration Transaction.setValidDurationSecs
  rw [Transaction.requireDraft_eq_ok_iff.mpr hdraft, if_neg hduration]
  cases hsecs : tx.validDurationSecs with
  | none => rfl
  | some secs =>
      show Except.ok tx = .ok { tx with validDurationSecs := some secs }
      rw [← hsecs]

theorem applyEach_cons_of_ok {change : Transaction → Except TransactionError Transaction}
    {rest : List (Transaction → Except TransactionError Transaction)} {changed : Transaction}
    (h : change tx = .ok changed) : applyEach (change :: rest) tx = applyEach rest changed := by
  rw [applyEach, h]

/-!
## Completing a draft
-/

/-- A transaction under an id, with what it lacks from the client. -/
def completed (c : Client) (id : TransactionId) (tx : Transaction) : Transaction :=
  { tx with
    id := some id
    nodes := c.nodesFor tx
    maxFee := some (tx.maxFee.getD c.config.maxFee)
    validDurationSecs := some (tx.validDurationSecs.getD c.config.validDurationSecs) }

/-- The id of the transaction, or else an id of the operator that is valid from now on. -/
def idFor? (c : Client) (w : Surroundings σ) (tx : Transaction) (world : σ) :
    Option TransactionId :=
  match tx.id with
  | some id => some id
  | none =>
      c.operator.map fun operator =>
        { account := operator.account
          validStart := (w.clock world).1
          nonce := (w.nonce (w.clock world).2).1
          scheduled := false }

theorem freezeIdentified_of_draft (hduration : c.config.validDurationSecs ≠ 0)
    (hdraft : tx.state = .draft) (hid : tx.id = some id) :
    c.freezeIdentified tx = applyEach [Transaction.freeze] (c.completed id tx) := by
  calc
    c.freezeIdentified tx
      = applyEach [c.fillMaxFee, c.fillValidDuration, Transaction.freeze]
          { tx with nodes := c.nodesFor tx } :=
        applyEach_cons_of_ok (c.fillNodes_of_draft hdraft)
    _ = applyEach [c.fillValidDuration, Transaction.freeze]
          { tx with
            nodes := c.nodesFor tx
            maxFee := some (tx.maxFee.getD c.config.maxFee) } :=
        applyEach_cons_of_ok (c.fillMaxFee_of_draft hdraft)
    _ = applyEach [Transaction.freeze]
          { tx with
            nodes := c.nodesFor tx
            maxFee := some (tx.maxFee.getD c.config.maxFee)
            validDurationSecs := some (tx.validDurationSecs.getD c.config.validDurationSecs) } :=
        applyEach_cons_of_ok (fillValidDuration_of_draft hduration hdraft)
    _ = applyEach [Transaction.freeze] (c.completed id tx) := by
        rw [completed, ← hid]

theorem freezeWith_of_draft (hduration : c.config.validDurationSecs ≠ 0)
    (hdraft : tx.state = .draft) (hid : c.idFor? w tx world = some id) :
    exists started, c.freezeWith w tx world =
      ((applyEach [Transaction.freeze] (c.completed id tx)).1,
        (applyEach [Transaction.freeze] (c.completed id tx)).2, started) := by
  unfold idFor? at hid
  cases hgiven : tx.id with
  | some given =>
      rw [hgiven] at hid
      cases hid
      refine ⟨world, ?_⟩
      simp only [freezeWith, hgiven, freezeIdentified_of_draft hduration hdraft hgiven]
  | none =>
      rw [hgiven] at hid
      rcases Option.map_eq_some_iff.mp hid with ⟨operator, hoperator, hmade⟩
      have hset : tx.setId (TransactionId.generate operator.account (w.clock world).1
          (w.nonce (w.clock world).2).1) = .ok { tx with id := some id } := by
        rw [Transaction.setId, Transaction.requireDraft_eq_ok_iff.mpr hdraft, ← hmade]
        rfl
      have hfilled : c.freezeIdentified { tx with id := some id } =
          applyEach [Transaction.freeze] (c.completed id tx) :=
        freezeIdentified_of_draft hduration hdraft rfl
      refine ⟨(w.nonce (w.clock world).2).2, ?_⟩
      simp only [freezeWith, hgiven, hoperator, hset, hfilled]

/-!
## What comes of a transaction
-/

/-- A transaction that cannot be completed stays as it is; otherwise all depends on whether it can
be frozen once it is complete. -/
inductive Freezes (c : Client) (w : Surroundings σ) (tx : Transaction) (world : σ) :
    Transaction × Except TransactionError Unit × σ -> Prop where
  | sealed {e : TransactionError} {started : σ} : tx.state ≠ .draft ->
      Freezes c w tx world (tx, .error e, started)
  | nameless {e : TransactionError} {started : σ} : c.idFor? w tx world = none ->
      Freezes c w tx world (tx, .error e, started)
  | refused {id : TransactionId} {e : TransactionError} {started : σ} : tx.state = .draft ->
      c.idFor? w tx world = some id -> (c.completed id tx).freeze = .error e ->
      Freezes c w tx world (c.completed id tx, .error e, started)
  | frozen {id : TransactionId} {frozen : Transaction} {started : σ} :
      c.idFor? w tx world = some id -> (c.completed id tx).freeze = .ok frozen ->
      Freezes c w tx world (frozen, .ok (), started)

theorem IsMade.freezes (hmade : c.IsMade) (w : Surroundings σ) (tx : Transaction) (world : σ) :
    c.Freezes w tx world (c.freezeWith w tx world) := by
  by_cases hdraft : tx.state = .draft
  · cases hid : c.idFor? w tx world with
    | none =>
        unfold idFor? at hid
        cases hgiven : tx.id with
        | some given =>
            rw [hgiven] at hid
            cases hid
        | none =>
            rw [hgiven] at hid
            have hoperator : c.operator = none := Option.map_eq_none_iff.mp hid
            rw [freezeWith, hgiven, hoperator]
            exact .nameless (by rw [idFor?, hgiven, hoperator, Option.map_none])
    | some id =>
        rcases freezeWith_of_draft hmade.validDuration hdraft hid with ⟨started, hsame⟩
        rw [hsame, applyEach]
        cases hfreeze : (c.completed id tx).freeze with
        | error e => exact .refused hdraft hid hfreeze
        | ok frozen => exact .frozen hid hfreeze
  · rcases c.freezeWith_of_sealed w hdraft world with ⟨e, started, hsame⟩
    rw [hsame]
    exact .sealed hdraft

theorem nodesFor_ne_nil (c : Client) (tx : Transaction) : c.nodesFor tx ≠ [] := by
  unfold nodesFor
  cases hnodes : tx.nodes with
  | nil => simpa [Registry.ids] using c.registry.nodes_ne_nil
  | cons node rest => simp

theorem nodup_nodesFor_iff : (c.nodesFor tx).Nodup <-> tx.nodes.Nodup := by
  unfold nodesFor
  cases hnodes : tx.nodes with
  | nil => simpa [Registry.ids] using c.registry.ids_nodup
  | cons node rest => simp

theorem canFreeze_completed_iff : (c.completed id tx).CanFreeze <->
    tx.state = .draft ∧ tx.nodes.Nodup ∧ tx.operation.validate = .ok () := by
  constructor
  · intro h
    exact ⟨h.draft, nodup_nodesFor_iff.mp h.distinct, h.valid⟩
  · rintro ⟨hdraft, hdistinct, hvalid⟩
    exact ⟨hdraft, c.nodesFor_ne_nil tx, nodup_nodesFor_iff.mpr hdistinct, ⟨id, rfl⟩, hvalid⟩

/-- Everything that was open comes from the client and nothing else has changed; the bodies say the
same as the fields. -/
structure Fills (c : Client) (id : TransactionId) (tx frozen : Transaction) : Prop where
  draft : tx.state = .draft
  state : frozen.state = .frozen
  identified : frozen.id = some id
  nodes : frozen.nodes = if tx.nodes.isEmpty then c.config.nodes.map NodeEntry.id else tx.nodes
  maxFee : frozen.maxFee = some (tx.maxFee.getD c.config.maxFee)
  validDuration :
    frozen.validDurationSecs = some (tx.validDurationSecs.getD c.config.validDurationSecs)
  memo : frozen.memo = tx.memo
  operation : frozen.operation = tx.operation
  addressed : frozen.payloads.map Payload.node = frozen.nodes
  bodies : forall p, p ∈ frozen.payloads -> p.signatures = .empty ∧
    exists fee secs, frozen.maxFee = some fee ∧ frozen.validDurationSecs = some secs ∧
      p.body = Body.codec.encode ⟨id, p.node, fee, secs, tx.memo, tx.operation⟩

theorem IsMade.fills (hmade : c.IsMade) (hfreeze : (c.completed id tx).freeze = .ok frozen) :
    c.Fills id tx frozen := by
  rcases Transaction.freeze_eq_ok hfreeze with ⟨hdraft, _, _, _, given, hgiven, hfrozen⟩
  cases hgiven
  rw [hfrozen]
  constructor
  case draft => exact hdraft
  case state => rfl
  case identified => rfl
  case nodes =>
    rw [← hmade.ids]
    rfl
  case maxFee => rfl
  case validDuration => rfl
  case memo => rfl
  case operation => rfl
  case addressed =>
    rw [Transaction.frozenAs, List.map_map]
    exact List.map_id _
  case bodies =>
    intro p hp
    rcases List.mem_map.mp hp with ⟨node, _, hpayload⟩
    rw [← hpayload]
    exact ⟨rfl, _, _, rfl, rfl, rfl⟩

/-- What was set is as it was, and so is all that a client does not set. -/
structure KeepsSet (tx after : Transaction) : Prop where
  state : after.state = tx.state
  id : forall id, tx.id = some id -> after.id = some id
  nodes : tx.nodes ≠ [] -> after.nodes = tx.nodes
  maxFee : forall fee, tx.maxFee = some fee -> after.maxFee = some fee
  validDuration : forall secs, tx.validDurationSecs = some secs ->
    after.validDurationSecs = some secs
  memo : after.memo = tx.memo
  operation : after.operation = tx.operation
  payloads : after.payloads = tx.payloads

theorem KeepsSet.refl (tx : Transaction) : KeepsSet tx tx :=
  ⟨rfl, fun _ h => h, fun _ => rfl, fun _ h => h, fun _ h => h, rfl, rfl, rfl⟩

theorem keepsSet_completed (hid : c.idFor? w tx world = some id) :
    KeepsSet tx (c.completed id tx) := by
  constructor
  case state => rfl
  case id =>
    intro given hgiven
    rw [idFor?, hgiven] at hid
    cases hid
    rfl
  case nodes =>
    intro hset
    exact if_neg (by simpa using hset)
  case maxFee =>
    intro fee hfee
    rw [completed, hfee, Option.getD_some]
  case validDuration =>
    intro secs hsecs
    rw [completed, hsecs, Option.getD_some]
  case memo => rfl
  case operation => rfl
  case payloads => rfl

/-- A client never overwrites what the caller set.  A draft for which there is an id, from the
caller or from the operator, is frozen if its nodes are distinct and its operation is valid, with
what it lacked from the client.  Anything else is an error, which at most leaves fields set that
were not set before, and of a transaction that is no draft changes nothing. -/
theorem freezeWith_never_overwrites (hmade : c.IsMade) (w : Surroundings σ) (tx : Transaction)
    (world : σ) :
    (forall frozen started, c.freezeWith w tx world = (frozen, .ok (), started) ->
      exists id, c.idFor? w tx world = some id ∧ c.Fills id tx frozen) ∧
    (forall after e started, c.freezeWith w tx world = (after, .error e, started) ->
      KeepsSet tx after ∧ (tx.state ≠ .draft -> after = tx)) ∧
    ((exists frozen started, c.freezeWith w tx world = (frozen, .ok (), started)) <->
      tx.state = .draft ∧ (exists id, c.idFor? w tx world = some id) ∧ tx.nodes.Nodup ∧
        tx.operation.validate = .ok ()) := by
  have hfreezes := hmade.freezes w tx world
  refine ⟨?_, ?_, ?_, ?_⟩
  · intro frozen started h
    rw [h] at hfreezes
    cases hfreezes with
    | @frozen id _ _ hid hfreeze => exact ⟨id, hid, hmade.fills hfreeze⟩
  · intro after e started h
    rw [h] at hfreezes
    cases hfreezes with
    | sealed _ => exact ⟨.refl tx, fun _ => rfl⟩
    | nameless _ => exact ⟨.refl tx, fun _ => rfl⟩
    | refused hdraft hid _ =>
        exact ⟨keepsSet_completed hid, fun hsealed => (hsealed hdraft).elim⟩
  · rintro ⟨frozen, started, h⟩
    rw [h] at hfreezes
    cases hfreezes with
    | @frozen id _ _ hid hfreeze =>
        rcases canFreeze_completed_iff.mp (Transaction.canFreeze_iff.mpr ⟨frozen, hfreeze⟩) with
          ⟨hdraft, hdistinct, hvalid⟩
        exact ⟨hdraft, ⟨id, hid⟩, hdistinct, hvalid⟩
  · rintro ⟨hdraft, ⟨id, hid⟩, hdistinct, hvalid⟩
    rcases h : c.freezeWith w tx world with ⟨after, result, started⟩
    rw [h] at hfreezes
    cases hfreezes with
    | sealed hsealed => exact (hsealed hdraft).elim
    | nameless hnone =>
        rw [hid] at hnone
        cases hnone
    | @refused other e _ _ hother hfreeze =>
        have hcan : (c.completed other tx).CanFreeze :=
          canFreeze_completed_iff.mpr ⟨hdraft, hdistinct, hvalid⟩
        rcases Transaction.canFreeze_iff.mp hcan with ⟨frozen, hfrozen⟩
        rw [hfreeze] at hfrozen
        cases hfrozen
    | frozen _ _ => exact ⟨after, started, rfl⟩

def localRegistry : Registry :=
  { nodes := Config.localNetwork.nodes.map Config.localNetwork.nodeOf
    nodes_ne_nil := List.cons_ne_nil _ _
    ids_nodup := by decide
    addresses_nodup := by decide }

def localClient : Client :=
  { config := .localNetwork
    engine := { settings := Config.localNetwork.delivery, registry := localRegistry }
    operator := none }

theorem new_localNetwork : Client.new .localNetwork = .ok localClient := by
  have hvalid : Config.localNetwork.validate = .ok () := by decide +kernel
  rcases new_of_valid hvalid with ⟨registry, hregistry, hnew⟩
  cases hregistry
  exact hnew

def localPayer : Client :=
  localClient.withOperator ⟨.fill 32 7⟩ ⟨.fill 32 1, fun _ => .fill 64 2⟩

/-- A transfer of which only the fee is set. -/
def pricedTransfer : Transaction :=
  { Transaction.new (.transfer (some ⟨.fill 32 9⟩) 5) with maxFee := some 7 }

theorem pricedTransfer_filled :
    localPayer.IsMade ∧
      exists frozen started,
        localPayer.freezeWith accepting pricedTransfer false = (frozen, .ok (), started) ∧
          frozen.id = some ⟨⟨.fill 32 7⟩, 0, 0, false⟩ ∧
          frozen.nodes = [⟨3⟩, ⟨4⟩, ⟨5⟩, ⟨6⟩] ∧ frozen.maxFee = some 7 ∧
          frozen.validDurationSecs = some 120 := by
  have hmade : localPayer.IsMade := .withOperator _ _ (.new new_localNetwork)
  rcases freezeWith_never_overwrites hmade accepting pricedTransfer false with
    ⟨hfills, _, hfrozen⟩
  rcases hfrozen.mpr ⟨rfl, ⟨_, rfl⟩, List.nodup_nil, by decide⟩ with ⟨frozen, started, h⟩
  rcases hfills frozen started h with ⟨id, hid, hfilled⟩
  cases hid
  exact ⟨hmade, frozen, started, h, hfilled.identified, hfilled.nodes, hfilled.maxFee,
    hfilled.validDuration⟩

end Client

end LedgerClient
