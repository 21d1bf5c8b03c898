import LedgerClient.Proofs.Transaction.Drafts
import LedgerClient.Proofs.Transaction.Reading

/-!
# Transactions on a schedule

A signed transaction is put on a schedule by another transaction that carries the octets of its
first payload.  Nothing is written anew: the body that was signed and its signatures go into
the envelope as they are, the envelope is good enough for the other transaction to be frozen,
and whoever reads the bodies of that one finds the first body in them.
-/

namespace LedgerClient

namespace Envelope

variable {e after : Envelope} {key : PublicKey} {signature : Signature} {added : Bool}

/-- A signature is added behind the others, or not at all. -/
theorem prefix_of_addSignature (h : e.addSignature key signature = .ok (after, added)) :
    after.body = e.body ∧ e.signatures.pairs <+: after.signatures.pairs := by
  unfold addSignature SignatureMap.insert at h
  cases hstanding : e.signatures.standing key with
  | absent =>
      rw [hstanding] at h
      cases h
      exact ⟨rfl, List.prefix_append _ _⟩
  | present =>
      rw [hstanding] at h
      cases h
      exact ⟨rfl, List.prefix_refl _⟩
  | clash =>
      rw [hstanding] at h
      cases h

end Envelope

theorem Body.encode_ne_nil (b : Body) : Body.codec.encode b ≠ [] := by
  intro hnone
  have hlength := congrArg List.length hnone
  rw [Body.encode_eq] at hlength
  simp at hlength

theorem Operation.isSchedulable_eq_false_iff {op : Operation} :
    op.isSchedulable = false <-> op.kind = .ethereumCall ∨ op.kind = .scheduleCreate := by
  unfold isSchedulable
  cases op.kind with
  | ethereumCall => decide
  | scheduleCreate => decide
  | transfer => decide
  | accountCreate => decide
  | fileAppend => decide
  | fileDelete => decide
  | systemUndelete => decide
  | topicMessageSubmit => decide

namespace Transaction

variable {tx draft : Transaction}

theorem requireSigned_eq_ok_iff :
    tx.requireSigned = .ok () <->
      tx.state ≠ .draft ∧ tx.state ≠ .frozen ∧
        forall p, p ∈ tx.payloads -> p.signatures.isEmpty = false := by
  unfold requireSigned
  cases tx.state with
  | draft => simp
  | frozen => simp
  | signed => simp
  | executing => simp
  | completed => simp
  | failed => simp

/-- The draft that puts a payload on a schedule. -/
def scheduling (p : Payload) (nodes : List NodeId) : Transaction :=
  { new (.scheduleCreate ⟨p.body, p.signatures⟩ none none "") with nodes := nodes }

theorem wrapAsScheduled_of_unschedulable (h : tx.operation.isSchedulable = false) :
    tx.wrapAsScheduled = .error (.notSchedulable tx.operation.kind) := by
  unfold wrapAsScheduled
  rw [h]
  rfl

theorem wrapAsScheduled_of_signed {first : Payload} {rest : List Payload}
    (hkind : tx.operation.isSchedulable = true) (hsigned : tx.requireSigned = .ok ())
    (hpayloads : tx.payloads = first :: rest) :
    tx.wrapAsScheduled = .ok ⟨first.body, first.signatures⟩ := by
  unfold wrapAsScheduled
  rw [hkind, hsigned, hpayloads]
  rfl

theorem schedule_of_signed {first : Payload} {rest : List Payload}
    (hkind : tx.operation.isSchedulable = true) (hsigned : tx.requireSigned = .ok ())
    (hpayloads : tx.payloads = first :: rest) :
    tx.schedule = .ok (scheduling first tx.nodes) := by
  unfold schedule
  rw [wrapAsScheduled_of_signed hkind hsigned hpayloads]
  rfl

theorem schedule_of_unschedulable (h : tx.operation.isSchedulable = false) :
    tx.schedule = .error (.notSchedulable tx.operation.kind) := by
  unfold schedule
  rw [wrapAsScheduled_of_unschedulable h]
  rfl

/-!
## What the schedule carries
-/

variable {id : TransactionId} {fee : Amount} {secs : UInt64} {signers : List PublicKey}
  {first : Payload}

/-- The envelope of a sealed transaction is good enough for another one to be frozen with it. -/
theorem IsSealed.validate_scheduling (h : tx.IsSealed id fee secs signers)
    (hfirst : first ∈ tx.payloads) : (scheduling first tx.nodes).operation.validate = .ok () := by
  have hbody : first.body.isEmpty = false := by
    rw [h.bodies first hfirst, List.isEmpty_eq_false_iff]
    exact Body.encode_ne_nil _
  have hsignatures : first.signatures.validate = .ok () := by
    rw [SignatureMap.validate_eq_ok_iff, h.signed first hfirst]
    exact h.tags
  simp [scheduling, new, Operation.validate, hbody, hsignatures]

theorem IsSealed.freeze_scheduling (h : tx.IsSealed id fee secs signers)
    (hfirst : first ∈ tx.payloads) (other : TransactionId) :
    freeze { scheduling first tx.nodes with id := some other } =
      .ok (frozenAs { scheduling first tx.nodes with id := some other } other) :=
  freeze_of_valid rfl h.nodes h.distinct rfl (h.validate_scheduling hfirst)

/-- The octets of the envelope are part of those of the body that schedules it. -/
theorem countable_scheduled {b : Body} {e : Envelope} {payer : Option AccountId}
    {key : Option PublicKey} {memo : String} (hop : b.operation = .scheduleCreate e payer key memo)
    (hcount : Codec.Countable (Body.codec.encode b)) : Codec.Countable e.body := by
  have hoperation : Codec.Countable (Operation.codec.encode b.operation) :=
    hcount.right.right.right.right.right
  rw [hop] at hoperation
  have hparts : Codec.Countable (Operation.scheduleCreateCodec.encode (e, payer, key, memo)) :=
    hoperation.right
  have henvelope : Codec.Countable (Envelope.codec.encode e) := hparts.left
  exact henvelope.left.right

/-- A body that schedules a payload of a transaction: its envelope holds the octets that were signed
and all signatures, and is opened as the body that the transaction shows. -/
structure Schedules (tx : Transaction) (first : Payload) (body : Body) (e : Envelope) : Prop where
  operation : body.operation = .scheduleCreate e none none ""
  body : e.body = first.body
  signatures : e.signatures = first.signatures
  opened : exists original, e.decodeBody = .ok original ∧
    Body.codec.read first.body = .ok original ∧ tx.Speaks first original

theorem IsSealed.schedules (h : tx.IsSealed id fee secs signers) (hfirst : first ∈ tx.payloads)
    {other : TransactionId} {p : Payload}
    (hp : p ∈ (frozenAs { scheduling first tx.nodes with id := some other } other).payloads)
    (hcount : Codec.Countable p.body) :
    exists body e, Body.codec.decode p.body = .ok (body, []) ∧ body.transactionId = other ∧
      body.node = p.node ∧ tx.Schedules first body e := by
  rcases List.mem_map.mp hp with ⟨node, _, hmade⟩
  rw [← hmade] at hcount ⊢
  have hread := Body.lossless_codec _ hcount []
  rw [List.append_nil] at hread
  refine ⟨_, ⟨first.body, first.signatures⟩, hread, rfl, rfl, rfl, rfl, rfl, ?_⟩
  rcases h.readable hfirst (countable_scheduled rfl hcount) with ⟨original, hdecode, hspeaks⟩
  have horiginal : Body.codec.read first.body = .ok original := by
    simp only [Codec.read, Reader.run, hdecode]
  refine ⟨original, ?_, horiginal, hspeaks⟩
  simp only [Envelope.decodeBody, horiginal]

/-- A transaction that was made here and is signed can be put on a schedule under any id, and all
bodies of the schedule carry its first payload as it is.  Envelopes take further signatures behind
those that they hold.  What no schedule carries out is refused whatever its state. -/
theorem schedule_carries_original :
    (forall tx : Transaction, Reachable tx -> tx.operation.isSchedulable = true ->
      tx.payloads ≠ [] -> (forall p, p ∈ tx.payloads -> p.signatures.isEmpty = false) ->
      exists first rest draft, tx.payloads = first :: rest ∧ tx.schedule = .ok draft ∧
        draft.state = .draft ∧ draft.nodes = tx.nodes ∧
        forall id, exists named frozen, draft.setId id = .ok named ∧ named.freeze = .ok frozen ∧
          frozen.payloads.map Payload.node = tx.nodes ∧
          forall p, p ∈ frozen.payloads -> Codec.Countable p.body ->
            exists body e, Body.codec.decode p.body = .ok (body, []) ∧
              body.transactionId = id ∧ body.node = p.node ∧ tx.Schedules first body e) ∧
      (forall (e after : Envelope) (key : PublicKey) (signature : Signature) (added : Bool),
        e.addSignature key signature = .ok (after, added) ->
          after.body = e.body ∧ e.signatures.pairs <+: after.signatures.pairs) ∧
      forall tx : Transaction,
        tx.operation.kind = .ethereumCall ∨ tx.operation.kind = .scheduleCreate ->
          tx.wrapAsScheduled = .error (.notSchedulable tx.operation.kind) ∧
            tx.schedule = .error (.notSchedulable tx.operation.kind) := by
  refine ⟨?_, fun _ _ _ _ _ => Envelope.prefix_of_addSignature, ?_⟩
  · intro tx hmade hkind hpayloads hsigned
    have hcoherent := coherent_of_reachable hmade
    rcases List.exists_cons_of_ne_nil hpayloads with ⟨first, rest, hfirst⟩
    have hmem : first ∈ tx.payloads := by simp [hfirst]
    have hdraft : tx.state ≠ .draft := fun h => hpayloads (hcoherent.draft h)
    have hfrozen : tx.state ≠ .frozen := by
      intro h
      have hempty := hcoherent.consistent.unsigned h first hmem
      rw [hsigned first hmem] at hempty
      cases hempty
    have hready := requireSigned_eq_ok_iff.mpr ⟨hdraft, hfrozen, hsigned⟩
    rcases hcoherent.sealed hdraft with ⟨_, _, _, _, hsealed⟩
    refine ⟨first, rest, _, hfirst, schedule_of_signed hkind hready hfirst, rfl, rfl, ?_⟩
    intro id
    refine ⟨_, _, rfl, hsealed.freeze_scheduling hmem id, ?_, ?_⟩
    · exact (freezesTo_frozenAs rfl).addressed
    · exact fun p hp hcount => hsealed.schedules hmem hp hcount
  · intro tx hkind
    have hnever := Operation.isSchedulable_eq_false_iff.mpr hkind
    exact ⟨wrapAsScheduled_of_unschedulable hnever, schedule_of_unschedulable hnever⟩

/-- A signed transfer goes on a schedule, and it is found in all bodies of that. -/
theorem signedTransfer_scheduled :
    exists tx first named frozen, Reachable tx ∧ tx.schedule = .ok (scheduling first tx.nodes) ∧
      (scheduling first tx.nodes).setId (.new ⟨.fill 32 9⟩ 2000) = .ok named ∧
      named.freeze = .ok frozen ∧ frozen.payloads.length = 2 ∧
      forall p, p ∈ frozen.payloads -> Codec.Countable p.body ∧
        exists body e, Body.codec.decode p.body = .ok (body, []) ∧ tx.Schedules first body e := by
  let tx := signedTransfer ⟨.fill 32 7⟩ 5 ⟨.fill 32 1, fun _ => .fill 64 2⟩
  have hreachable : Reachable tx :=
    reachable_signedTransfer ⟨.fill 32 7⟩ 5 ⟨.fill 32 1, fun _ => .fill 64 2⟩
  rcases schedule_carries_original.left tx hreachable rfl (by decide) (by decide +kernel) with
    ⟨first, rest, draft, hfirst, hschedule, _, _, hcarries⟩
  rcases hcarries (.new ⟨.fill 32 9⟩ 2000) with ⟨named, frozen, hnamed, hfrozen, hnodes, hbodies⟩
  cases hfirst
  cases hschedule
  cases hnamed
  cases hfrozen
  refine ⟨tx, _, _, _, hreachable, rfl, rfl, rfl, rfl, ?_⟩
  suffices hcount : forall p : Payload, p ∈ _ -> Codec.Countable p.body from by
    intro p hp
    rcases hbodies p hp (hcount p hp) with ⟨body, e, hdecode, _, _, hschedules⟩
    exact ⟨hcount p hp, body, e, hdecode, hschedules⟩
  simp only [Codec.countable_iff]
  decide +kernel

end Transaction

end LedgerClient
