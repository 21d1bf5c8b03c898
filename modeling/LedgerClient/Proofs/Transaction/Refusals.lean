import LedgerClient.Proofs.Transaction.Drafts
import LedgerClient.Proofs.Transaction.Reading

/-!
# Why octets are refused

Octets that can be read as a transaction are still refused if it is a draft or if its
payloads are not what its nodes ask for.  They are compared place by place, and what is
reported is the first thing that is wrong.
-/

namespace LedgerClient

namespace SignatureMap

theorem validateFrom_eq (earlier : List Bytes) (pairs : List SignaturePair) :
    validateFrom earlier pairs =
      match firstRepeat? earlier (pairs.map SignaturePair.tag) with
      | none => .ok ()
      | some tag => .error (.sharedTag tag) := by
  induction pairs generalizing earlier with
  | nil => rfl
  | cons p rest ih =>
      rw [validateFrom, List.map_cons, firstRepeat?, ih]
      by_cases hseen : p.tag ∈ earlier
      · simp [hseen]
      · simp [hseen]

/-- The tag that is reported is the first that two signers share. -/
theorem validate_eq_error_iff {m : SignatureMap} {e : TransactionError} :
    m.validate = .error e <->
      exists tag, IsFirstRepeat tag (m.signers.map PublicKey.tag) ∧ e = .sharedTag tag := by
  have htags : m.pairs.map SignaturePair.tag = m.signers.map PublicKey.tag := by
    rw [signers, List.map_map]
    rfl
  simp only [← firstRepeat?_nil_eq_some_iff, validate, validateFrom_eq, htags]
  cases firstRepeat? [] (m.signers.map PublicKey.tag) with
  | none => simp
  | some tag => simp [eq_comm]

end SignatureMap

namespace Payload

/-- No two signers of the payload share their first octets. -/
def TellsApart (p : Payload) : Prop :=
  (p.signatures.signers.map PublicKey.tag).Nodup

/-- Payloads that are what the nodes ask for up to one, and the error for that one.  At one place
the node comes before the signers. -/
inductive PairFault : List Payload -> List NodeId -> TransactionError -> Prop where
  | foreign {before after : List Payload} {p : Payload} {node : NodeId} {rest : List NodeId} :
      (forall q, q ∈ before -> q.TellsApart) -> p.node ≠ node ->
      PairFault (before ++ p :: after) (before.map Payload.node ++ node :: rest)
        (.foreignNode p.node)
  | shared {before after : List Payload} {p : Payload} {rest : List NodeId} {tag : Bytes} :
      (forall q, q ∈ before -> q.TellsApart) ->
      IsFirstRepeat tag (p.signatures.signers.map PublicKey.tag) ->
      PairFault (before ++ p :: after) (before.map Payload.node ++ p.node :: rest)
        (.sharedTag tag)

/-- What is wrong further on is wrong if nothing is wrong before it. -/
theorem PairFault.cons {payloads : List Payload} {nodes : List NodeId} {e : TransactionError}
    {p : Payload} (hp : p.TellsApart) (h : PairFault payloads nodes e) :
    PairFault (p :: payloads) (p.node :: nodes) e := by
  cases h with
  | @foreign before after q node rest hbefore hnode =>
      exact @PairFault.foreign (p :: before) after q node rest
        (List.forall_mem_cons.mpr ⟨hp, hbefore⟩) hnode
  | @shared before after q rest tag hbefore hrepeat =>
      exact @PairFault.shared (p :: before) after q rest tag
        (List.forall_mem_cons.mpr ⟨hp, hbefore⟩) hrepeat

end Payload

namespace Transaction

open Payload

variable {tx : Transaction} {bs : Bytes} {e : TransactionError}

theorem checkPairs_append {before payloads : List Payload} {nodes : List NodeId}
    (hbefore : forall q, q ∈ before -> q.TellsApart) :
    checkPairs (before ++ payloads) (before.map Payload.node ++ nodes) =
      checkPairs payloads nodes := by
  induction before with
  | nil => rfl
  | cons q before ih =>
      rw [List.forall_mem_cons] at hbefore
      rw [List.cons_append, List.map_cons, List.cons_append, checkPairs, if_pos rfl,
        SignatureMap.validate_eq_ok_iff.mpr hbefore.left]
      exact ih hbefore.right

theorem checkPairs_eq_error_iff {payloads : List Payload} {nodes : List NodeId} :
    checkPairs payloads nodes = .error e <-> PairFault payloads nodes e := by
  constructor
  · intro h
    induction payloads generalizing nodes with
    | nil => cases h
    | cons p payloads ih =>
        cases nodes with
        | nil => cases h
        | cons node nodes =>
            rw [checkPairs] at h
            by_cases hnode : p.node = node
            · rw [if_pos hnode] at h
              rw [← hnode]
              cases hvalid : p.signatures.validate with
              | error cause =>
                  rw [hvalid] at h
                  cases h
                  rcases SignatureMap.validate_eq_error_iff.mp hvalid with ⟨tag, hrepeat, hcause⟩
                  rw [hcause]
                  exact @PairFault.shared [] payloads p nodes tag (List.forall_mem_nil _) hrepeat
              | ok valid =>
                  rw [hvalid] at h
                  exact (ih h).cons (SignatureMap.validate_eq_ok_iff.mp hvalid)
            · rw [if_neg hnode] at h
              cases h
              exact @PairFault.foreign [] payloads p node nodes (List.forall_mem_nil _) hnode
  · intro h
    cases h with
    | foreign hbefore hnode => rw [checkPairs_append hbefore, checkPairs, if_neg hnode]
    | shared hbefore hrepeat =>
        have hinvalid := SignatureMap.validate_eq_error_iff.mpr ⟨_, hrepeat, rfl⟩
        rw [checkPairs_append hbefore, checkPairs, if_pos rfl, hinvalid]

/-- Why a transaction that was read is refused: the first condition that is violated and its
error. -/
inductive ReadFault (tx : Transaction) : TransactionError -> Prop where
  | draft : tx.state = .draft -> ReadFault tx .notFrozen
  | count : tx.state ≠ .draft -> tx.payloads.length ≠ tx.nodes.length ->
      ReadFault tx (.payloadCount tx.payloads.length tx.nodes.length)
  | pair {e : TransactionError} : tx.state ≠ .draft -> tx.payloads.length = tx.nodes.length ->
      PairFault tx.payloads tx.nodes e -> ReadFault tx e

theorem ofBytes_eq_error_iff (hread : codec.read bs = .ok tx) :
    ofBytes bs = .error e <-> tx.ReadFault e := by
  unfold ofBytes checkPayloads
  rw [hread]
  dsimp only
  constructor
  · intro h
    by_cases hdraft : tx.state = .draft
    · rw [if_pos hdraft] at h
      cases h
      exact .draft hdraft
    · rw [if_neg hdraft] at h
      by_cases hlength : tx.payloads.length = tx.nodes.length
      · rw [if_pos hlength] at h
        cases hpairs : checkPairs tx.payloads tx.nodes with
        | error cause =>
            rw [hpairs] at h
            cases h
            exact .pair hdraft hlength (checkPairs_eq_error_iff.mp hpairs)
        | ok checked =>
            rw [hpairs] at h
            cases h
      · rw [if_neg hlength] at h
        cases h
        exact .count hdraft hlength
  · intro h
    cases h with
    | draft hdraft => rw [if_pos hdraft]
    | count hdraft hlength => rw [if_neg hdraft, if_neg hlength]
    | pair hdraft hlength hpairs =>
        rw [if_neg hdraft, if_pos hlength, checkPairs_eq_error_iff.mpr hpairs]

/-- The octets of any transaction are read as that transaction and nothing else, if at all; what is
reported otherwise is the first thing that is wrong with it. -/
theorem ofBytes_encode_decides (hcount : Codec.Countable (codec.encode tx)) (rest : Bytes) :
    (forall read, ofBytes (codec.encode tx ++ rest) = .ok read <-> read = tx ∧ tx.Checked) ∧
      forall e, ofBytes (codec.encode tx ++ rest) = .error e <-> tx.ReadFault e := by
  have hread := read_codec_append hcount rest
  refine ⟨?_, fun e => ofBytes_eq_error_iff hread⟩
  intro read
  rw [ofBytes_eq_ok_iff, hread]
  constructor
  · rintro ⟨hsame, hchecked⟩
    cases hsame
    exact ⟨rfl, hchecked⟩
  · rintro ⟨hsame, hchecked⟩
    rw [hsame]
    exact ⟨rfl, hchecked⟩

end Transaction

end LedgerClient
