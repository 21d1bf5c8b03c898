import LedgerClient.Proofs.Transaction.Reachable
import LedgerClient.Proofs.Wire.Messages

/-!
# Transactions that were read from octets

A transaction stores what it shows and what its bodies say in two places.  Reading compares
the nodes of the two and looks for signers that cannot be told apart; it does not open the
bodies.  So the two places agree when the octets come from a transaction that was made here,
and need not agree otherwise.
-/

namespace LedgerClient

namespace SignatureMap

theorem validateFrom_eq_ok_iff {earlier : List Bytes} {pairs : List SignaturePair} :
    validateFrom earlier pairs = .ok () <->
      (forall p, p ∈ pairs -> p.tag ∉ earlier) ∧ (pairs.map SignaturePair.tag).Nodup := by
  induction pairs generalizing earlier with
  | nil => simp [validateFrom]
  | cons p rest ih =>
      rw [validateFrom, List.forall_mem_cons, List.map_cons, List.nodup_cons]
      by_cases hseen : p.tag ∈ earlier
      · simp [hseen]
      · rw [if_neg (by simpa using hseen), ih]
        constructor
        · intro h
          have hother : p.tag ∉ rest.map SignaturePair.tag := by
            intro hmem
            rcases List.mem_map.mp hmem with ⟨q, hq, htag⟩
            exact h.left q hq (htag ▸ List.mem_cons_self)
          have hfresh : forall q, q ∈ rest -> q.tag ∉ earlier :=
            fun q hq hmem => h.left q hq (List.mem_cons_of_mem p.tag hmem)
          exact ⟨⟨hseen, hfresh⟩, hother, h.right⟩
        · intro h
          refine ⟨?_, h.right.right⟩
          intro q hq hmem
          rcases List.mem_cons.mp hmem with hsame | hearlier
          · exact h.right.left (List.mem_map.mpr ⟨q, hq, hsame⟩)
          · exact h.left.right q hq hearlier

/-- Signatures are valid if no two signers share their tag. -/
theorem validate_eq_ok_iff {m : SignatureMap} :
    m.validate = .ok () <-> (m.signers.map PublicKey.tag).Nodup := by
  rw [validate, validateFrom_eq_ok_iff, signers, List.map_map]
  constructor
  · exact fun h => h.right
  · exact fun h => ⟨fun _ _ => List.not_mem_nil, h⟩

end SignatureMap

namespace Transaction

/-- What a transaction shows is what its bodies say, and its state tells whether it was signed. -/
structure Faithful (tx : Transaction) : Prop where
  identified : tx.id ≠ none
  nodes : tx.nodes ≠ []
  distinct : tx.nodes.Nodup
  bodies : forall p, p ∈ tx.payloads ->
    exists body, Body.codec.read p.body = .ok body ∧ tx.Speaks p body
  unsigned : tx.state = .frozen -> forall p, p ∈ tx.payloads -> p.signatures.isEmpty = true
  signed : tx.state = .signed -> forall p, p ∈ tx.payloads -> p.signatures.isEmpty = false

/-- What is compared when a transaction is read. -/
structure Checked (tx : Transaction) : Prop where
  sealed : tx.state ≠ .draft
  addressed : tx.payloads.map Payload.node = tx.nodes
  tags : forall p, p ∈ tx.payloads -> (p.signatures.signers.map PublicKey.tag).Nodup

variable {tx : Transaction} {bs : Bytes}

theorem ofBytes_eq_ok_iff : ofBytes bs = .ok tx <-> codec.read bs = .ok tx ∧ tx.Checked := by
  have hchecked : tx.Checked <-> tx.state ≠ .draft ∧ tx.checkPayloads = .ok () := by
    simp only [checkPayloads_eq_ok_iff, SignatureMap.validate_eq_ok_iff]
    exact ⟨fun h => ⟨h.sealed, h.addressed, h.tags⟩, fun h => ⟨h.left, h.right.left, h.right.right⟩⟩
  rw [hchecked]
  unfold ofBytes
  cases codec.read bs with
  | error cause => simp
  | ok other =>
      by_cases hdraft : other.state = .draft
      · simp only [if_pos hdraft, reduceCtorEq, false_iff]
        intro h
        cases h.left
        exact h.right.left hdraft
      · simp only [if_neg hdraft]
        cases hpayloads : other.checkPayloads with
        | error e =>
            simp only [reduceCtorEq, false_iff]
            intro h
            cases h.left
            rw [hpayloads] at h
            cases h.right.right
        | ok valid =>
            simp only
            constructor
            · intro h
              cases h
              exact ⟨rfl, hdraft, hpayloads⟩
            · intro h
              cases h.left
              rfl

theorem read_codec_append (hcount : Codec.Countable (codec.encode tx)) (rest : Bytes) :
    codec.read (codec.encode tx ++ rest) = .ok tx := by
  simp only [Codec.read, Reader.run, lossless_codec tx hcount rest]

/-- What was written is read again, whatever follows it and whether or not it makes sense. -/
theorem ofBytes_encode (hchecked : tx.Checked) (hcount : Codec.Countable (codec.encode tx))
    (rest : Bytes) : ofBytes (codec.encode tx ++ rest) = .ok tx :=
  ofBytes_eq_ok_iff.mpr ⟨read_codec_append hcount rest, hchecked⟩

theorem ofBytes_encode_self (hchecked : tx.Checked) (hcount : Codec.Countable (codec.encode tx)) :
    ofBytes (codec.encode tx) = .ok tx := by
  rw [← List.append_nil (codec.encode tx)]
  exact ofBytes_encode hchecked hcount []

/-!
## What was made here
-/

theorem countable_body {p : Payload} (hp : p ∈ tx.payloads)
    (hcount : Codec.Countable (codec.encode tx)) : Codec.Countable p.body := by
  have hpayload : Codec.Countable (Payload.codec.encode p) := by
    have hpayloads : Codec.Countable (Payload.codec.list.encode tx.payloads) :=
      hcount.right.right.right.right.right.right.right
    exact hpayloads.right.of_length_le (Codec.length_le_flatMap_of_mem hp)
  exact hpayload.right.left.right

theorem Consistent.faithful (h : tx.Consistent) (hstate : tx.state ≠ .draft)
    (hcount : Codec.Countable (codec.encode tx)) : tx.Faithful := by
  rcases h.sealed hstate with ⟨id, fee, secs, signers, hsealed, _⟩
  constructor
  case identified =>
    rw [hsealed.identified]
    exact Option.some_ne_none id
  case nodes => exact hsealed.nodes
  case distinct => exact hsealed.distinct
  case bodies =>
    intro p hp
    rcases h.readable p hp (countable_body hp hcount) with ⟨body, hdecode, hspeaks⟩
    refine ⟨body, ?_, hspeaks⟩
    simp only [Codec.read, Reader.run, hdecode]
  case unsigned => exact h.unsigned
  case signed =>
    intro hsigned
    apply h.signed hstate
    rw [hsigned]
    decide

theorem Consistent.checked (h : tx.Consistent) (hstate : tx.state ≠ .draft) : tx.Checked := by
  rcases h.sealed hstate with ⟨id, fee, secs, signers, hsealed, _⟩
  refine ⟨hstate, hsealed.addressed, ?_⟩
  intro p hp
  rw [hsealed.signed p hp]
  exact hsealed.tags

theorem toBytes_eq_ok (h : tx.toBytes = .ok bs) : tx.state ≠ .draft ∧ bs = codec.encode tx := by
  unfold toBytes at h
  by_cases hdraft : tx.state = .draft
  · rw [if_pos hdraft] at h
    cases h
  · rw [if_neg hdraft] at h
    cases h
    exact ⟨hdraft, rfl⟩

/-- Reading compares just the nodes and the signers.  The octets of a transaction that was made
here are read as that transaction, which is faithful. -/
theorem ofBytes_checked_and_faithful :
    (forall bs tx, ofBytes bs = .ok tx <-> codec.read bs = .ok tx ∧ tx.Checked) ∧
      forall tx bs, Reachable tx -> tx.toBytes = .ok bs -> Codec.Countable bs ->
        forall rest, ofBytes (bs ++ rest) = .ok tx ∧ tx.Faithful := by
  constructor
  · exact fun _ _ => ofBytes_eq_ok_iff
  · intro tx bs hreachable hbytes hcount rest
    rcases toBytes_eq_ok hbytes with ⟨hstate, hencode⟩
    rw [hencode] at hcount ⊢
    have hconsistent := consistent_of_reachable hreachable
    exact ⟨ofBytes_encode (hconsistent.checked hstate) hcount rest,
      hconsistent.faithful hstate hcount⟩

/-- The octets of a signed transfer are read with others behind them. -/
theorem signedTransfer_read_back :
    exists tx bs, Reachable tx ∧ tx.toBytes = .ok bs ∧ ofBytes (bs ++ [7]) = .ok tx ∧
      tx.Faithful := by
  have hreachable :=
    reachable_signedTransfer ⟨.fill 32 7⟩ 5 ⟨.fill 32 1, fun _ => .fill 64 2⟩
  have hcount : Codec.Countable (codec.encode (signedTransfer ⟨.fill 32 7⟩ 5
      ⟨.fill 32 1, fun _ => .fill 64 2⟩)) := Codec.countable_iff.mpr (by decide +kernel)
  have hread := ofBytes_checked_and_faithful.right _ _ hreachable rfl hcount [7]
  exact ⟨_, _, hreachable, rfl, hread⟩

/-!
## What was made elsewhere
-/

def otherBody : Body :=
  { transactionId := .new ⟨.fill 32 9⟩ 2000
    node := ⟨4⟩
    maxFee := 900
    validDurationSecs := 60
    memo := "other"
    operation := .transfer (some ⟨.fill 32 9⟩) 900 }

/-- It is addressed to one node twice, and its payloads are signed and carry another body. -/
def misquoting : Transaction :=
  let payload : Payload :=
    { node := ⟨3⟩
      body := Body.codec.encode otherBody
      signatures := ⟨[⟨.fill 32 1, .fill 64 2⟩]⟩ }
  { state := .frozen
    id := some (.new ⟨.fill 32 7⟩ 1000)
    nodes := [⟨3⟩, ⟨3⟩]
    maxFee := some 5
    validDurationSecs := some 120
    memo := ""
    operation := .transfer (some ⟨.fill 32 8⟩) 5
    payloads := [payload, payload] }

/-- It has no id, a body that says nothing and no signature. -/
def nameless : Transaction :=
  { new (.transfer none 0) with
    state := .signed
    nodes := [⟨3⟩]
    payloads := [⟨⟨3⟩, [], .empty⟩] }

def addressless : Transaction :=
  { new (.transfer none 0) with state := .frozen }

theorem read_body_misquoting : forall p, p ∈ misquoting.payloads ->
    Body.codec.read p.body = .ok otherBody := by
  have hcount : Codec.Countable (Body.codec.encode otherBody) :=
    Codec.countable_iff.mpr (by decide +kernel)
  have hread := Codec.read_encode Body.lossless_codec hcount
  simp only [misquoting, List.forall_mem_cons]
  exact ⟨hread, hread, List.forall_mem_nil _⟩

theorem ofBytes_misquoting : ofBytes (codec.encode misquoting) = .ok misquoting :=
  ofBytes_encode_self ⟨by decide, rfl, by decide +kernel⟩
    (Codec.countable_iff.mpr (by decide +kernel))

theorem ofBytes_nameless : ofBytes (codec.encode nameless) = .ok nameless :=
  ofBytes_encode_self ⟨by decide, rfl, by decide +kernel⟩
    (Codec.countable_iff.mpr (by decide +kernel))

theorem ofBytes_addressless : ofBytes (codec.encode addressless) = .ok addressless :=
  ofBytes_encode_self ⟨by decide, rfl, by decide +kernel⟩
    (Codec.countable_iff.mpr (by decide +kernel))

/-- All three are read as they are, and none of them is faithful. -/
theorem unfaithful_read :
    (ofBytes (codec.encode misquoting) = .ok misquoting ∧
      ¬ misquoting.nodes.Nodup ∧
      (forall p, p ∈ misquoting.payloads -> p.signatures.isEmpty = false ∧
        Body.codec.read p.body = .ok otherBody ∧
        misquoting.id ≠ some otherBody.transactionId ∧ otherBody.node ≠ p.node ∧
        misquoting.maxFee ≠ some otherBody.maxFee ∧
        misquoting.validDurationSecs ≠ some otherBody.validDurationSecs ∧
        otherBody.memo ≠ misquoting.memo ∧ otherBody.operation ≠ misquoting.operation) ∧
      ¬ misquoting.Faithful) ∧
    (ofBytes (codec.encode nameless) = .ok nameless ∧
      nameless.id = none ∧
      (forall p, p ∈ nameless.payloads -> p.signatures.isEmpty = true ∧
        Body.codec.read p.body = .error .endOfInput) ∧
      ¬ nameless.Faithful) ∧
    (ofBytes (codec.encode addressless) = .ok addressless ∧
      addressless.nodes = [] ∧
      ¬ addressless.Faithful) := by
  refine ⟨⟨ofBytes_misquoting, by decide, ?bodies, ?misquoting⟩,
    ⟨ofBytes_nameless, rfl, by decide +kernel, ?nameless⟩, ofBytes_addressless, rfl, ?addressless⟩
  case bodies =>
    intro p hp
    have hpayloads : forall p, p ∈ misquoting.payloads -> p.signatures.isEmpty = false ∧
        otherBody.node ≠ p.node := by
      decide +kernel
    exact ⟨(hpayloads p hp).left, read_body_misquoting p hp, by decide +kernel,
      (hpayloads p hp).right, by decide, by decide, by decide, by decide +kernel⟩
  case misquoting => exact fun h => absurd h.distinct (by decide)
  case nameless => exact fun h => h.identified rfl
  case addressless => exact fun h => h.nodes rfl

end Transaction

end LedgerClient
