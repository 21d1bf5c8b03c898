import Mathlib.Data.List.Nodup
import LedgerClient.Proofs.Transaction.Freezing
import LedgerClient.Proofs.Transaction.Signing
import LedgerClient.Transaction.Batch

/-!
# How the fields of a transaction agree

A draft has no payloads.  Freezing makes one for each node from the fields, and after that
signing adds the same signers to all of them.  Each operation of a transaction is shown to
keep this.
-/

namespace LedgerClient

namespace Transaction

/-- A transaction that was frozen with this id, fee and duration and signed by these signers. -/
structure IsSealed (tx : Transaction) (id : TransactionId) (fee : Amount) (secs : UInt64)
    (signers : List PublicKey) : Prop where
  identified : tx.id = some id
  maxFee : tx.maxFee = some fee
  validDuration : tx.validDurationSecs = some secs
  nodes : tx.nodes ≠ []
  distinct : tx.nodes.Nodup
  valid : tx.operation.validate = .ok ()
  addressed : tx.payloads.map Payload.node = tx.nodes
  bodies : forall p, p ∈ tx.payloads ->
    p.body = Body.codec.encode ⟨id, p.node, fee, secs, tx.memo, tx.operation⟩
  signed : forall p, p ∈ tx.payloads -> p.signatures.signers = signers
  tags : (signers.map PublicKey.tag).Nodup
  unsigned : tx.state = .frozen <-> signers = []

structure Coherent (tx : Transaction) : Prop where
  memo : tx.memo.utf8ByteSize ≤ maxMemoLength
  duration : tx.validDurationSecs ≠ some 0
  draft : tx.state = .draft -> tx.payloads = []
  sealed : tx.state ≠ .draft -> exists id fee secs signers, tx.IsSealed id fee secs signers

variable {tx frozen : Transaction}

theorem coherent_of_draft (hmemo : tx.memo.utf8ByteSize ≤ maxMemoLength)
    (hduration : tx.validDurationSecs ≠ some 0) (hstate : tx.state = .draft)
    (hpayloads : tx.payloads = []) : tx.Coherent where
  memo := hmemo
  duration := hduration
  draft := fun _ => hpayloads
  sealed := fun hother => (hother hstate).elim

theorem coherent_new (operation : Operation) : (new operation).Coherent := by
  apply coherent_of_draft
  · exact Nat.zero_le _
  · intro h
    cases h
  · rfl
  · rfl

/-!
## Drafting and freezing
-/

theorem requireDraft_bind_eq_ok {α : Type} {next : Except TransactionError α} {a : α}
    (h : (do tx.requireDraft; next) = .ok a) : tx.state = .draft ∧ next = .ok a := by
  cases hstate : tx.requireDraft with
  | error e =>
      rw [hstate] at h
      cases h
  | ok draft =>
      rw [hstate] at h
      exact ⟨requireDraft_eq_ok_iff.mp hstate, h⟩

theorem requireDraft_bind_of_sealed {α : Type} (hsealed : tx.state ≠ .draft)
    (next : Except TransactionError α) : (do tx.requireDraft; next) = .error .alreadyFrozen := by
  rw [requireDraft, if_neg hsealed]
  rfl

section

variable {changed : Transaction}

/-- A setter may do as it likes with what no bound is set for. -/
theorem Coherent.edit (h : tx.Coherent) {edited : Transaction}
    (hset : (do tx.requireDraft; return edited) = .ok changed) (hstate : edited.state = tx.state)
    (hmemo : edited.memo = tx.memo) (hduration : edited.validDurationSecs = tx.validDurationSecs)
    (hpayloads : edited.payloads = tx.payloads) : changed.Coherent := by
  rcases requireDraft_bind_eq_ok hset with ⟨hdraft, hchanged⟩
  cases hchanged
  apply coherent_of_draft
  · rw [hmemo]
    exact h.memo
  · rw [hduration]
    exact h.duration
  · rw [hstate]
    exact hdraft
  · rw [hpayloads]
    exact h.draft hdraft

theorem Coherent.setId (h : tx.Coherent) {id : TransactionId} (hset : tx.setId id = .ok changed) :
    changed.Coherent :=
  h.edit hset rfl rfl rfl rfl

theorem Coherent.setNodes (h : tx.Coherent) {nodes : List NodeId}
    (hset : tx.setNodes nodes = .ok changed) : changed.Coherent :=
  h.edit hset rfl rfl rfl rfl

theorem Coherent.setMaxFee (h : tx.Coherent) {fee : Amount}
    (hset : tx.setMaxFee fee = .ok changed) : changed.Coherent :=
  h.edit hset rfl rfl rfl rfl

theorem Coherent.setOperation (h : tx.Coherent) {operation : Operation}
    (hset : tx.setOperation operation = .ok changed) : changed.Coherent :=
  h.edit hset rfl rfl rfl rfl

theorem Coherent.setValidDurationSecs (h : tx.Coherent) {secs : UInt64}
    (hset : tx.setValidDurationSecs secs = .ok changed) : changed.Coherent := by
  rcases requireDraft_bind_eq_ok hset with ⟨hstate, hchanged⟩
  by_cases hzero : secs = 0
  · rw [if_pos hzero] at hchanged
    cases hchanged
  · rw [if_neg hzero] at hchanged
    cases hchanged
    refine coherent_of_draft h.memo ?_ hstate (h.draft hstate)
    intro hsome
    cases hsome
    exact hzero rfl

theorem Coherent.setMemo (h : tx.Coherent) {memo : String}
    (hset : tx.setMemo memo = .ok changed) : changed.Coherent := by
  rcases requireDraft_bind_eq_ok hset with ⟨hstate, hchanged⟩
  by_cases hlong : maxMemoLength < memo.utf8ByteSize
  · rw [if_pos hlong] at hchanged
    cases hchanged
  · rw [if_neg hlong] at hchanged
    cases hchanged
    exact coherent_of_draft (Nat.le_of_not_lt hlong) h.duration hstate (h.draft hstate)

end

/-- What freezing makes is sealed and has no signer. -/
theorem isSealed_of_freeze (h : tx.freeze = .ok frozen) :
    exists id, tx.id = some id ∧
      frozen.IsSealed id (tx.maxFee.getD defaultMaxFee)
        (tx.validDurationSecs.getD defaultValidDurationSecs) [] := by
  rcases freeze_eq_ok h with ⟨_, hnodes, hdistinct, hvalid, id, hid, hfrozen⟩
  refine ⟨id, hid, ?_⟩
  rw [hfrozen]
  constructor
  case identified => exact hid
  case maxFee => rfl
  case validDuration => rfl
  case nodes => exact hnodes
  case distinct => exact hdistinct
  case valid => exact hvalid
  case addressed =>
    rw [frozenAs, List.map_map]
    exact List.map_id _
  case bodies =>
    intro p hp
    rcases List.mem_map.mp hp with ⟨node, _, hpayload⟩
    rw [← hpayload]
    rfl
  case signed =>
    intro p hp
    rcases List.mem_map.mp hp with ⟨node, _, hpayload⟩
    rw [← hpayload]
    rfl
  case tags => exact List.nodup_nil
  case unsigned => exact ⟨fun _ => rfl, fun _ => rfl⟩

/-- What freezing makes is coherent whatever payloads there were before. -/
theorem coherent_of_freeze (hmemo : tx.memo.utf8ByteSize ≤ maxMemoLength)
    (hduration : tx.validDurationSecs ≠ some 0) (h : tx.freeze = .ok frozen) :
    frozen.Coherent := by
  rcases isSealed_of_freeze h with ⟨id, _, hsealed⟩
  constructor
  case memo =>
    rcases freeze_eq_ok h with ⟨_, _, _, _, _, _, hfrozen⟩
    rw [hfrozen]
    exact hmemo
  case duration =>
    intro hzero
    cases hsecs : tx.validDurationSecs with
    | none =>
        rw [hsealed.validDuration, hsecs] at hzero
        cases hzero
    | some secs =>
        rw [hsealed.validDuration, hsecs] at hzero
        rw [hsecs] at hduration
        exact hduration hzero
  case draft =>
    intro hdraft
    rw [hsealed.unsigned.mpr rfl] at hdraft
    cases hdraft
  case sealed => exact fun _ => ⟨id, _, _, [], hsealed⟩

theorem Coherent.freeze (h : tx.Coherent) (hfreeze : tx.freeze = .ok frozen) : frozen.Coherent :=
  coherent_of_freeze h.memo h.duration hfreeze

theorem Coherent.freezeWith (h : tx.Coherent) (nodes : List NodeId) :
    (tx.freezeWith nodes).1.Coherent := by
  unfold Transaction.freezeWith
  cases hset : tx.setNodes nodes with
  | error e => exact h
  | ok addressed =>
      have haddressed := h.setNodes hset
      cases hfreeze : addressed.freeze with
      | error e => simpa only [hfreeze] using haddressed
      | ok frozen => simpa only [hfreeze] using haddressed.freeze hfreeze

/-!
## Signing
-/

/-- The payloads of a sealed transaction are signed by a key all together or not at all. -/
theorem IsSealed.signWith {id : TransactionId} {fee : Amount} {secs : UInt64}
    {signers : List PublicKey} (h : tx.IsSealed id fee secs signers) {key : PublicKey}
    {payloads : List Payload} (hsigned : List.Forall₂ (Payload.SignedBy key) tx.payloads payloads)
    (hclash : SignatureMap.standingAmong signers key ≠ .clash) :
    exists more, IsSealed { tx with payloads := payloads, state := .signed } id fee secs more := by
  have hnodes := Payload.map_node_of_signed hsigned
  have hbodies : forall q, q ∈ payloads ->
      q.body = Body.codec.encode ⟨id, q.node, fee, secs, tx.memo, tx.operation⟩ := by
    intro q hq
    rcases Payload.exists_of_signed hsigned hq with ⟨p, hp, hpq⟩
    rw [hpq.body, hpq.node]
    exact h.bodies p hp
  have hsealed : forall more, more ≠ [] -> (more.map PublicKey.tag).Nodup ->
      (forall q, q ∈ payloads -> q.signatures.signers = more) ->
        IsSealed { tx with payloads := payloads, state := .signed } id fee secs more := by
    intro more hmore htags hsame
    constructor
    case identified => exact h.identified
    case maxFee => exact h.maxFee
    case validDuration => exact h.validDuration
    case nodes => exact h.nodes
    case distinct => exact h.distinct
    case valid => exact h.valid
    case addressed => exact hnodes.trans h.addressed
    case bodies => exact hbodies
    case signed => exact hsame
    case tags => exact htags
    case unsigned =>
      constructor
      · intro hstate
        cases hstate
      · intro hnone
        exact (hmore hnone).elim
  cases hstanding : SignatureMap.standingAmong signers key with
  | clash => exact (hclash hstanding).elim
  | present =>
      refine ⟨signers, hsealed signers ?_ h.tags ?_⟩
      · intro hnone
        rw [hnone] at hstanding
        cases hstanding
      · intro q hq
        rcases Payload.exists_of_signed hsigned hq with ⟨p, hp, hpq⟩
        rw [hpq.signers, h.signed p hp, hstanding]
  | absent =>
      have hnew := SignatureMap.standingAmong_eq_absent_iff.mp hstanding
      refine ⟨signers ++ [key], hsealed _ (by simp) ?_ ?_⟩
      · rw [List.map_append, List.nodup_append]
        refine ⟨h.tags, List.nodup_singleton _, ?_⟩
        intro tag htag other hother heq
        rw [heq, List.mem_singleton.mp hother] at htag
        exact hnew htag
      · intro q hq
        rcases Payload.exists_of_signed hsigned hq with ⟨p, hp, hpq⟩
        rw [hpq.signers, h.signed p hp, hstanding]

theorem IsSealed.payloads_ne_nil {id : TransactionId} {fee : Amount} {secs : UInt64}
    {signers : List PublicKey} (h : tx.IsSealed id fee secs signers) : tx.payloads ≠ [] := by
  intro hnone
  have hnodes := h.addressed
  rw [hnone] at hnodes
  exact h.nodes hnodes.symm

theorem IsSealed.of_signWith {σ : Type} {id : TransactionId} {fee : Amount} {secs : UInt64}
    {signers : List PublicKey} (h : tx.IsSealed id fee secs signers) {key : PublicKey}
    {sign : Bytes → σ → Signature × σ} {s after : σ} {signed : Transaction}
    (hsign : tx.signWith key sign s = .ok (signed, after)) :
    exists more, signed.IsSealed id fee secs more := by
  rcases signWith_eq_ok hsign with ⟨_, hclash, payloads, hpayloads, hsigned⟩
  have hfirst : SignatureMap.standingAmong signers key ≠ .clash := by
    rcases List.exists_mem_of_ne_nil _ h.payloads_ne_nil with ⟨p, hp⟩
    rw [← h.signed p hp, ← SignatureMap.standing_eq]
    exact hclash p hp
  rw [hsigned]
  exact h.signWith hpayloads hfirst

theorem Coherent.signWith {σ : Type} (h : tx.Coherent) {key : PublicKey}
    {sign : Bytes → σ → Signature × σ} {s after : σ} {signed : Transaction}
    (hsign : tx.signWith key sign s = .ok (signed, after)) : signed.Coherent := by
  rcases signWith_eq_ok hsign with ⟨hstate, _, payloads, _, hsigned⟩
  have hfrozen : tx.state ≠ .draft := by
    intro hdraft
    rw [hdraft] at hstate
    rcases hstate with hother | hother
    · cases hother
    · cases hother
  rcases h.sealed hfrozen with ⟨id, fee, secs, signers, hsealed⟩
  have hmore := hsealed.of_signWith hsign
  rw [hsigned] at hmore ⊢
  constructor
  case memo => exact h.memo
  case duration => exact h.duration
  case draft =>
    intro hdraft
    cases hdraft
  case sealed =>
    rcases hmore with ⟨more, hmore⟩
    exact fun _ => ⟨id, fee, secs, more, hmore⟩

theorem Coherent.sign (h : tx.Coherent) {signer : Signer} {signed : Transaction}
    (hsign : tx.sign signer = .ok signed) : signed.Coherent :=
  h.signWith (signWith_of_sign hsign)

/-!
## Submission, chunks and schedules
-/

/-- The state alone may change between those of a signed transaction. -/
theorem Coherent.withState (h : tx.Coherent) (hbefore : tx.state ≠ .draft ∧ tx.state ≠ .frozen)
    {state : TransactionState} (hafter : state ≠ .draft ∧ state ≠ .frozen) :
    Coherent { tx with state := state } := by
  rcases h.sealed hbefore.left with ⟨id, fee, secs, signers, hsealed⟩
  constructor
  case memo => exact h.memo
  case duration => exact h.duration
  case draft => exact fun hdraft => (hafter.left hdraft).elim
  case sealed =>
    refine fun _ => ⟨id, fee, secs, signers, { hsealed with unsigned := ?_ }⟩
    constructor
    · intro hfrozen
      exact (hafter.right hfrozen).elim
    · intro hnone
      exact (hbefore.right (hsealed.unsigned.mpr hnone)).elim

theorem Coherent.chunkOf (h : tx.Coherent) {base : TransactionId} {total index : Nat}
    {piece : Bytes} {part : Transaction} (hchunk : tx.chunkOf base total index piece = .ok part) :
    part.Coherent := by
  unfold Transaction.chunkOf at hchunk
  refine coherent_of_freeze ?_ ?_ hchunk
  · exact h.memo
  · exact h.duration

/-- Each chunk was made from the piece at its place. -/
theorem chunksFrom_eq_ok {base : TransactionId} {total first : Nat} {pieces : List Bytes}
    {parts : List Transaction} (h : tx.chunksFrom base total first pieces = .ok parts) :
    parts.length = pieces.length ∧
      forall index part, parts[index]? = some part ->
        exists piece, pieces[index]? = some piece ∧
          tx.chunkOf base total (first + index) piece = .ok part := by
  induction pieces generalizing first parts with
  | nil =>
      cases h
      exact ⟨rfl, fun _ _ hpart => by cases hpart⟩
  | cons piece rest ih =>
      rw [Transaction.chunksFrom] at h
      cases hfirst : tx.chunkOf base total first piece with
      | error e =>
          rw [hfirst] at h
          cases h
      | ok made =>
          cases hothers : tx.chunksFrom base total (first + 1) rest with
          | error e =>
              rw [hfirst, hothers] at h
              cases h
          | ok others =>
              rw [hfirst, hothers] at h
              cases h
              rcases ih hothers with ⟨hlength, heach⟩
              refine ⟨by rw [List.length_cons, List.length_cons, hlength], ?_⟩
              intro index part hpart
              cases index with
              | zero =>
                  cases hpart
                  exact ⟨piece, rfl, hfirst⟩
              | succ index =>
                  rcases heach index part hpart with ⟨other, hother, hmade⟩
                  refine ⟨other, hother, ?_⟩
                  rw [Nat.add_comm index, ← Nat.add_assoc]
                  exact hmade

theorem Coherent.chunksFrom (h : tx.Coherent) {base : TransactionId} {total : Nat}
    {pieces : List Bytes} {index : Nat} {parts : List Transaction}
    (hchunks : tx.chunksFrom base total index pieces = .ok parts) :
    forall part, part ∈ parts -> part.Coherent := by
  intro part hpart
  rcases List.mem_iff_getElem?.mp hpart with ⟨place, hplace⟩
  rcases (chunksFrom_eq_ok hchunks).right place part hplace with ⟨piece, _, hchunk⟩
  exact h.chunkOf hchunk

section

variable {content : Bytes} {size maxChunks : Nat}

/-- What becomes of a frozen transaction with content. -/
theorem chunk_cases (hstate : tx.state = .frozen) (hsize : 0 < size)
    (hcontent : tx.operation.chunkContent? = some content) :
    (maxChunks < requiredChunks size content.length ∧
        tx.chunk size maxChunks =
          .error (.tooManyChunks (requiredChunks size content.length) maxChunks)) ∨
      (requiredChunks size content.length ≤ maxChunks ∧ tx.id = none ∧
        tx.chunk size maxChunks = .error (.missing .transactionId)) ∨
      (requiredChunks size content.length ≤ maxChunks ∧
        exists base, tx.id = some base ∧
          tx.chunk size maxChunks =
            (tx.chunksFrom base (requiredChunks size content.length) 0
              (pieces size (requiredChunks size content.length) content)).map Batch.mk) := by
  unfold chunk
  simp only [hstate, hcontent, if_neg (Nat.ne_of_gt hsize)]
  by_cases hmany : maxChunks < requiredChunks size content.length
  · rw [if_pos hmany]
    exact Or.inl ⟨hmany, rfl⟩
  · rw [if_neg hmany]
    have henough := Nat.le_of_not_lt hmany
    cases hid : tx.id with
    | none => exact Or.inr (Or.inl ⟨henough, rfl, rfl⟩)
    | some base =>
        refine Or.inr (Or.inr ⟨henough, base, rfl, ?_⟩)
        cases hparts : tx.chunksFrom base (requiredChunks size content.length) 0
            (pieces size (requiredChunks size content.length) content) with
        | error e =>
            simp only [hparts]
            rfl
        | ok parts =>
            simp only [hparts]
            rfl

theorem chunk_eq_ok_of_content (hstate : tx.state = .frozen) (hsize : 0 < size)
    (hcontent : tx.operation.chunkContent? = some content) {b : Batch}
    (h : tx.chunk size maxChunks = .ok b) :
    exists base, tx.id = some base ∧
      tx.chunksFrom base (requiredChunks size content.length) 0
        (pieces size (requiredChunks size content.length) content) = .ok b.transactions := by
  rcases chunk_cases hstate hsize hcontent with
    ⟨_, hchunk⟩ | ⟨_, _, hchunk⟩ | ⟨_, base, hid, hchunk⟩
  · rw [hchunk] at h
    cases h
  · rw [hchunk] at h
    cases h
  · rw [hchunk] at h
    cases hparts : tx.chunksFrom base (requiredChunks size content.length) 0
        (pieces size (requiredChunks size content.length) content) with
    | error e =>
        rw [hparts] at h
        cases h
    | ok parts =>
        rw [hparts] at h
        cases h
        exact ⟨base, hid, hparts⟩

theorem pieces_ne_nil : pieces size (requiredChunks size content.length) content ≠ [] := by
  have hone : requiredChunks size content.length ≠ 0 :=
    Nat.ne_of_gt (Nat.le_max_left 1 _)
  rcases Nat.exists_eq_succ_of_ne_zero hone with ⟨count, hcount⟩
  rw [hcount, pieces]
  exact List.cons_ne_nil _ _

theorem chunk_eq_ok {b : Batch} (h : tx.chunk size maxChunks = .ok b) :
    b.transactions = [tx] ∨
      exists base total pieces, tx.id = some base ∧ pieces ≠ [] ∧
        tx.chunksFrom base total 0 pieces = .ok b.transactions := by
  cases hstate : tx.state with
  | draft => simp [chunk, hstate] at h
  | signed => simp [chunk, hstate] at h
  | executing => simp [chunk, hstate] at h
  | completed => simp [chunk, hstate] at h
  | failed => simp [chunk, hstate] at h
  | frozen =>
      by_cases hzero : size = 0
      · simp only [chunk, hstate, if_pos hzero] at h
        cases h
      · cases hcontent : tx.operation.chunkContent? with
        | none =>
            simp only [chunk, hstate, hcontent, if_neg hzero] at h
            cases h
            exact Or.inl rfl
        | some content =>
            have hsize := Nat.pos_of_ne_zero hzero
            rcases chunk_eq_ok_of_content hstate hsize hcontent h with ⟨base, hid, hchunks⟩
            exact Or.inr ⟨base, _, _, hid, pieces_ne_nil, hchunks⟩

end

theorem Coherent.chunk (h : tx.Coherent) {size maxChunks : Nat} {b : Batch}
    (hchunk : tx.chunk size maxChunks = .ok b) :
    forall part, part ∈ b.transactions -> part.Coherent := by
  rcases chunk_eq_ok hchunk with hsame | ⟨base, total, pieces, _, _, hchunks⟩
  · intro part hpart
    rw [hsame] at hpart
    rw [List.mem_singleton.mp hpart]
    exact h
  · exact h.chunksFrom hchunks

theorem coherent_of_schedule {wrapped : Transaction} (h : tx.schedule = .ok wrapped) :
    wrapped.Coherent := by
  unfold schedule at h
  cases henvelope : tx.wrapAsScheduled with
  | error e =>
      rw [henvelope] at h
      cases h
  | ok envelope =>
      rw [henvelope] at h
      cases h
      have hnew := coherent_new (.scheduleCreate envelope none none "")
      exact coherent_of_draft hnew.memo hnew.duration rfl rfl

end Transaction

end LedgerClient
