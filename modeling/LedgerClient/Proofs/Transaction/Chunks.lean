import LedgerClient.Proofs.Transaction.Pieces
import LedgerClient.Proofs.Transaction.Reading

/-!
# Chunks

The chunks of a frozen transaction carry its content in order, and each is frozen anew with
the fields of the original.  What the original may lack, because it was read from octets,
freezing fills in.
-/

namespace LedgerClient

/-- The same target with a part of the content, at this place among the others. -/
inductive Operation.PartOf (base : TransactionId) (total index : Nat) :
    Operation -> Operation -> Prop where
  | file (file : Option FileId) (contents piece : Bytes) :
      PartOf base total index (.fileAppend file contents) (.fileAppend file piece)
  | message (topic : Option TopicId) (message piece : Bytes) (chunk : Option ChunkInfo)
      {info : ChunkInfo} : info.initialId = base -> info.number.toNat = index + 1 ->
      info.total.toNat = total ->
      PartOf base total index (.topicMessageSubmit topic message chunk)
        (.topicMessageSubmit topic piece (some info))

namespace Transaction

def content (tx : Transaction) : Bytes :=
  tx.operation.chunkContent?.getD []

/-- A frozen transaction for a part of the content.  It has one payload for each node of the
original, and the body of each is read as what the part itself says. -/
structure IsPart (tx : Transaction) (base : TransactionId) (total index : Nat)
    (part : Transaction) : Prop where
  state : part.state = .frozen
  sealed : part.IsSealed (base.withOffset (UInt64.ofNat index)) (tx.maxFee.getD defaultMaxFee)
    (tx.validDurationSecs.getD defaultValidDurationSecs) []
  nodes : part.nodes = tx.nodes
  memo : part.memo = tx.memo
  operation : Operation.PartOf base total index tx.operation part.operation
  readable : forall p, p ∈ part.payloads -> Codec.Countable p.body ->
    exists body, Body.codec.decode p.body = .ok (body, []) ∧ part.Speaks p body

/-- These transactions carry the content among them, as few as their size allows. -/
structure IsSplit (tx : Transaction) (content : Bytes) (size : Nat) (parts : List Transaction) :
    Prop where
  count : parts.length = max 1 (content.length ⌈/⌉ size)
  joined : (parts.map Transaction.content).flatten = content
  full : forall index part, parts[index]? = some part -> index + 1 < parts.length ->
    part.content.length = size
  bounded : forall part, part ∈ parts -> part.content.length ≤ size
  filled : forall part, part ∈ parts -> part.content = [] -> content = []
  words : size < 2 ^ 64 -> content.length < 2 ^ 63 -> forall index part,
    parts[index]? = some part -> wordPiece? size index content = some part.content
  each : exists base, tx.id = some base ∧
    forall index part, parts[index]? = some part -> tx.IsPart base parts.length index part

variable {tx part : Transaction} {base : TransactionId} {content piece : Bytes}
variable {size maxChunks total index : Nat}

/-!
## One chunk
-/

theorem chunkContent?_withChunk {op : Operation} (hcontent : op.chunkContent? = some content)
    (info : ChunkInfo) : (op.withChunk piece info).chunkContent? = some piece := by
  cases op with
  | fileAppend file contents => rfl
  | topicMessageSubmit topic message chunk => rfl
  | _ => cases hcontent

theorem partOf_withChunk {op : Operation} (hcontent : op.chunkContent? = some content)
    (hindex : index < total) (hfew : total < 2 ^ 32) :
    Operation.PartOf base total index op
      (op.withChunk piece ⟨base, UInt32.ofNat (index + 1), UInt32.ofNat total⟩) := by
  have hnumber : (UInt32.ofNat (index + 1)).toNat = index + 1 :=
    UInt32.toNat_ofNat_of_lt' (Nat.lt_of_le_of_lt hindex hfew)
  cases op with
  | fileAppend file contents => exact .file file contents piece
  | topicMessageSubmit topic message chunk =>
      exact .message topic message piece chunk rfl hnumber (UInt32.toNat_ofNat_of_lt' hfew)
  | _ => cases hcontent

theorem content_of_chunkOf (hcontent : tx.operation.chunkContent? = some content)
    (h : tx.chunkOf base total index piece = .ok part) : part.content = piece := by
  rcases freeze_eq_ok h with ⟨_, _, _, _, _, _, hpart⟩
  rw [hpart, Transaction.content]
  simp only [frozenAs, chunkContent?_withChunk hcontent, Option.getD_some]

theorem isPart_of_chunkOf (hcontent : tx.operation.chunkContent? = some content)
    (hindex : index < total) (hfew : total < 2 ^ 32)
    (h : tx.chunkOf base total index piece = .ok part) : tx.IsPart base total index part := by
  rcases isSealed_of_freeze h with ⟨id, hid, hsealed⟩
  rcases freeze_eq_ok h with ⟨_, _, _, _, _, _, hpart⟩
  cases hid
  constructor
  case state => exact hsealed.unsigned.mpr rfl
  case sealed => exact hsealed
  case nodes =>
    rw [hpart]
    rfl
  case memo =>
    rw [hpart]
    rfl
  case operation =>
    rw [hpart]
    exact partOf_withChunk hcontent hindex hfew
  case readable => exact fun _ hp hcount => hsealed.readable hp hcount

/-!
## All chunks
-/

/-- The part at an index was made from the piece that starts after `index` full ones. -/
theorem chunkOf_of_chunksFrom {parts : List Transaction}
    (hchunks : tx.chunksFrom base total 0 (pieces size total content) = .ok parts)
    (hpart : parts[index]? = some part) :
    index < total ∧
      tx.chunkOf base total index ((content.drop (index * size)).take size) = .ok part := by
  rcases chunksFrom_eq_ok hchunks with ⟨hlength, heach⟩
  rw [length_pieces] at hlength
  have hindex : index < total := by
    rw [← hlength]
    exact (List.getElem?_eq_some_iff.mp hpart).1
  rcases heach index part hpart with ⟨piece, hpiece, hmade⟩
  rw [getElem?_pieces hindex] at hpiece
  cases hpiece
  rw [Nat.zero_add] at hmade
  exact ⟨hindex, hmade⟩

theorem map_content_of_chunksFrom (hcontent : tx.operation.chunkContent? = some content)
    {parts : List Transaction}
    (hchunks : tx.chunksFrom base total 0 (pieces size total content) = .ok parts) :
    parts.map Transaction.content = pieces size total content := by
  have hlength := (chunksFrom_eq_ok hchunks).left
  apply List.ext_getElem?
  intro index
  rw [List.getElem?_map]
  cases hpart : parts[index]? with
  | none =>
      rw [List.getElem?_eq_none_iff, hlength, ← List.getElem?_eq_none_iff] at hpart
      rw [hpart]
      rfl
  | some part =>
      rcases chunkOf_of_chunksFrom hchunks hpart with ⟨hindex, hmade⟩
      rw [getElem?_pieces hindex, Option.map_some, content_of_chunkOf hcontent hmade]

theorem isSplit_of_chunk (hstate : tx.state = .frozen) (hsize : 0 < size)
    (hcontent : tx.operation.chunkContent? = some content) {b : Batch}
    (h : tx.chunk size maxChunks = .ok b) (hfew : b.transactions.length < 2 ^ 32) :
    tx.IsSplit content size b.transactions := by
  rcases chunk_eq_ok_of_content hstate hsize hcontent h with ⟨base, hid, hchunks⟩
  have hcount : b.transactions.length = requiredChunks size content.length :=
    (chunksFrom_eq_ok hchunks).left.trans length_pieces
  have hcut : forall index part, b.transactions[index]? = some part ->
      index < requiredChunks size content.length ∧
        part.content = (content.drop (index * size)).take size := by
    intro index part hpart
    rcases chunkOf_of_chunksFrom hchunks hpart with ⟨hindex, hmade⟩
    exact ⟨hindex, content_of_chunkOf hcontent hmade⟩
  constructor
  case count => rw [hcount, requiredChunks_eq]
  case joined =>
    rw [map_content_of_chunksFrom hcontent hchunks]
    exact flatten_pieces (length_le_requiredChunks hsize _)
  case full =>
    intro index part hpart hnext
    rw [hcount] at hnext
    rw [(hcut index part hpart).right]
    exact length_piece_of_lt hsize hnext
  case bounded =>
    intro part hpart
    rcases List.mem_iff_getElem?.mp hpart with ⟨index, hindex⟩
    rw [(hcut index part hindex).right, List.length_take]
    exact Nat.min_le_left _ _
  case filled =>
    intro part hpart hempty
    rcases List.mem_iff_getElem?.mp hpart with ⟨index, hindex⟩
    rcases hcut index part hindex with ⟨hlt, hpiece⟩
    exact eq_nil_of_piece_eq_nil hsize hlt (hpiece ▸ hempty)
  case words =>
    intro hword hlength index part hpart
    rcases hcut index part hpart with ⟨hlt, hpiece⟩
    rw [hpiece]
    exact wordPiece?_eq hsize hword hlength hlt
  case each =>
    refine ⟨base, hid, ?_⟩
    intro index part hpart
    rcases chunkOf_of_chunksFrom hchunks hpart with ⟨hindex, hmade⟩
    rw [hcount] at hfew ⊢
    exact isPart_of_chunkOf hcontent hindex hfew hmade

/-!
## When there are no chunks
-/

theorem validate_eq_error_of_content {op : Operation} {e : TransactionError}
    (hcontent : op.chunkContent? = some content) (h : op.validate = .error e) :
    exists field, e = .missing field := by
  cases op with
  | fileAppend file contents =>
      cases file with
      | none =>
          cases h
          exact ⟨_, rfl⟩
      | some file => cases h
  | topicMessageSubmit topic message chunk =>
      cases topic with
      | none =>
          cases h
          exact ⟨_, rfl⟩
      | some topic =>
          cases message with
          | nil =>
              cases h
              exact ⟨_, rfl⟩
          | cons octet rest => cases h
  | _ => cases hcontent

/-- No single chunk is refused for the number of them. -/
theorem chunkOf_ne_tooManyChunks (hcontent : tx.operation.chunkContent? = some content)
    {required most : Nat} :
    tx.chunkOf base total index piece ≠ .error (.tooManyChunks required most) := by
  intro h
  rcases freeze_eq_error h with hstate | hnone | ⟨node, htwice⟩ | hid | hvalid
  · cases hstate
  · cases hnone
  · cases htwice
  · cases hid
  · rcases validate_eq_error_of_content (chunkContent?_withChunk hcontent _) hvalid with
      ⟨field, hfield⟩
    cases hfield

theorem chunksFrom_eq_error {first : Nat} {pieces : List Bytes} {e : TransactionError}
    (h : tx.chunksFrom base total first pieces = .error e) :
    exists index piece, tx.chunkOf base total index piece = .error e := by
  induction pieces generalizing first with
  | nil => cases h
  | cons piece rest ih =>
      rw [chunksFrom] at h
      cases hfirst : tx.chunkOf base total first piece with
      | error cause =>
          rw [hfirst] at h
          cases h
          exact ⟨first, piece, hfirst⟩
      | ok part =>
          cases hothers : tx.chunksFrom base total (first + 1) rest with
          | error cause =>
              rw [hfirst, hothers] at h
              cases h
              exact ih hothers
          | ok others =>
              rw [hfirst, hothers] at h
              cases h

theorem chunk_eq_tooManyChunks_iff (hstate : tx.state = .frozen) (hsize : 0 < size)
    (hcontent : tx.operation.chunkContent? = some content) {required most : Nat} :
    tx.chunk size maxChunks = .error (.tooManyChunks required most) <->
      maxChunks < required ∧ required = requiredChunks size content.length ∧ most = maxChunks := by
  rcases chunk_cases hstate hsize hcontent with
    ⟨hmany, hchunk⟩ | ⟨henough, _, hchunk⟩ | ⟨henough, base, _, hchunk⟩
  · rw [hchunk]
    constructor
    · intro h
      cases h
      exact ⟨hmany, rfl, rfl⟩
    · rintro ⟨_, hrequired, hmost⟩
      rw [hrequired, hmost]
  · rw [hchunk]
    constructor
    · intro h
      cases h
    · rintro ⟨hmany, hrequired, _⟩
      exact absurd hmany (Nat.not_lt.mpr (hrequired ▸ henough))
  · rw [hchunk]
    constructor
    · intro h
      cases hparts : tx.chunksFrom base (requiredChunks size content.length) 0
          (pieces size (requiredChunks size content.length) content) with
      | ok parts =>
          rw [hparts] at h
          cases h
      | error e =>
          rw [hparts] at h
          cases h
          rcases chunksFrom_eq_error hparts with ⟨index, piece, hpiece⟩
          exact (chunkOf_ne_tooManyChunks hcontent hpiece).elim
    · rintro ⟨hmany, hrequired, _⟩
      exact absurd hmany (Nat.not_lt.mpr (hrequired ▸ henough))

/-!
## When there are chunks
-/

theorem validate_withChunk {op : Operation} (hcontent : op.chunkContent? = some content)
    (hvalid : op.validate = .ok ()) (hfilled : piece = [] -> content = []) (info : ChunkInfo) :
    (op.withChunk piece info).validate = .ok () := by
  cases op with
  | fileAppend file contents =>
      cases file with
      | none => cases hvalid
      | some file => rfl
  | topicMessageSubmit topic message chunk =>
      cases hcontent
      cases topic with
      | none => cases hvalid
      | some topic =>
          cases piece with
          | nil =>
              rw [hfilled rfl] at hvalid
              cases hvalid
          | cons octet rest => rfl
  | _ => cases hcontent

theorem exists_chunksFrom {first : Nat} {pieces : List Bytes}
    (h : forall piece, piece ∈ pieces ->
      forall index, exists part, tx.chunkOf base total index piece = .ok part) :
    exists parts, tx.chunksFrom base total first pieces = .ok parts := by
  induction pieces generalizing first with
  | nil => exact ⟨[], rfl⟩
  | cons piece rest ih =>
      rw [List.forall_mem_cons] at h
      rcases h.left first with ⟨part, hpart⟩
      rcases @ih (first + 1) h.right with ⟨others, hothers⟩
      refine ⟨part :: others, ?_⟩
      rw [chunksFrom, hpart]
      simp only [hothers]

/-- A frozen transaction that was made here is cut whenever that many chunks are allowed. -/
theorem exists_chunk (hcoherent : tx.Coherent) (hstate : tx.state = .frozen) (hsize : 0 < size)
    (hcontent : tx.operation.chunkContent? = some content)
    (henough : requiredChunks size content.length ≤ maxChunks) :
    exists b, tx.chunk size maxChunks = .ok b := by
  have hother : tx.state ≠ .draft := by simp [hstate]
  rcases hcoherent.sealed hother with ⟨id, fee, secs, signers, hsealed⟩
  rcases chunk_cases hstate hsize hcontent with
    ⟨hmany, _⟩ | ⟨_, hid, _⟩ | ⟨_, base, _, hchunk⟩
  · exact absurd hmany (Nat.not_lt.mpr henough)
  · rw [hsealed.identified] at hid
    cases hid
  · have hmade : forall piece,
        piece ∈ pieces size (requiredChunks size content.length) content ->
          forall index, exists part,
            tx.chunkOf base (requiredChunks size content.length) index piece = .ok part := by
      intro piece hpiece index
      rcases List.mem_iff_getElem?.mp hpiece with ⟨place, hplace⟩
      have hlt := (List.getElem?_eq_some_iff.mp hplace).1
      rw [length_pieces] at hlt
      have hfilled : piece = [] -> content = [] := by
        rw [getElem?_pieces hlt] at hplace
        cases hplace
        exact eq_nil_of_piece_eq_nil hsize hlt
      have hvalid := validate_withChunk hcontent hsealed.valid hfilled
      exact ⟨_, freeze_of_valid rfl hsealed.nodes hsealed.distinct rfl (hvalid _)⟩
    rcases @exists_chunksFrom _ _ _ 0 _ hmade with ⟨parts, hparts⟩
    rw [hchunk, hparts]
    exact ⟨⟨parts⟩, rfl⟩

/-- The chunks of a frozen transaction are made from its content in order.  They have its nodes and
its memo, and its fee and duration or, where it has none, those that freezing gives.  There is a
limit to their number and none to their size: no step on the way is too large for a machine word.
What was made here is cut whenever the limit allows it.  The transaction itself is read and not
changed. -/
theorem chunk_splits_content (hstate : tx.state = .frozen) (hsize : 0 < size)
    (hcontent : tx.operation.chunkContent? = some content) :
    (forall b, tx.chunk size maxChunks = .ok b -> b.transactions.length < 2 ^ 32 ->
        tx.IsSplit content size b.transactions) ∧
      (forall required most, tx.chunk size maxChunks = .error (.tooManyChunks required most) <->
        maxChunks < required ∧ required = max 1 (content.length ⌈/⌉ size) ∧ most = maxChunks) ∧
      (Reachable tx -> max 1 (content.length ⌈/⌉ size) ≤ maxChunks ->
        exists b, tx.chunk size maxChunks = .ok b) ∧
      (size < 2 ^ 64 -> content.length < 2 ^ 63 ->
        forall index, index < max 1 (content.length ⌈/⌉ size) ->
          (wordPiece? size index content).isSome) := by
  simp only [← requiredChunks_eq]
  refine ⟨?split, ?refused, ?made, ?words⟩
  case split => exact fun b h hfew => isSplit_of_chunk hstate hsize hcontent h hfew
  case refused => exact fun _ _ => chunk_eq_tooManyChunks_iff hstate hsize hcontent
  case made =>
    intro hreachable henough
    exact exists_chunk (coherent_of_reachable hreachable) hstate hsize hcontent henough
  case words =>
    intro hword hlength index hindex
    rw [wordPiece?_eq hsize hword hlength hindex]
    rfl

/-- A message of five octets to two nodes. -/
def frozenMessage : Transaction :=
  let draft := new (.topicMessageSubmit (some ⟨9⟩) [1, 2, 3, 4, 5] none)
  let named := draft.afterCall (draft.setId (.new ⟨.fill 32 7⟩ 1000))
  (named.freezeWith [⟨3⟩, ⟨4⟩]).1

theorem reachable_frozenMessage : Reachable frozenMessage := by
  have hdraft := Reachable.new (.topicMessageSubmit (some ⟨9⟩) [1, 2, 3, 4, 5] none)
  have hnamed := hdraft.changed (.setId _ (.new ⟨.fill 32 7⟩ 1000))
  exact hnamed.changed (.freezeWith _ [⟨3⟩, ⟨4⟩])

theorem frozenMessage_split :
    frozenMessage.state = .frozen ∧ Reachable frozenMessage ∧
      (exists b, frozenMessage.chunk 2 3 = .ok b ∧ b.transactions.length = 3 ∧
        frozenMessage.IsSplit [1, 2, 3, 4, 5] 2 b.transactions) ∧
      frozenMessage.chunk 2 2 = .error (.tooManyChunks 3 2) ∧
      (wordPiece? 2 2 [1, 2, 3, 4, 5]).isSome := by
  have hcontent : frozenMessage.operation.chunkContent? = some [1, 2, 3, 4, 5] := rfl
  have hmany := @chunk_splits_content frozenMessage _ 2 2 rfl (by decide) hcontent
  have henough := @chunk_splits_content frozenMessage _ 2 3 rfl (by decide) hcontent
  refine ⟨rfl, reachable_frozenMessage, ?split, ?refused, ?words⟩
  case split =>
    rcases henough.right.right.left reachable_frozenMessage (by decide) with ⟨b, hb⟩
    have hlength : b.transactions.length = 3 := by
      cases hb
      rfl
    exact ⟨b, hb, hlength, henough.left b hb (by rw [hlength]; decide)⟩
  case refused => exact (hmany.right.left 3 2).mpr ⟨by decide, by decide, rfl⟩
  case words => exact hmany.right.right.right (by decide) (by decide) 2 (by decide)

/-!
## Originals without a fee
-/

/-- It was frozen elsewhere, by someone who left the fee and the duration open. -/
def feeless : Transaction :=
  { new (.fileAppend (some ⟨5⟩) [1, 2, 3]) with
    state := .frozen
    id := some (.new ⟨.fill 32 7⟩ 1000)
    nodes := [⟨3⟩]
    payloads := [⟨⟨3⟩, [], .empty⟩] }

theorem ofBytes_feeless : ofBytes (codec.encode feeless) = .ok feeless :=
  ofBytes_encode_self ⟨by decide, rfl, by decide +kernel⟩
    (Codec.countable_iff.mpr (by decide +kernel))

/-- Both of its chunks have a fee and a duration, which it has not. -/
theorem feeless_chunks_have_fee :
    ofBytes (codec.encode feeless) = .ok feeless ∧ feeless.state = .frozen ∧
      exists b, feeless.chunk 2 20 = .ok b ∧ b.transactions.length = 2 ∧
        forall part, part ∈ b.transactions ->
          part.maxFee = some defaultMaxFee ∧ part.maxFee ≠ feeless.maxFee ∧
            part.validDurationSecs = some defaultValidDurationSecs ∧
            part.validDurationSecs ≠ feeless.validDurationSecs := by
  refine ⟨ofBytes_feeless, rfl, _, rfl, rfl, ?_⟩
  simp only [List.forall_mem_cons]
  exact ⟨⟨rfl, by decide, rfl, by decide⟩, ⟨rfl, by decide, rfl, by decide⟩,
    List.forall_mem_nil _⟩

end Transaction

end LedgerClient
