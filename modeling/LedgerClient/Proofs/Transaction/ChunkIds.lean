import Mathlib.Data.List.Nodup
import Mathlib.Order.Interval.Finset.Nat
import LedgerClient.Proofs.Transaction.Reachable

/-!
# Ids of chunks

The chunks of a transaction are told apart by the start of their validity, one millisecond
after the other.  There is a last millisecond, and past it the starts stay where they are, so
ids are distinct as long as there is a millisecond left for each chunk and no longer.
-/

namespace LedgerClient

namespace TransactionId

/-- The ids of `count` chunks, from the id of the transaction that they were cut from. -/
def offsets (base : TransactionId) (count : Nat) : List TransactionId :=
  (List.range count).map fun index => base.withOffset (UInt64.ofNat index)

variable {base id : TransactionId} {count index : Nat}

theorem withOffset_zero (base : TransactionId) : base.withOffset 0 = base := by
  have hstart : base.validStart.plusMillis 0 = base.validStart := by
    apply UInt64.toNat_inj.mp
    rw [Timestamp.toNat_plusMillis, Nat.add_zero]
    exact Nat.min_eq_left (Nat.le_of_lt_succ base.validStart.toNat_lt)
  ext1
  case account => rfl
  case validStart => exact hstart
  case nonce => rfl
  case scheduled => rfl

theorem length_offsets : (base.offsets count).length = count := by
  rw [offsets, List.length_map, List.length_range]

theorem getElem?_offsets (h : index < count) :
    (base.offsets count)[index]? = some (base.withOffset (UInt64.ofNat index)) := by
  rw [offsets, List.getElem?_map, List.getElem?_range h, Option.map_some]

theorem head?_offsets (h : 0 < count) : (base.offsets count).head? = some base := by
  rw [List.head?_eq_getElem?, getElem?_offsets h]
  exact congrArg some (withOffset_zero base)

/-- Nothing but the start differs, and no start is earlier than that of the base. -/
theorem of_mem_offsets (h : id ∈ base.offsets count) :
    (id.account = base.account ∧ id.nonce = base.nonce ∧ id.scheduled = base.scheduled) ∧
      base.validStart ≤ id.validStart := by
  rcases List.mem_map.mp h with ⟨index, _, hid⟩
  rw [← hid]
  refine ⟨⟨rfl, rfl, rfl⟩, ?_⟩
  rw [UInt64.le_iff_toNat_le, withOffset, Timestamp.toNat_plusMillis]
  exact Nat.le_min.mpr ⟨Nat.le_add_right _ _, Nat.le_of_lt_succ base.validStart.toNat_lt⟩

theorem toNat_validStart_withOffset (h : index < UInt64.size) :
    (base.withOffset (UInt64.ofNat index)).validStart.toNat =
      min (base.validStart.toNat + index) Timestamp.last.toNat := by
  rw [withOffset, Timestamp.toNat_plusMillis, UInt64.toNat_ofNat_of_lt' h]

/-- With a millisecond left for each of them, no start comes to the end of the range. -/
theorem pairwise_offsets (h : base.validStart.toNat + count ≤ UInt64.size) :
    (base.offsets count).Pairwise
      (fun earlier later => earlier.validStart < later.validStart) := by
  rw [offsets, List.pairwise_map]
  refine List.pairwise_lt_range.imp_of_mem ?_
  intro first second _ hsecond hlt
  have hbound : base.validStart.toNat + second < UInt64.size :=
    Nat.lt_of_lt_of_le (Nat.add_lt_add_left (List.mem_range.mp hsecond) _) h
  rw [UInt64.lt_iff_toNat_lt, toNat_validStart_withOffset (by omega),
    toNat_validStart_withOffset (by omega)]
  have hlast : Timestamp.last.toNat + 1 = UInt64.size := by decide
  omega

/-- There are only so many starts from the base to the end of the range. -/
theorem le_of_nodup_offsets (h : (base.offsets count).Nodup) :
    base.validStart.toNat + count ≤ UInt64.size := by
  have hstarts : ((base.offsets count).map fun id => id.validStart.toNat).Nodup := by
    refine List.Nodup.map_on ?_ h
    intro first hfirst second hsecond hsame
    have hone := (of_mem_offsets hfirst).left
    have htwo := (of_mem_offsets hsecond).left
    ext1
    case account => rw [hone.left, htwo.left]
    case validStart => exact UInt64.toNat_inj.mp hsame
    case nonce => rw [hone.right.left, htwo.right.left]
    case scheduled => rw [hone.right.right, htwo.right.right]
  have hrange : ((base.offsets count).map fun id => id.validStart.toNat).toFinset ⊆
      Finset.Ico base.validStart.toNat UInt64.size := by
    intro start hstart
    rcases List.mem_map.mp (List.mem_toFinset.mp hstart) with ⟨id, hid, hsame⟩
    rw [← hsame, Finset.mem_Ico]
    exact ⟨UInt64.le_iff_toNat_le.mp (of_mem_offsets hid).right, id.validStart.toNat_lt⟩
  have hcard := Finset.card_le_card hrange
  rw [List.toFinset_card_of_nodup hstarts, Nat.card_Ico, List.length_map, length_offsets] at hcard
  have hstart := base.validStart.toNat_lt_size
  omega

end TransactionId

namespace Transaction

variable {tx part : Transaction} {base : TransactionId} {size maxChunks : Nat} {b : Batch}

theorem id_of_chunkOf {total index : Nat} {piece : Bytes}
    (h : tx.chunkOf base total index piece = .ok part) :
    part.id = some (base.withOffset (UInt64.ofNat index)) := by
  rcases freeze_eq_ok h with ⟨_, _, _, _, _, _, hpart⟩
  rw [hpart]
  rfl

theorem map_id_of_chunksFrom {total : Nat} {pieces : List Bytes} {parts : List Transaction}
    (h : tx.chunksFrom base total 0 pieces = .ok parts) :
    parts.map Transaction.id = (base.offsets pieces.length).map some := by
  rcases chunksFrom_eq_ok h with ⟨hlength, heach⟩
  apply List.ext_getElem?
  intro index
  rw [List.getElem?_map, List.getElem?_map, ← hlength]
  cases hpart : parts[index]? with
  | none =>
      have hend : (base.offsets parts.length).length ≤ index := by
        rw [TransactionId.length_offsets]
        exact List.getElem?_eq_none_iff.mp hpart
      rw [List.getElem?_eq_none_iff.mpr hend]
      rfl
  | some part =>
      have hindex : index < parts.length := (List.getElem?_eq_some_iff.mp hpart).1
      rcases heach index part hpart with ⟨piece, _, hmade⟩
      rw [Nat.zero_add] at hmade
      rw [TransactionId.getElem?_offsets hindex, Option.map_some, Option.map_some,
        id_of_chunkOf hmade]

/-- A transaction that is not cut keeps its id, which is the first and only one. -/
theorem map_id_of_chunk (hid : tx.id = some base) (h : tx.chunk size maxChunks = .ok b) :
    exists count, 0 < count ∧
      b.transactions.map Transaction.id = (base.offsets count).map some := by
  rcases chunk_eq_ok h with hsame | ⟨other, total, pieces, hother, hpieces, hchunks⟩
  · have hoffsets : base.offsets 1 = [base] := congrArg (fun id => [id]) base.withOffset_zero
    refine ⟨1, Nat.one_pos, ?_⟩
    rw [hsame, hoffsets, List.map_singleton, List.map_singleton, hid]
  · rw [hid] at hother
    cases hother
    exact ⟨pieces.length, List.length_pos_iff.mpr hpieces, map_id_of_chunksFrom hchunks⟩

/-- The ids of the chunks of a transaction start with its own and differ from it by the start of
their validity alone, which is a millisecond later from chunk to chunk until the last one there is.
They are distinct, and their starts increase, just when there are as many milliseconds as chunks. -/
theorem chunks_told_apart (hid : tx.id = some base) (h : tx.chunk size maxChunks = .ok b) :
    exists ids : List TransactionId,
      b.transactions.map Transaction.id = ids.map some ∧ ids.head? = some base ∧
      (forall id, id ∈ ids ->
        id.account = base.account ∧ id.nonce = base.nonce ∧ id.scheduled = base.scheduled) ∧
      (forall index id, ids[index]? = some id -> index < UInt64.size ->
        id.validStart.toNat = min (base.validStart.toNat + index) Timestamp.last.toNat) ∧
      (ids.Pairwise (fun earlier later => earlier.validStart < later.validStart) <->
        base.validStart.toNat + b.size ≤ UInt64.size) ∧
      (ids.Nodup <-> base.validStart.toNat + b.size ≤ UInt64.size) := by
  rcases map_id_of_chunk hid h with ⟨count, hcount, hids⟩
  have hsize : b.size = count := by
    have hlength := congrArg List.length hids
    rwa [List.length_map, List.length_map, TransactionId.length_offsets] at hlength
  have hdistinct : forall ids : List TransactionId,
      ids.Pairwise (fun earlier later => earlier.validStart < later.validStart) -> ids.Nodup := by
    intro ids hstarts
    refine hstarts.imp ?_
    intro earlier later hlt hsame
    rw [hsame] at hlt
    exact UInt64.lt_irrefl _ hlt
  rw [hsize]
  refine ⟨base.offsets count, hids, TransactionId.head?_offsets hcount, ?_, ?_, ?_, ?_⟩
  · exact fun id hmem => (TransactionId.of_mem_offsets hmem).left
  · intro index id hindex hword
    have hlt := (List.getElem?_eq_some_iff.mp hindex).1
    rw [TransactionId.length_offsets] at hlt
    rw [TransactionId.getElem?_offsets hlt] at hindex
    cases hindex
    exact TransactionId.toNat_validStart_withOffset hword
  · exact ⟨fun hstarts => TransactionId.le_of_nodup_offsets (hdistinct _ hstarts),
      TransactionId.pairwise_offsets⟩
  · exact ⟨TransactionId.le_of_nodup_offsets,
      fun hroom => hdistinct _ (TransactionId.pairwise_offsets hroom)⟩

/-!
## Chunks at the end of time
-/

/-- Three octets that are appended to a file by a transaction with this start. -/
def frozenAppend (start : Timestamp) : Transaction :=
  let draft := new (.fileAppend (some ⟨5⟩) [1, 2, 3])
  let named := draft.afterCall (draft.setId (.new ⟨.fill 32 7⟩ start))
  (named.freezeWith [⟨3⟩]).1

theorem reachable_frozenAppend (start : Timestamp) : Reachable (frozenAppend start) := by
  have hdraft := Reachable.new (.fileAppend (some ⟨5⟩) [1, 2, 3])
  have hnamed := hdraft.changed (.setId _ (.new ⟨.fill 32 7⟩ start))
  exact hnamed.changed (.freezeWith _ [⟨3⟩])

/-- Two chunks have the last two starts. -/
theorem frozenAppend_told_apart :
    exists (b : Batch) (ids : List TransactionId),
      (frozenAppend 18446744073709551614).chunk 2 20 = .ok b ∧ b.size = 2 ∧
        b.transactions.map Transaction.id = ids.map some ∧ ids.Nodup := by
  have hid : (frozenAppend 18446744073709551614).id =
      some (.new ⟨.fill 32 7⟩ 18446744073709551614) := rfl
  have hchunk : exists b, (frozenAppend 18446744073709551614).chunk 2 20 = .ok b := ⟨_, rfl⟩
  rcases hchunk with ⟨b, hb⟩
  have hsize : b.size = 2 := by
    cases hb
    rfl
  rcases chunks_told_apart hid hb with ⟨ids, hids, _, _, _, _, hdistinct⟩
  refine ⟨b, ids, hb, hsize, hids, hdistinct.mpr ?_⟩
  rw [hsize]
  decide

/-- Two chunks of a transaction that starts with the last millisecond have one id. -/
theorem last_chunks_share_id :
    ¬ forall (tx : Transaction) (base : TransactionId) (size maxChunks : Nat) (b : Batch),
        Reachable tx -> tx.state = .frozen -> tx.id = some base ->
        tx.chunk size maxChunks = .ok b -> (b.transactions.map Transaction.id).Nodup := by
  intro hclaim
  have hdistinct := hclaim (frozenAppend Timestamp.last) (.new ⟨.fill 32 7⟩ Timestamp.last) 2 20 _
    (reachable_frozenAppend Timestamp.last) rfl rfl rfl
  have hsame : ¬ [some (TransactionId.new ⟨.fill 32 7⟩ Timestamp.last),
      some (TransactionId.new ⟨.fill 32 7⟩ Timestamp.last)].Nodup := by
    simp
  exact hsame hdistinct

end Transaction

end LedgerClient
