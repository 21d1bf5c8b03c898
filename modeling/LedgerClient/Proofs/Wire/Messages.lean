import LedgerClient.Delivery.Status
import LedgerClient.Network.Frame
import LedgerClient.Proofs.Wire.Delimited
import LedgerClient.Proofs.Wire.Values
import LedgerClient.Transaction.Basic

/-!
# What is sent and what is stored

The codecs of transactions, answers and frames lose nothing either, and all readers are
steady.  Main statement: every value that travels marks its own end, so a body can be told
from its octets, and a signature over them is one over everything that the body says.
-/

namespace LedgerClient

open Codec

/-!
## Transactions
-/

/-- An alternative without parts is known by its number. -/
theorem Codec.decodeSum_tag {α : Type} {alternatives : List (Reader α)} (index : UInt32) {a : α}
    (ha : alternatives[index.toNat]? = some (.pure a)) (rest : Bytes) :
    decodeSum alternatives (encodeAlternative index [] ++ rest) = .ok (a, rest) := by
  rw [decodeSum_encodeAlternative ha]
  rfl

theorem TransactionState.lossless_codec : Lossless TransactionState.codec := by
  intro state _ rest
  apply decodeSum_tag state.index
  cases state with
  | draft => rfl
  | frozen => rfl
  | signed => rfl
  | executing => rfl
  | completed => rfl
  | failed => rfl

theorem NodeId.encode_ne_nil (node : NodeId) : NodeId.codec.encode node ≠ [] := by
  intro hnil
  have hlength := Bytes.length_littleEndian 8 node.number.toNat
  have hsame : Bytes.littleEndian 8 node.number.toNat = [] := hnil
  rw [hsame] at hlength
  cases hlength

theorem Payload.encode_ne_nil (p : Payload) : Payload.codec.encode p ≠ [] := by
  intro hnil
  exact p.node.encode_ne_nil (List.append_eq_nil_iff.mp hnil).left

theorem Payload.lossless_codec : Lossless Payload.codec :=
  lossless_iso
    (lossless_pair NodeId.lossless_codec (lossless_pair lossless_blob SignatureMap.lossless_codec))
    (fun _ => rfl)

theorem Transaction.lossless_codec : Lossless Transaction.codec :=
  lossless_iso
    (lossless_pair TransactionState.lossless_codec
      (lossless_pair (lossless_option TransactionId.lossless_codec)
        (lossless_pair (lossless_list NodeId.lossless_codec NodeId.encode_ne_nil)
          (lossless_pair (lossless_option lossless_u128)
            (lossless_pair (lossless_option lossless_u64)
              (lossless_pair lossless_text
                (lossless_pair Operation.lossless_codec
                  (lossless_list Payload.lossless_codec Payload.encode_ne_nil))))))))
    (fun _ => rfl)

/-!
## Answers and frames
-/

theorem PrecheckCode.lossless_codec : Lossless PrecheckCode.codec := by
  intro code _ rest
  simp only [codec, decode]
  cases code with
  | other number =>
      have hnumber := lossless_u32 number (countable_word (by decide) _ _ number) rest
      rw [encode, decodeSum_encodeAlternative rfl]
      exact Reader.map_eq hnumber other
  | ok => exact decodeSum_tag 0 rfl rest
  | busy => exact decodeSum_tag 1 rfl rest
  | transactionNotCreated => exact decodeSum_tag 2 rfl rest
  | notActive => exact decodeSum_tag 3 rfl rest
  | invalidSignature => exact decodeSum_tag 4 rfl rest
  | insufficientFee => exact decodeSum_tag 5 rfl rest
  | invalidBody => exact decodeSum_tag 6 rfl rest
  | duplicateTransaction => exact decodeSum_tag 7 rfl rest
  | expired => exact decodeSum_tag 8 rfl rest

theorem NodeResponse.lossless_codec : Lossless NodeResponse.codec :=
  lossless_iso (lossless_pair PrecheckCode.lossless_codec lossless_blob) (fun _ => rfl)

theorem Method.lossless_codec : Lossless Method.codec :=
  lossless_iso lossless_u16 (fun _ => rfl)

theorem Message.lossless_codec : Lossless Message.codec :=
  lossless_iso (lossless_pair Method.lossless_codec lossless_blob) (fun _ => rfl)

/-!
## Steady readers
-/

theorem AccountId.steady_codec : AccountId.codec.decode.Steady :=
  steady_iso (steady_octets 32) _ _

theorem NodeId.steady_codec : NodeId.codec.decode.Steady :=
  steady_iso (steady_word 8 _ _) _ _

theorem FileId.steady_codec : FileId.codec.decode.Steady :=
  steady_iso (steady_word 8 _ _) _ _

theorem TransactionId.steady_codec : TransactionId.codec.decode.Steady :=
  steady_iso
    (steady_pair AccountId.steady_codec
      (steady_pair (steady_word 8 _ _) (steady_pair (steady_word 4 _ _) steady_flag))) _ _

theorem ChunkInfo.steady_codec : ChunkInfo.codec.decode.Steady :=
  steady_iso
    (steady_pair TransactionId.steady_codec
      (steady_pair (steady_word 4 _ _) (steady_word 4 _ _))) _ _

theorem SignatureMap.steady_codec : SignatureMap.codec.decode.Steady :=
  steady_iso (steady_list (steady_iso (steady_pair (steady_octets 32) steady_signature) _ _)) _ _

theorem Envelope.steady_codec : Envelope.codec.decode.Steady :=
  steady_iso (steady_pair steady_blob SignatureMap.steady_codec) _ _

theorem Operation.steady_codec : Operation.codec.decode.Steady := by
  apply steady_decodeSum
  have hamount : u128.decode.Steady := steady_word 16 _ _
  have hfile := steady_option FileId.steady_codec
  have haccount := steady_option AccountId.steady_codec
  have hkey := steady_option (steady_octets 32)
  have htopic : TopicId.codec.option.decode.Steady :=
    steady_option (steady_iso (steady_word 8 _ _) _ _)
  have hcontract : ContractId.codec.option.decode.Steady :=
    steady_option (steady_iso (steady_word 8 _ _) _ _)
  have hchunk := steady_option ChunkInfo.steady_codec
  simp only [Operation.readers, List.forall_mem_cons]
  refine ⟨?transfer, ?accountCreate, ?fileAppend, ?fileDelete, ?systemUndelete,
    ?topicMessageSubmit, ?ethereumCall, ?scheduleCreate, List.forall_mem_nil _⟩
  case transfer => exact (steady_pair haccount hamount).map _
  case accountCreate => exact (steady_pair hkey hamount).map _
  case fileAppend => exact (steady_pair hfile steady_blob).map _
  case fileDelete => exact hfile.map _
  case systemUndelete => exact (steady_pair hfile hcontract).map _
  case topicMessageSubmit => exact (steady_pair htopic (steady_pair steady_blob hchunk)).map _
  case ethereumCall => exact (steady_pair steady_blob (steady_pair hfile hamount)).map _
  case scheduleCreate =>
    exact (steady_pair Envelope.steady_codec
      (steady_pair haccount (steady_pair hkey steady_text))).map _

theorem Body.steady_codec : Body.codec.decode.Steady :=
  steady_iso
    (steady_pair TransactionId.steady_codec (steady_pair NodeId.steady_codec
      (steady_pair (steady_word 16 _ _) (steady_pair (steady_word 8 _ _)
        (steady_pair steady_text Operation.steady_codec))))) _ _

theorem Payload.steady_codec : Payload.codec.decode.Steady :=
  steady_iso
    (steady_pair NodeId.steady_codec (steady_pair steady_blob SignatureMap.steady_codec)) _ _

theorem TransactionState.steady_codec : TransactionState.codec.decode.Steady := by
  apply steady_decodeSum
  intro r hr
  rcases List.mem_map.mp hr with ⟨state, _, hpure⟩
  rw [← hpure]
  exact Reader.steady_pure state

theorem Transaction.steady_codec : Transaction.codec.decode.Steady :=
  steady_iso
    (steady_pair TransactionState.steady_codec
      (steady_pair (steady_option TransactionId.steady_codec)
        (steady_pair (steady_list NodeId.steady_codec)
          (steady_pair (steady_option (steady_word 16 _ _))
            (steady_pair (steady_option (steady_word 8 _ _))
              (steady_pair steady_text
                (steady_pair Operation.steady_codec
                  (steady_list Payload.steady_codec)))))))) _ _

theorem PrecheckCode.steady_codec : PrecheckCode.codec.decode.Steady := by
  apply steady_decodeSum
  simp only [List.forall_mem_cons, Reader.steady_pure, true_and]
  exact ⟨(steady_word 4 _ _).map PrecheckCode.other, List.forall_mem_nil _⟩

theorem NodeResponse.steady_codec : NodeResponse.codec.decode.Steady :=
  steady_iso (steady_pair PrecheckCode.steady_codec steady_blob) _ _

theorem Message.steady_codec : Message.codec.decode.Steady :=
  steady_iso (steady_pair (steady_iso (steady_word 2 _ _) _ _) steady_blob) _ _

/-!
## Values that travel
-/

/-- Every value can be followed by others and none can be cut short unnoticed; different bodies
have different octets. -/
theorem selfDelimiting_and_distinct_bodies :
    (SelfDelimiting TransactionId.codec ∧ SelfDelimiting ChunkInfo.codec ∧
      SelfDelimiting Operation.codec ∧ SelfDelimiting Body.codec ∧
      SelfDelimiting SignatureMap.codec ∧ SelfDelimiting Payload.codec ∧
      SelfDelimiting Transaction.codec ∧ SelfDelimiting PrecheckCode.codec ∧
      SelfDelimiting NodeResponse.codec ∧ SelfDelimiting Message.codec) ∧
    forall b other : Body, Countable (Body.codec.encode b) ->
      Body.codec.encode b = Body.codec.encode other -> b = other := by
  have hbody := selfDelimiting_of_lossless Body.lossless_codec Body.steady_codec
  refine ⟨⟨?_, ?_, ?_, hbody, ?_, ?_, ?_, ?_, ?_, ?_⟩, fun _ _ hcount => hbody.encode_inj hcount⟩
  · exact selfDelimiting_of_lossless TransactionId.lossless_codec TransactionId.steady_codec
  · exact selfDelimiting_of_lossless ChunkInfo.lossless_codec ChunkInfo.steady_codec
  · exact selfDelimiting_of_lossless Operation.lossless_codec Operation.steady_codec
  · exact selfDelimiting_of_lossless SignatureMap.lossless_codec SignatureMap.steady_codec
  · exact selfDelimiting_of_lossless Payload.lossless_codec Payload.steady_codec
  · exact selfDelimiting_of_lossless Transaction.lossless_codec Transaction.steady_codec
  · exact selfDelimiting_of_lossless PrecheckCode.lossless_codec PrecheckCode.steady_codec
  · exact selfDelimiting_of_lossless NodeResponse.lossless_codec NodeResponse.steady_codec
  · exact selfDelimiting_of_lossless Message.lossless_codec Message.steady_codec

/-- A body that puts a signed body on a schedule. -/
def schedulingBody (node : NodeId) : Body :=
  { transactionId := .new ⟨.fill 32 7⟩ 1000
    node := node
    maxFee := 5
    validDurationSecs := 120
    memo := "later"
    operation := .scheduleCreate ⟨[1, 2], ⟨[⟨.fill 32 1, .fill 64 2⟩]⟩⟩ none none "" }

theorem schedulingBody_told_apart :
    Body.codec.decode (Body.codec.encode (schedulingBody ⟨3⟩) ++ [7]) =
        .ok (schedulingBody ⟨3⟩, [7]) ∧
      Body.codec.encode (schedulingBody ⟨3⟩) ≠ Body.codec.encode (schedulingBody ⟨4⟩) := by
  have hcount : Countable (Body.codec.encode (schedulingBody ⟨3⟩)) :=
    countable_iff.mpr (by decide +kernel)
  rcases selfDelimiting_and_distinct_bodies with ⟨⟨_, _, _, hbody, _⟩, hdistinct⟩
  refine ⟨hbody.decode_append _ hcount [7], ?_⟩
  intro hsame
  cases congrArg Body.node (hdistinct _ _ hcount hsame)

end LedgerClient
