import LedgerClient.Proofs.Wire.Lossless
import LedgerClient.Transaction.Body

/-!
# The values that travel

The codecs of ids, operations, signatures and bodies lose nothing.
-/

namespace LedgerClient

open Codec

theorem AccountId.lossless_codec : Lossless AccountId.codec :=
  lossless_iso (lossless_octets 32) (fun _ => rfl)

theorem NodeId.lossless_codec : Lossless NodeId.codec :=
  lossless_iso lossless_u64 (fun _ => rfl)

theorem FileId.lossless_codec : Lossless FileId.codec :=
  lossless_iso lossless_u64 (fun _ => rfl)

theorem TopicId.lossless_codec : Lossless TopicId.codec :=
  lossless_iso lossless_u64 (fun _ => rfl)

theorem ContractId.lossless_codec : Lossless ContractId.codec :=
  lossless_iso lossless_u64 (fun _ => rfl)

theorem TransactionId.lossless_codec : Lossless TransactionId.codec :=
  lossless_iso
    (lossless_pair AccountId.lossless_codec
      (lossless_pair lossless_u64 (lossless_pair lossless_u32 lossless_flag)))
    (fun _ => rfl)

theorem ChunkInfo.lossless_codec : Lossless ChunkInfo.codec :=
  lossless_iso
    (lossless_pair TransactionId.lossless_codec (lossless_pair lossless_u32 lossless_u32))
    (fun _ => rfl)

/-!
## Signatures
-/

theorem SignaturePair.lossless_codec : Lossless SignaturePair.codec :=
  lossless_iso (lossless_pair (lossless_octets 32) lossless_signature) (fun _ => rfl)

theorem SignaturePair.encode_ne_nil (p : SignaturePair) : SignaturePair.codec.encode p ≠ [] := by
  intro hnil
  have hkey : p.publicKey.toBytes = [] := (List.append_eq_nil_iff.mp hnil).left
  have hlength := p.publicKey.length_eq
  rw [hkey] at hlength
  cases hlength

theorem SignatureMap.lossless_codec : Lossless SignatureMap.codec :=
  lossless_iso (lossless_list SignaturePair.lossless_codec SignaturePair.encode_ne_nil)
    (fun _ => rfl)

theorem Envelope.lossless_codec : Lossless Envelope.codec :=
  lossless_iso (lossless_pair lossless_blob SignatureMap.lossless_codec) (fun _ => rfl)

/-!
## Operations and bodies
-/

namespace Operation

theorem lossless_transferCodec : Lossless transferCodec :=
  lossless_pair (lossless_option AccountId.lossless_codec) lossless_u128

theorem lossless_accountCreateCodec : Lossless accountCreateCodec :=
  lossless_pair (lossless_option (lossless_octets 32)) lossless_u128

theorem lossless_fileAppendCodec : Lossless fileAppendCodec :=
  lossless_pair (lossless_option FileId.lossless_codec) lossless_blob

theorem lossless_systemUndeleteCodec : Lossless systemUndeleteCodec :=
  lossless_pair (lossless_option FileId.lossless_codec)
    (lossless_option ContractId.lossless_codec)

theorem lossless_topicMessageSubmitCodec : Lossless topicMessageSubmitCodec :=
  lossless_pair (lossless_option TopicId.lossless_codec)
    (lossless_pair lossless_blob (lossless_option ChunkInfo.lossless_codec))

theorem lossless_ethereumCallCodec : Lossless ethereumCallCodec :=
  lossless_pair lossless_blob (lossless_pair (lossless_option FileId.lossless_codec) lossless_u128)

theorem lossless_scheduleCreateCodec : Lossless scheduleCreateCodec :=
  lossless_pair Envelope.lossless_codec
    (lossless_pair (lossless_option AccountId.lossless_codec)
      (lossless_pair (lossless_option (lossless_octets 32)) lossless_text))

theorem decode_alternative {β : Type} {c : Codec β} (hc : Lossless c) (index : UInt32)
    (make : β -> Operation) (hindex : readers[index.toNat]? = some (c.decode.map make)) (b : β)
    (hcount : Countable (encodeAlternative index (c.encode b))) (rest : Bytes) :
    decode (encodeAlternative index (c.encode b) ++ rest) = .ok (make b, rest) := by
  rw [decode, decodeSum_encodeAlternative hindex]
  exact Reader.map_eq (hc b hcount.right rest) make

theorem decode_encode (op : Operation) (hcount : Countable (encode op)) (rest : Bytes) :
    decode (encode op ++ rest) = .ok (op, rest) := by
  cases op with
  | transfer recipient amount =>
      rw [encode] at *
      exact decode_alternative lossless_transferCodec 0 (fun p => transfer p.1 p.2) rfl
        (recipient, amount) hcount rest
  | accountCreate key balance =>
      rw [encode] at *
      exact decode_alternative lossless_accountCreateCodec 1 (fun p => accountCreate p.1 p.2) rfl
        (key, balance) hcount rest
  | fileAppend file contents =>
      rw [encode] at *
      exact decode_alternative lossless_fileAppendCodec 2 (fun p => fileAppend p.1 p.2) rfl
        (file, contents) hcount rest
  | fileDelete file =>
      rw [encode] at *
      exact decode_alternative (lossless_option FileId.lossless_codec) 3 fileDelete rfl file hcount
        rest
  | systemUndelete file contract =>
      rw [encode] at *
      exact decode_alternative lossless_systemUndeleteCodec 4 (fun p => systemUndelete p.1 p.2) rfl
        (file, contract) hcount rest
  | topicMessageSubmit topic message chunk =>
      rw [encode] at *
      exact decode_alternative lossless_topicMessageSubmitCodec 5
        (fun p => topicMessageSubmit p.1 p.2.1 p.2.2) rfl (topic, message, chunk) hcount rest
  | ethereumCall data file gas =>
      rw [encode] at *
      exact decode_alternative lossless_ethereumCallCodec 6
        (fun p => ethereumCall p.1 p.2.1 p.2.2) rfl (data, file, gas) hcount rest
  | scheduleCreate scheduled payer key memo =>
      rw [encode] at *
      exact decode_alternative lossless_scheduleCreateCodec 7
        (fun p => scheduleCreate p.1 p.2.1 p.2.2.1 p.2.2.2) rfl (scheduled, payer, key, memo) hcount
        rest

theorem lossless_codec : Lossless codec :=
  decode_encode

end Operation

theorem Body.lossless_codec : Lossless Body.codec :=
  lossless_iso
    (lossless_pair TransactionId.lossless_codec (lossless_pair NodeId.lossless_codec
      (lossless_pair lossless_u128 (lossless_pair lossless_u64
        (lossless_pair lossless_text Operation.lossless_codec)))))
    (fun _ => rfl)

end LedgerClient
