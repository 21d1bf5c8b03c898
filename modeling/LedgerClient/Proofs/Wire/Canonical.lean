import LedgerClient.Proofs.Transaction.Reading
import LedgerClient.Proofs.Wire.Compound

/-!
# How the values that travel are spelled

Only signatures can be spelled in more than one way, so the only values with several spellings
are those that hold signatures: signature maps, what carries them, and operations that put a
signed body on a schedule.  Main statement: each reader takes exactly the spellings of the
values that it can return, and what has no signatures has one spelling.
-/

namespace LedgerClient

open Codec

theorem AccountId.canonical_codec : Canonical AccountId.codec (.exactly AccountId.codec) :=
  exact_iso (canonical_octets 32) (fun _ => rfl)

theorem NodeId.canonical_codec : Canonical NodeId.codec (.exactly NodeId.codec) :=
  exact_iso canonical_u64 (fun _ => rfl)

theorem FileId.canonical_codec : Canonical FileId.codec (.exactly FileId.codec) :=
  exact_iso canonical_u64 (fun _ => rfl)

theorem TopicId.canonical_codec : Canonical TopicId.codec (.exactly TopicId.codec) :=
  exact_iso canonical_u64 (fun _ => rfl)

theorem ContractId.canonical_codec : Canonical ContractId.codec (.exactly ContractId.codec) :=
  exact_iso canonical_u64 (fun _ => rfl)

theorem TransactionId.canonical_codec :
    Canonical TransactionId.codec (.exactly TransactionId.codec) :=
  exact_iso
    (exact_pair AccountId.canonical_codec
      (exact_pair canonical_u64 (exact_pair canonical_u32 canonical_flag)))
    (fun _ => rfl)

theorem ChunkInfo.canonical_codec : Canonical ChunkInfo.codec (.exactly ChunkInfo.codec) :=
  exact_iso
    (exact_pair TransactionId.canonical_codec (exact_pair canonical_u32 canonical_u32))
    (fun _ => rfl)

theorem PrecheckCode.canonical_codec :
    Canonical PrecheckCode.codec (.exactly PrecheckCode.codec) := by
  apply exact_sum rfl
  intro i r hr
  rcases i with _ | _ | _ | _ | _ | _ | _ | _ | _ | _ | i <;> cases hr
  iterate 9 exact alternative_pure fun _ => Iff.rfl
  exact alternative_exactly canonical_u32 fun _ _ => Iff.rfl

theorem NodeResponse.canonical_codec :
    Canonical NodeResponse.codec (.exactly NodeResponse.codec) :=
  exact_iso (exact_pair PrecheckCode.canonical_codec canonical_blob) (fun _ => rfl)

theorem TransactionState.canonical_codec :
    Canonical TransactionState.codec (.exactly TransactionState.codec) := by
  apply exact_sum rfl
  intro i r hr
  rcases i with _ | _ | _ | _ | _ | _ | i <;> cases hr
  all_goals exact alternative_pure fun _ => Iff.rfl

/-!
## Values with signatures
-/

def SignaturePair.spelling : Spelling SignaturePair :=
  ((Spelling.exactly (octets 32)).pair .signature).through fun p => (p.publicKey, p.signature)

def SignatureMap.spelling : Spelling SignatureMap :=
  SignaturePair.spelling.list.through SignatureMap.pairs

def Envelope.spelling : Spelling Envelope :=
  ((Spelling.exactly blob).pair SignatureMap.spelling).through fun e => (e.body, e.signatures)

theorem SignaturePair.canonical_codec :
    Canonical SignaturePair.codec SignaturePair.spelling :=
  canonical_iso (canonical_pair (canonical_octets 32) canonical_signature) (fun _ => rfl)

theorem SignatureMap.canonical_codec : Canonical SignatureMap.codec SignatureMap.spelling :=
  canonical_iso (canonical_list SignaturePair.canonical_codec) (fun _ => rfl)

theorem Envelope.canonical_codec : Canonical Envelope.codec Envelope.spelling :=
  canonical_iso (canonical_pair canonical_blob SignatureMap.canonical_codec) (fun _ => rfl)

namespace Operation

/-- What is put on a schedule besides the signed body. -/
def scheduleTermsCodec : Codec (Option AccountId × Option PublicKey × String) :=
  AccountId.codec.option.pair ((octets 32).option.pair text)

/-- The signatures of a scheduled body are the only ones in an operation. -/
def spelling : Spelling Operation
  | .scheduleCreate scheduled payer key memo => fun bs =>
      exists parts,
        (Envelope.spelling.pair (.exactly scheduleTermsCodec)) (scheduled, payer, key, memo) parts ∧
          bs = encodeAlternative 7 parts
  | op => fun bs => bs = op.encode

theorem canonical_scheduleCreateCodec :
    Canonical scheduleCreateCodec (Envelope.spelling.pair (.exactly scheduleTermsCodec)) :=
  canonical_pair Envelope.canonical_codec
    (exact_pair (canonical_option AccountId.canonical_codec)
      (exact_pair (canonical_option (canonical_octets 32)) canonical_text))

theorem spelling_encode (op : Operation) : spelling op op.encode := by
  cases op with
  | scheduleCreate scheduled payer key memo =>
      exact ⟨_, canonical_scheduleCreateCodec.written (scheduled, payer, key, memo), rfl⟩
  | transfer _ _ => rfl
  | accountCreate _ _ => rfl
  | fileAppend _ _ => rfl
  | fileDelete _ => rfl
  | systemUndelete _ _ => rfl
  | topicMessageSubmit _ _ _ => rfl
  | ethereumCall _ _ _ => rfl

theorem alike_spelling (op : Operation) (bs : Bytes) (h : spelling op bs) :
    List.Forall₂ Hex.SameButCase bs op.encode := by
  cases op with
  | scheduleCreate scheduled payer key memo =>
      rcases h with ⟨parts, hparts, hbs⟩
      rw [hbs, encode, encodeAlternative]
      exact List.rel_append (Hex.alike_self _) (canonical_scheduleCreateCodec.alike _ parts hparts)
  | transfer _ _ => exact h ▸ Hex.alike_self _
  | accountCreate _ _ => exact h ▸ Hex.alike_self _
  | fileAppend _ _ => exact h ▸ Hex.alike_self _
  | fileDelete _ => exact h ▸ Hex.alike_self _
  | systemUndelete _ _ => exact h ▸ Hex.alike_self _
  | topicMessageSubmit _ _ _ => exact h ▸ Hex.alike_self _
  | ethereumCall _ _ _ => exact h ▸ Hex.alike_self _

theorem canonical_codec : Canonical codec spelling := by
  have haccount := canonical_option AccountId.canonical_codec
  have hfile := canonical_option FileId.canonical_codec
  have hcontract := canonical_option ContractId.canonical_codec
  have htopic := canonical_option TopicId.canonical_codec
  have hkey := canonical_option (canonical_octets 32)
  have hchunk := canonical_option ChunkInfo.canonical_codec
  apply canonical_sum rfl spelling_encode alike_spelling
  intro i r hr
  rcases i with _ | _ | _ | _ | _ | _ | _ | _ | i <;> cases hr
  · exact alternative_exactly (exact_pair haccount canonical_u128) fun _ _ => Iff.rfl
  · exact alternative_exactly (exact_pair hkey canonical_u128) fun _ _ => Iff.rfl
  · exact alternative_exactly (exact_pair hfile canonical_blob) fun _ _ => Iff.rfl
  · exact alternative_exactly hfile fun _ _ => Iff.rfl
  · exact alternative_exactly (exact_pair hfile hcontract) fun _ _ => Iff.rfl
  · exact alternative_exactly (exact_pair htopic (exact_pair canonical_blob hchunk))
      fun _ _ => Iff.rfl
  · exact alternative_exactly (exact_pair canonical_blob (exact_pair hfile canonical_u128))
      fun _ _ => Iff.rfl
  · exact alternative_of_canonical canonical_scheduleCreateCodec fun _ _ => Iff.rfl

end Operation

def Body.spelling : Spelling Body :=
  ((Spelling.exactly TransactionId.codec).pair ((Spelling.exactly NodeId.codec).pair
    ((Spelling.exactly u128).pair ((Spelling.exactly u64).pair
      ((Spelling.exactly text).pair Operation.spelling))))).through
    fun b => (b.transactionId, b.node, b.maxFee, b.validDurationSecs, b.memo, b.operation)

def Payload.spelling : Spelling Payload :=
  ((Spelling.exactly NodeId.codec).pair
    ((Spelling.exactly blob).pair SignatureMap.spelling)).through
    fun p => (p.node, p.body, p.signatures)

def Transaction.spelling : Spelling Transaction :=
  ((Spelling.exactly TransactionState.codec).pair
    ((Spelling.exactly TransactionId.codec.option).pair
      ((Spelling.exactly NodeId.codec.list).pair
        ((Spelling.exactly u128.option).pair
          ((Spelling.exactly u64.option).pair
            ((Spelling.exactly text).pair
              (Operation.spelling.pair Payload.spelling.list))))))).through
    fun tx => (tx.state, tx.id, tx.nodes, tx.maxFee, tx.validDurationSecs, tx.memo,
      tx.operation, tx.payloads)

theorem Body.canonical_codec : Canonical Body.codec Body.spelling :=
  canonical_iso
    (canonical_pair TransactionId.canonical_codec (canonical_pair NodeId.canonical_codec
      (canonical_pair canonical_u128 (canonical_pair canonical_u64
        (canonical_pair canonical_text Operation.canonical_codec)))))
    (fun _ => rfl)

theorem Payload.canonical_codec : Canonical Payload.codec Payload.spelling :=
  canonical_iso
    (canonical_pair NodeId.canonical_codec
      (canonical_pair canonical_blob SignatureMap.canonical_codec))
    (fun _ => rfl)

theorem Transaction.canonical_codec : Canonical Transaction.codec Transaction.spelling :=
  canonical_iso
    (canonical_pair TransactionState.canonical_codec
      (canonical_pair (canonical_option TransactionId.canonical_codec)
        (canonical_pair (exact_list NodeId.canonical_codec)
          (canonical_pair (canonical_option canonical_u128)
            (canonical_pair (canonical_option canonical_u64)
              (canonical_pair canonical_text
                (canonical_pair Operation.canonical_codec
                  (canonical_list Payload.canonical_codec))))))))
    (fun _ => rfl)

/-!
## Values without signatures
-/

/-- The signatures of a scheduled body. -/
def Operation.signatures : Operation -> List SignaturePair
  | .scheduleCreate scheduled _ _ _ => scheduled.signatures.pairs
  | _ => []

/-- All signatures that a transaction holds. -/
def Transaction.signatures (tx : Transaction) : List SignaturePair :=
  tx.operation.signatures ++ tx.payloads.flatMap fun p => p.signatures.pairs

theorem SignatureMap.sole_spelling {m : SignatureMap} (hnone : m.pairs = []) :
    Sole codec spelling m := by
  apply sole_list
  rw [hnone]
  exact List.forall_mem_nil _

theorem Operation.sole_spelling {op : Operation} (hnone : op.signatures = []) :
    Sole codec spelling op := by
  cases op with
  | scheduleCreate scheduled payer key memo =>
      intro bs hbs
      rcases hbs with ⟨parts, hparts, hbs⟩
      have henvelope : Sole Envelope.codec Envelope.spelling scheduled :=
        sole_pair (sole_exactly blob _) (SignatureMap.sole_spelling hnone)
      have hterms := sole_pair (p := (scheduled, payer, key, memo)) henvelope
        (sole_exactly scheduleTermsCodec _)
      rw [hbs, hterms parts hparts]
      rfl
  | transfer _ _ => exact fun _ hbs => hbs
  | accountCreate _ _ => exact fun _ hbs => hbs
  | fileAppend _ _ => exact fun _ hbs => hbs
  | fileDelete _ => exact fun _ hbs => hbs
  | systemUndelete _ _ => exact fun _ hbs => hbs
  | topicMessageSubmit _ _ _ => exact fun _ hbs => hbs
  | ethereumCall _ _ _ => exact fun _ hbs => hbs

theorem Body.sole_spelling {b : Body} (hnone : b.operation.signatures = []) :
    Sole codec spelling b :=
  sole_pair (sole_exactly TransactionId.codec _)
    (sole_pair (sole_exactly NodeId.codec _)
      (sole_pair (sole_exactly u128 _)
        (sole_pair (sole_exactly u64 _)
          (sole_pair (sole_exactly text _) (Operation.sole_spelling hnone)))))

theorem Payload.sole_spelling {p : Payload} (hnone : p.signatures.pairs = []) :
    Sole codec spelling p :=
  sole_pair (sole_exactly NodeId.codec _)
    (sole_pair (sole_exactly blob _) (SignatureMap.sole_spelling hnone))

theorem Transaction.sole_spelling {tx : Transaction} (hnone : tx.signatures = []) :
    Sole codec spelling tx := by
  rcases List.append_eq_nil_iff.mp hnone with ⟨hoperation, hpayloads⟩
  have hunsigned : forall p, p ∈ tx.payloads -> Sole Payload.codec Payload.spelling p :=
    fun p hp => Payload.sole_spelling (List.flatMap_eq_nil_iff.mp hpayloads p hp)
  exact sole_pair (sole_exactly TransactionState.codec _)
    (sole_pair (sole_exactly TransactionId.codec.option _)
      (sole_pair (sole_exactly NodeId.codec.list _)
        (sole_pair (sole_exactly u128.option _)
          (sole_pair (sole_exactly u64.option _)
            (sole_pair (sole_exactly text _)
              (sole_pair (Operation.sole_spelling hoperation) (sole_list hunsigned)))))))

/-!
## What is read
-/

theorem Codec.read_eq_ok {α : Type} {c : Codec α} {bs : Bytes} {a : α} (h : c.read bs = .ok a) :
    exists rest, c.decode bs = .ok (a, rest) := by
  unfold Codec.read Reader.run at h
  cases hdecode : c.decode bs with
  | error cause =>
      rw [hdecode] at h
      cases h
  | ok taken =>
      rcases taken with ⟨b, rest⟩
      rw [hdecode] at h
      cases h
      exact ⟨rest, rfl⟩

/-- A transaction that was accepted is written so that it is accepted again. -/
theorem Transaction.ofBytes_spelled {bs : Bytes} {tx : Transaction} (h : ofBytes bs = .ok tx) :
    (exists front rest, bs = front ++ rest ∧ tx.spelling front) ∧
      exists again, tx.toBytes = .ok again ∧ ofBytes again = .ok tx := by
  rcases ofBytes_eq_ok_iff.mp h with ⟨hread, hchecked⟩
  rcases Codec.read_eq_ok hread with ⟨rest, hdecode⟩
  rcases canonical_codec.read bs tx rest hdecode with ⟨front, hbs, hfront⟩
  have hagain := canonical_codec.decode_encode hdecode []
  rw [List.append_nil] at hagain
  have hreread : codec.read (codec.encode tx) = .ok tx := by
    simp only [Codec.read, Reader.run, hagain]
  refine ⟨⟨front, rest, hbs, hfront⟩, codec.encode tx, ?_, ?_⟩
  · rw [toBytes, if_neg hchecked.sealed]
  · exact ofBytes_eq_ok_iff.mpr ⟨hreread, hchecked⟩

/-- What is read is what would be written, up to the case of the digits of signatures, and what
is written for it is read again.  A value without signatures is read from nothing else. -/
theorem canonical_up_to_case :
    (Canonical TransactionId.codec (.exactly TransactionId.codec) ∧
      Canonical ChunkInfo.codec (.exactly ChunkInfo.codec) ∧
      Canonical NodeResponse.codec (.exactly NodeResponse.codec) ∧
      Canonical SignatureMap.codec SignatureMap.spelling ∧
      Canonical Operation.codec Operation.spelling ∧
      Canonical Body.codec Body.spelling ∧
      Canonical Transaction.codec Transaction.spelling) ∧
    (forall op : Operation, op.signatures = [] -> Sole Operation.codec Operation.spelling op) ∧
    (forall b : Body, b.operation.signatures = [] -> Sole Body.codec Body.spelling b) ∧
    (forall tx : Transaction, tx.signatures = [] ->
      Sole Transaction.codec Transaction.spelling tx) ∧
    forall (bs : Bytes) (tx : Transaction), Transaction.ofBytes bs = .ok tx ->
      (exists front rest, bs = front ++ rest ∧ tx.spelling front) ∧
        exists again, tx.toBytes = .ok again ∧ Transaction.ofBytes again = .ok tx := by
  refine ⟨⟨?_, ?_, ?_, ?_, ?_, ?_, ?_⟩, ?_, ?_, ?_, ?_⟩
  · exact TransactionId.canonical_codec
  · exact ChunkInfo.canonical_codec
  · exact NodeResponse.canonical_codec
  · exact SignatureMap.canonical_codec
  · exact Operation.canonical_codec
  · exact Body.canonical_codec
  · exact Transaction.canonical_codec
  · exact fun _ hnone => Operation.sole_spelling hnone
  · exact fun _ hnone => Body.sole_spelling hnone
  · exact fun _ hnone => Transaction.sole_spelling hnone
  · exact fun _ _ h => Transaction.ofBytes_spelled h

def shoutedMap : SignatureMap :=
  ⟨[⟨.fill 32 1, .fill 64 0xAB⟩]⟩

/-- The map with the digits of its signature in upper case. -/
def shoutedOctets : Bytes :=
  length.encode 1 ++
    (List.replicate 32 1 ++ blob.encode ((List.replicate 64 [0x41, 0x42]).flatten))

theorem spelling_shoutedOctets : SignatureMap.spelling shoutedMap shoutedOctets := by
  refine ⟨[_], .cons ⟨_, _, rfl, ⟨_, ?_, rfl⟩, rfl⟩ .nil, (List.append_nil _).symm⟩
  decide +kernel

theorem canonical_shoutedMap :
    (SignatureMap.codec.decode (shoutedOctets ++ [7]) = .ok (shoutedMap, [7]) ∧
      shoutedOctets ≠ SignatureMap.codec.encode shoutedMap) ∧
    Transaction.nameless.signatures = [] ∧
    exists bs rest again, Transaction.ofBytes bs = .ok Transaction.nameless ∧
      bs = Transaction.codec.encode Transaction.nameless ++ rest ∧
      Transaction.nameless.toBytes = .ok again ∧
      Transaction.ofBytes again = .ok Transaction.nameless := by
  rcases canonical_up_to_case with ⟨⟨_, _, _, hmap, _⟩, _, _, hsole, hread⟩
  have hcount : Countable (SignatureMap.codec.encode shoutedMap) :=
    countable_iff.mpr (by decide +kernel)
  have hyields : SignatureMap.codec.decode.Yields shoutedMap :=
    ⟨_, [], SignatureMap.lossless_codec shoutedMap hcount []⟩
  have hunsigned : Transaction.nameless.signatures = [] := rfl
  rcases hread _ _ Transaction.ofBytes_nameless with ⟨⟨front, rest, hbs, hfront⟩, again, hagain⟩
  refine ⟨⟨hmap.reread _ hyields _ spelling_shoutedOctets [7], by decide +kernel⟩, hunsigned,
    _, rest, again, Transaction.ofBytes_nameless, ?_, hagain⟩
  rw [hsole _ hunsigned front hfront] at hbs
  exact hbs

end LedgerClient
