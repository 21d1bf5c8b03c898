import Mathlib.Data.List.Forall2
import LedgerClient.Transaction.Basic

/-!
# Signing payloads

A key signs the payloads that it has not signed before and leaves the others as they are.
Whether it has signed a payload is decided by the signers of that payload alone.
-/

namespace LedgerClient

namespace SignatureMap

/-- What a list of signers says about a key. -/
def standingAmong (signers : List PublicKey) (key : PublicKey) : Standing :=
  match signers.find? (fun other => other.tag == key.tag) with
  | none => .absent
  | some other => if other = key then .present else .clash

theorem standing_eq (m : SignatureMap) (key : PublicKey) :
    m.standing key = standingAmong m.signers key := by
  have hfind : m.signers.find? (fun other => other.tag == key.tag) =
      (m.pairs.find? (fun p => p.tag == key.tag)).map SignaturePair.publicKey :=
    List.find?_map
  unfold standing standingAmong
  rw [hfind]
  cases m.pairs.find? (fun p => p.tag == key.tag) with
  | none => rfl
  | some p => rfl

theorem standingAmong_eq_absent_iff {signers : List PublicKey} {key : PublicKey} :
    standingAmong signers key = .absent <-> key.tag ∉ signers.map PublicKey.tag := by
  unfold standingAmong
  cases hfind : signers.find? (fun other => other.tag == key.tag) with
  | none =>
      have hmiss := List.find?_eq_none.mp hfind
      constructor
      · intro _ hmem
        rcases List.mem_map.mp hmem with ⟨other, hother, htag⟩
        exact hmiss other hother (beq_iff_eq.mpr htag)
      · intro _
        rfl
  | some other =>
      have hmem := List.mem_of_find?_eq_some hfind
      have htest := List.find?_some hfind
      have htag : other.tag = key.tag := beq_iff_eq.mp htest
      constructor
      · intro habsent
        by_cases hsame : other = key
        · simp [hsame] at habsent
        · simp [hsame] at habsent
      · intro hnone
        exact (hnone (List.mem_map.mpr ⟨other, hmem, htag⟩)).elim

theorem standingAmong_append {signers : List PublicKey} {key : PublicKey}
    (h : standingAmong signers key = .absent) :
    standingAmong (signers ++ [key]) key = .present := by
  have hmiss : signers.find? (fun other => other.tag == key.tag) = none := by
    rw [List.find?_eq_none]
    intro other hother htag
    exact standingAmong_eq_absent_iff.mp h
      (List.mem_map.mpr ⟨other, hother, beq_iff_eq.mp htag⟩)
  unfold standingAmong
  rw [List.find?_append, hmiss]
  simp

theorem contains_iff {m : SignatureMap} {key : PublicKey} :
    m.contains key = true <-> m.standing key = .present := by
  simp [contains]

theorem checkSigner_eq_ok_iff {m : SignatureMap} {key : PublicKey} :
    m.checkSigner key = .ok () <-> m.standing key ≠ .clash := by
  unfold checkSigner
  cases m.standing key with
  | absent => simp
  | present => simp
  | clash => simp

theorem signers_append (pairs : List SignaturePair) (key : PublicKey) (signature : Signature) :
    signers ⟨pairs ++ [⟨key, signature⟩]⟩ = signers ⟨pairs⟩ ++ [key] := by
  simp [signers]

theorem isEmpty_iff {m : SignatureMap} : m.isEmpty = true <-> m.signers = [] := by
  simp [isEmpty, signers, List.isEmpty_iff]

end SignatureMap

/-- What signing with a key makes of a payload. -/
inductive Payload.SignedBy (key : PublicKey) : Payload -> Payload -> Prop where
  | before {p : Payload} : p.signatures.contains key = true -> SignedBy key p p
  | now {p : Payload} (signature : Signature) : p.signatures.contains key = false ->
      SignedBy key p { p with signatures := ⟨p.signatures.pairs ++ [⟨key, signature⟩]⟩ }

namespace Payload

variable {key : PublicKey} {p q : Payload} {payloads signed : List Payload}

theorem SignedBy.node (h : SignedBy key p q) : q.node = p.node := by
  cases h with
  | before _ => rfl
  | now _ _ => rfl

theorem SignedBy.body (h : SignedBy key p q) : q.body = p.body := by
  cases h with
  | before _ => rfl
  | now _ _ => rfl

/-- The signers of a signed payload follow from those it had. -/
theorem SignedBy.signers (h : SignedBy key p q) :
    q.signatures.signers =
      match SignatureMap.standingAmong p.signatures.signers key with
      | .present => p.signatures.signers
      | _ => p.signatures.signers ++ [key] := by
  rw [← SignatureMap.standing_eq]
  cases h with
  | before hcontains => rw [SignatureMap.contains_iff.mp hcontains]
  | now signature hcontains =>
      have hother : p.signatures.standing key ≠ .present := by
        intro hpresent
        rw [SignatureMap.contains_iff.mpr hpresent] at hcontains
        cases hcontains
      have hadded := SignatureMap.signers_append p.signatures.pairs key signature
      cases hstanding : p.signatures.standing key with
      | present => exact (hother hstanding).elim
      | absent => exact hadded
      | clash => exact hadded

/-- Unless another key with the same first octets has signed, the key has signed afterwards. -/
theorem SignedBy.contains (h : SignedBy key p q) (hclash : p.signatures.standing key ≠ .clash) :
    q.signatures.contains key = true := by
  cases h with
  | before hcontains => exact hcontains
  | now signature hcontains =>
      rw [SignatureMap.contains_iff, SignatureMap.standing_eq, SignatureMap.signers_append]
      rw [SignatureMap.standing_eq] at hclash
      have hnew : SignatureMap.standingAmong p.signatures.signers key = .absent := by
        cases hstanding : SignatureMap.standingAmong p.signatures.signers key with
        | absent => rfl
        | clash => exact (hclash hstanding).elim
        | present =>
            rw [← SignatureMap.standing_eq] at hstanding
            rw [SignatureMap.contains_iff.mpr hstanding] at hcontains
            cases hcontains
      exact SignatureMap.standingAmong_append hnew

theorem map_node_of_signed (h : List.Forall₂ (SignedBy key) payloads signed) :
    signed.map Payload.node = payloads.map Payload.node := by
  induction h with
  | nil => rfl
  | cons hfirst _ ih => rw [List.map_cons, List.map_cons, ih, hfirst.node]

theorem exists_of_signed (h : List.Forall₂ (SignedBy key) payloads signed) (hq : q ∈ signed) :
    exists p, p ∈ payloads ∧ SignedBy key p q := by
  induction h with
  | nil => cases hq
  | @cons first _ _ _ hfirst _ ih =>
      rcases List.mem_cons.mp hq with hhead | htail
      · rw [hhead]
        exact ⟨first, List.mem_cons_self, hfirst⟩
      · rcases ih htail with ⟨p, hp, hsigned⟩
        exact ⟨p, List.mem_cons_of_mem first hp, hsigned⟩

end Payload

namespace Transaction

variable {σ : Type} {key : PublicKey} {sign : Bytes → σ → Signature × σ}

theorem checkSigner_eq_ok_iff {payloads : List Payload} :
    checkSigner key payloads = .ok () <->
      forall p, p ∈ payloads -> p.signatures.standing key ≠ .clash := by
  induction payloads with
  | nil => simp [checkSigner]
  | cons p rest ih =>
      rw [List.forall_mem_cons, ← ih, ← SignatureMap.checkSigner_eq_ok_iff, checkSigner]
      cases p.signatures.checkSigner key with
      | error e => simp
      | ok checked =>
          cases checked
          simp

theorem signPayloads_signed (payloads : List Payload) (s : σ) :
    List.Forall₂ (Payload.SignedBy key) payloads (signPayloads key sign payloads s).1 := by
  induction payloads generalizing s with
  | nil => exact .nil
  | cons p rest ih =>
      rw [signPayloads]
      cases hcontains : p.signatures.contains key with
      | true => exact .cons (.before hcontains) (ih s)
      | false => exact .cons (.now (sign p.body s).1 hcontains) (ih (sign p.body s).2)

theorem requireSignable_eq_ok_iff {tx : Transaction} :
    tx.requireSignable = .ok () <-> tx.state = .frozen ∨ tx.state = .signed := by
  unfold requireSignable
  cases tx.state with
  | draft => simp
  | frozen => simp
  | signed => simp
  | executing => simp
  | completed => simp
  | failed => simp

/-- Signing succeeds only in the two states for it and without a clash of keys; it changes the
payloads and the state. -/
theorem signWith_eq_ok {tx signed : Transaction} {s after : σ}
    (h : tx.signWith key sign s = .ok (signed, after)) :
    (tx.state = .frozen ∨ tx.state = .signed) ∧
      (forall p, p ∈ tx.payloads -> p.signatures.standing key ≠ .clash) ∧
      exists payloads, List.Forall₂ (Payload.SignedBy key) tx.payloads payloads ∧
        signed = { tx with payloads := payloads, state := .signed } := by
  unfold signWith at h
  cases hstate : tx.requireSignable with
  | error e =>
      rw [hstate] at h
      cases h
  | ok signable =>
      cases hkeys : checkSigner key tx.payloads with
      | error e =>
          rw [hstate, hkeys] at h
          cases h
      | ok checked =>
          rw [hstate, hkeys] at h
          cases h
          exact ⟨requireSignable_eq_ok_iff.mp hstate, checkSigner_eq_ok_iff.mp hkeys, _,
            signPayloads_signed tx.payloads s, rfl⟩

/-- Signing with a signer is signing with its key and its function. -/
theorem signWith_of_sign {tx signed : Transaction} {signer : Signer}
    (h : tx.sign signer = .ok signed) :
    tx.signWith signer.publicKey (fun body (_ : Unit) => (signer.sign body, ())) () =
      .ok (signed, ()) := by
  unfold Transaction.sign at h
  cases hwith : tx.signWith signer.publicKey (fun body (_ : Unit) => (signer.sign body, ())) () with
  | error e =>
      rw [hwith] at h
      cases h
  | ok done =>
      rw [hwith] at h
      cases h
      rfl

/-- Where there is no payload there is nothing to sign. -/
theorem sign_of_no_payloads {tx : Transaction} (hstate : tx.state = .signed)
    (hnone : tx.payloads = []) (signer : Signer) : tx.sign signer = .ok tx := by
  have hsame : { tx with payloads := [], state := .signed } = tx := by
    rw [← hnone, ← hstate]
  simp only [Transaction.sign, signWith, requireSignable, hstate, hnone, checkSigner, signPayloads]
  exact congrArg Except.ok hsame

end Transaction

end LedgerClient
