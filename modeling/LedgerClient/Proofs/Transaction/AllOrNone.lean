import LedgerClient.Proofs.Transaction.Signing
import LedgerClient.Transaction.Batch

/-!
# Signing all payloads or none

Signing looks at all payloads before it asks for the first signature.  What it looks for is
the only reason for which a payload does not take a signature, so once signing has begun it
comes to its end: every payload carries the key, and each signature was asked for once.

A batch is looked through for the same reason before its first transaction is signed, but
not for transactions that are in no state to be signed.  When signing comes to one of those it
stops, and the transactions before it stay signed.
-/

namespace LedgerClient

namespace SignatureMap

variable {m : SignatureMap} {key : PublicKey}

/-- Where no other key stands in its place, a key is found if it is there. -/
theorem mem_signers_iff_contains (hclash : m.standing key ≠ .clash) :
    key ∈ m.signers <-> m.contains key = true := by
  rw [contains_iff]
  rw [standing_eq] at hclash ⊢
  constructor
  · intro hmem
    cases hstanding : standingAmong m.signers key with
    | present => rfl
    | clash => exact (hclash hstanding).elim
    | absent =>
        exact (standingAmong_eq_absent_iff.mp hstanding (List.mem_map_of_mem hmem)).elim
  · intro hpresent
    unfold standingAmong at hpresent
    cases hfind : m.signers.find? (fun other => other.tag == key.tag) with
    | none =>
        rw [hfind] at hpresent
        cases hpresent
    | some other =>
        have hmem := List.mem_of_find?_eq_some hfind
        by_cases hsame : other = key
        · rwa [hsame] at hmem
        · simp [hfind, hsame] at hpresent

theorem contains_eq_decide (hclash : m.standing key ≠ .clash) :
    m.contains key = decide (key ∈ m.signers) := by
  rw [Bool.eq_iff_iff, decide_eq_true_iff, mem_signers_iff_contains hclash]

theorem standing_ne_clash_of_contains (h : m.contains key = true) : m.standing key ≠ .clash := by
  rw [contains_iff.mp h]
  exact Standing.noConfusion

/-- A map takes the signature of a key that it does not hold, unless there is a clash. -/
theorem insert_of_not_contains (hclash : m.standing key ≠ .clash)
    (hnew : m.contains key = false) (signature : Signature) :
    m.insert key signature = .ok (⟨m.pairs ++ [⟨key, signature⟩]⟩, true) := by
  unfold insert
  cases hstanding : m.standing key with
  | absent => rfl
  | clash => exact (hclash hstanding).elim
  | present =>
      rw [contains_iff.mpr hstanding] at hnew
      cases hnew

theorem checkSigner_eq_error_iff {e : TransactionError} :
    m.checkSigner key = .error e <-> m.standing key = .clash ∧ e = .sharedTag key.tag := by
  unfold checkSigner
  cases m.standing key with
  | absent => simp
  | present => simp
  | clash => simp [eq_comm]

end SignatureMap

namespace Payload

/-- The payload with one more signature behind those it has. -/
def attach (p : Payload) (key : PublicKey) (signature : Signature) : Payload :=
  { p with signatures := ⟨p.signatures.pairs ++ [⟨key, signature⟩]⟩ }

/-- The payloads that do not carry a key. -/
def lacking (key : PublicKey) (payloads : List Payload) : List Payload :=
  payloads.filter fun p => key ∉ p.signatures.signers

end Payload

/-- What becomes of a signing function that is asked to sign some bodies, one after the other. -/
def afterAsking {σ : Type} (sign : Bytes → σ → Signature × σ) (bodies : List Bytes) (s : σ) : σ :=
  bodies.foldl (fun s body => (sign body s).2) s

/-- The same signing function, which notes what it was asked to sign. -/
def withNotes {σ : Type} (sign : Bytes → σ → Signature × σ) (body : Bytes) :
    σ × List Bytes → Signature × σ × List Bytes
  | (s, notes) => ((sign body s).1, (sign body s).2, notes ++ [body])

namespace Transaction

section

variable {σ : Type}

/-!
## Signing in place
-/

/-- Signs the payloads one after the other, up to the first that does not take its signature.  The
payloads before it keep theirs. -/
def signPayloadsInPlace (key : PublicKey) (sign : Bytes → σ → Signature × σ) :
    List Payload → σ → List Payload × σ × Except TransactionError Unit
  | [], s => ([], s, .ok ())
  | p :: rest, s =>
      if p.signatures.contains key then
        let (rest, s, result) := signPayloadsInPlace key sign rest s
        (p :: rest, s, result)
      else
        let (signature, s) := sign p.body s
        match p.signatures.insert key signature with
        | .error e => (p :: rest, s, .error e)
        | .ok (signatures, _) =>
            let (rest, s, result) := signPayloadsInPlace key sign rest s
            ({ p with signatures := signatures } :: rest, s, result)

/-- Signing with all that is left behind when it fails. -/
def signInPlace (tx : Transaction) (key : PublicKey) (sign : Bytes → σ → Signature × σ) (s : σ) :
    Transaction × σ × Except TransactionError Unit :=
  match tx.requireSignable with
  | .error e => (tx, s, .error e)
  | .ok () =>
      match checkSigner key tx.payloads with
      | .error e => (tx, s, .error e)
      | .ok () =>
          match signPayloadsInPlace key sign tx.payloads s with
          | (payloads, s, .error e) => ({ tx with payloads := payloads }, s, .error e)
          | (payloads, s, .ok ()) =>
              ({ tx with payloads := payloads, state := .signed }, s, .ok ())

variable {key : PublicKey} {sign : Bytes → σ → Signature × σ} {tx signed : Transaction}

/-- Without a clash every payload takes its signature. -/
theorem signPayloadsInPlace_eq {payloads : List Payload}
    (hclash : forall p, p ∈ payloads -> p.signatures.standing key ≠ .clash) (s : σ) :
    signPayloadsInPlace key sign payloads s =
      ((signPayloads key sign payloads s).1, (signPayloads key sign payloads s).2, .ok ()) := by
  induction payloads generalizing s with
  | nil => rfl
  | cons p rest ih =>
      rw [List.forall_mem_cons] at hclash
      rw [signPayloadsInPlace, signPayloads]
      cases hcontains : p.signatures.contains key with
      | true => simp only [if_true, ih hclash.right]
      | false =>
          have htaken := SignatureMap.insert_of_not_contains hclash.left hcontains
          simp only [Bool.false_eq_true, if_false, htaken, ih hclash.right]

/-- What fails leaves the transaction as it is and has asked for no signature. -/
theorem signInPlace_eq (tx : Transaction) (key : PublicKey) (sign : Bytes → σ → Signature × σ)
    (s : σ) :
    tx.signInPlace key sign s =
      match tx.signWith key sign s with
      | .error e => (tx, s, .error e)
      | .ok (signed, after) => (signed, after, .ok ()) := by
  unfold signWith signInPlace
  cases tx.requireSignable with
  | error e => rfl
  | ok signable =>
      cases hcheck : checkSigner key tx.payloads with
      | error e => rfl
      | ok checked =>
          simp only [signPayloadsInPlace_eq (checkSigner_eq_ok_iff.mp hcheck)]
          rfl

/-!
## When signing fails
-/

/-- A transaction that a key can sign. -/
structure CanSign (tx : Transaction) (key : PublicKey) : Prop where
  state : tx.state = .frozen ∨ tx.state = .signed
  apart : forall p, p ∈ tx.payloads -> p.signatures.standing key ≠ .clash

/-- What is wrong first, and its error. -/
inductive SignFault (tx : Transaction) (key : PublicKey) : TransactionError -> Prop where
  | draft : tx.state = .draft -> SignFault tx key .notFrozen
  | handed : tx.state ≠ .draft -> tx.state ≠ .frozen -> tx.state ≠ .signed ->
      SignFault tx key (.wrongState .sign tx.state)
  | clash {p : Payload} : tx.state = .frozen ∨ tx.state = .signed -> p ∈ tx.payloads ->
      p.signatures.standing key = .clash -> SignFault tx key (.sharedTag key.tag)

theorem checkSigner_eq_error {payloads : List Payload} {e : TransactionError}
    (h : checkSigner key payloads = .error e) :
    e = .sharedTag key.tag ∧
      exists p, p ∈ payloads ∧ p.signatures.standing key = .clash := by
  induction payloads with
  | nil => cases h
  | cons p rest ih =>
      rw [checkSigner] at h
      cases hfirst : p.signatures.checkSigner key with
      | error cause =>
          rw [hfirst] at h
          cases h
          rcases SignatureMap.checkSigner_eq_error_iff.mp hfirst with ⟨hclash, he⟩
          exact ⟨he, p, List.mem_cons_self, hclash⟩
      | ok checked =>
          rw [hfirst] at h
          rcases ih h with ⟨he, q, hq, hclash⟩
          exact ⟨he, q, List.mem_cons_of_mem p hq, hclash⟩

theorem requireSignable_eq_error {e : TransactionError} (h : tx.requireSignable = .error e) :
    tx.SignFault key e := by
  have hhanded : forall state, tx.state = state -> state ≠ .draft -> state ≠ .frozen ->
      state ≠ .signed -> tx.SignFault key (.wrongState .sign state) := by
    intro state hstate hdraft hfrozen hsigned
    rw [← hstate] at hdraft hfrozen hsigned ⊢
    exact .handed hdraft hfrozen hsigned
  unfold requireSignable at h
  cases hstate : tx.state with
  | draft =>
      rw [hstate] at h
      cases h
      exact .draft hstate
  | frozen | signed =>
      rw [hstate] at h
      cases h
  | executing | completed | failed =>
      rw [hstate] at h
      cases h
      exact hhanded _ hstate (by decide) (by decide) (by decide)

theorem signFault_of_signWith {s : σ} {e : TransactionError}
    (h : tx.signWith key sign s = .error e) : tx.SignFault key e := by
  unfold signWith at h
  cases hstate : tx.requireSignable with
  | error cause =>
      rw [hstate] at h
      cases h
      exact requireSignable_eq_error hstate
  | ok signable =>
      cases hcheck : checkSigner key tx.payloads with
      | error cause =>
          rw [hstate, hcheck] at h
          cases h
          rcases checkSigner_eq_error hcheck with ⟨he, p, hp, hclash⟩
          rw [he]
          exact .clash (requireSignable_eq_ok_iff.mp hstate) hp hclash
      | ok checked =>
          rw [hstate, hcheck] at h
          cases h

theorem CanSign.signWith_eq (h : tx.CanSign key) (sign : Bytes → σ → Signature × σ) (s : σ) :
    tx.signWith key sign s =
      .ok ({ tx with payloads := (signPayloads key sign tx.payloads s).1, state := .signed },
        (signPayloads key sign tx.payloads s).2) := by
  unfold signWith
  rw [requireSignable_eq_ok_iff.mpr h.state, checkSigner_eq_ok_iff.mpr h.apart]
  rfl

theorem CanSign.signInPlace_eq (h : tx.CanSign key) (sign : Bytes → σ → Signature × σ) (s : σ) :
    tx.signInPlace key sign s =
      ({ tx with payloads := (signPayloads key sign tx.payloads s).1, state := .signed },
        (signPayloads key sign tx.payloads s).2, .ok ()) := by
  rw [tx.signInPlace_eq key sign s, h.signWith_eq]

/-!
## What signing does
-/

/-- A payload that carries the key stays as it is.  Another one gets what the signing function
answers when it is asked for this payload after those before it. -/
theorem getElem?_signPayloads {payloads : List Payload}
    (hclash : forall p, p ∈ payloads -> p.signatures.standing key ≠ .clash) (s : σ) (i : Nat) :
    (signPayloads key sign payloads s).1[i]? =
      payloads[i]?.map fun p =>
        if key ∈ p.signatures.signers then p
        else
          let asked := (Payload.lacking key (payloads.take i)).map Payload.body
          p.attach key (sign p.body (afterAsking sign asked s)).1 := by
  induction payloads generalizing s i with
  | nil => rfl
  | cons p rest ih =>
      rw [List.forall_mem_cons] at hclash
      rw [signPayloads, SignatureMap.contains_eq_decide hclash.left]
      by_cases hmem : key ∈ p.signatures.signers
      · cases i with
        | zero => simp [hmem]
        | succ i => simp [hmem, ih hclash.right, Payload.lacking]
      · cases i with
        | zero => simp [hmem, Payload.attach, Payload.lacking, afterAsking]
        | succ i => simp [hmem, ih hclash.right, Payload.lacking, afterAsking]

theorem signPayloads_snd {payloads : List Payload}
    (hclash : forall p, p ∈ payloads -> p.signatures.standing key ≠ .clash) (s : σ) :
    (signPayloads key sign payloads s).2 =
      afterAsking sign ((Payload.lacking key payloads).map Payload.body) s := by
  induction payloads generalizing s with
  | nil => rfl
  | cons p rest ih =>
      rw [List.forall_mem_cons] at hclash
      rw [signPayloads, SignatureMap.contains_eq_decide hclash.left]
      by_cases hmem : key ∈ p.signatures.signers
      · simp [hmem, ih hclash.right, Payload.lacking]
      · simp [hmem, ih hclash.right, Payload.lacking, afterAsking]

theorem signPayloads_of_contains {payloads : List Payload}
    (h : forall p, p ∈ payloads -> p.signatures.contains key = true) (s : σ) :
    signPayloads key sign payloads s = (payloads, s) := by
  induction payloads with
  | nil => rfl
  | cons p rest ih =>
      rw [List.forall_mem_cons] at h
      simp [signPayloads, h.left, ih h.right]

theorem signPayloads_withNotes (payloads : List Payload) (s : σ) (notes : List Bytes) :
    signPayloads key (withNotes sign) payloads (s, notes) =
      ((signPayloads key sign payloads s).1, (signPayloads key sign payloads s).2,
        notes ++ (payloads.filter fun p => !p.signatures.contains key).map Payload.body) := by
  induction payloads generalizing s notes with
  | nil => simp [signPayloads]
  | cons p rest ih =>
      rw [signPayloads, signPayloads]
      cases hcontains : p.signatures.contains key with
      | true => simp [ih, hcontains]
      | false => simp [ih, hcontains, withNotes]

theorem filter_not_contains {payloads : List Payload}
    (hclash : forall p, p ∈ payloads -> p.signatures.standing key ≠ .clash) :
    (payloads.filter fun p => !p.signatures.contains key) = Payload.lacking key payloads := by
  apply List.filter_congr
  intro p hp
  rw [SignatureMap.contains_eq_decide (hclash p hp), decide_not]

/-- A transaction signed by a key: the key stands behind the signatures that each payload had,
unless it is one of those.  The signing function was asked for the other payloads, once for each
and in order. -/
structure SignsTo (key : PublicKey) (sign : Bytes → σ → Signature × σ) (tx : Transaction) (s : σ)
    (signed : Transaction) (after : σ) : Prop where
  state : signed.state = .signed
  fields : signed = { tx with payloads := signed.payloads, state := signed.state }
  count : signed.payloads.length = tx.payloads.length
  carried : forall (i : Nat) (p : Payload), tx.payloads[i]? = some p ->
    key ∈ p.signatures.signers -> signed.payloads[i]? = some p
  attached : forall (i : Nat) (p : Payload), tx.payloads[i]? = some p ->
    key ∉ p.signatures.signers ->
      let asked := (Payload.lacking key (tx.payloads.take i)).map Payload.body
      signed.payloads[i]? = some (p.attach key (sign p.body (afterAsking sign asked s)).1)
  asked : after = afterAsking sign ((Payload.lacking key tx.payloads).map Payload.body) s
  noted : forall notes : List Bytes,
    tx.signInPlace key (withNotes sign) (s, notes) =
      (signed, (after, notes ++ (Payload.lacking key tx.payloads).map Payload.body), .ok ())
  contains : forall p, p ∈ signed.payloads -> p.signatures.contains key = true
  /-- Whatever function signs for the key the next time, it is not asked. -/
  again : forall {τ : Type} (other : Bytes → τ → Signature × τ) (t : τ),
    signed.signInPlace key other t = (signed, t, .ok ())

theorem signInPlace_of_contains (hstate : tx.state = .signed)
    (h : forall p, p ∈ tx.payloads -> p.signatures.contains key = true) (s : σ) :
    tx.signInPlace key sign s = (tx, s, .ok ()) := by
  have hcan : tx.CanSign key :=
    ⟨Or.inr hstate, fun p hp => SignatureMap.standing_ne_clash_of_contains (h p hp)⟩
  have hsame : { tx with payloads := tx.payloads, state := .signed } = tx := by rw [← hstate]
  rw [hcan.signInPlace_eq, signPayloads_of_contains h, hsame]

theorem CanSign.signsTo (h : tx.CanSign key) (sign : Bytes → σ → Signature × σ) (s : σ) :
    tx.SignsTo key sign s
      { tx with payloads := (signPayloads key sign tx.payloads s).1, state := .signed }
      (signPayloads key sign tx.payloads s).2 := by
  have hcontains : forall q, q ∈ (signPayloads key sign tx.payloads s).1 ->
      q.signatures.contains key = true := by
    intro q hq
    rcases Payload.exists_of_signed (signPayloads_signed tx.payloads s) hq with ⟨p, hp, hpq⟩
    exact hpq.contains (h.apart p hp)
  constructor
  case state => rfl
  case fields => rfl
  case count => exact (signPayloads_signed tx.payloads s).length_eq.symm
  case carried =>
    intro i p hp hmem
    rw [getElem?_signPayloads h.apart, hp, Option.map_some, if_pos hmem]
  case attached =>
    intro i p hp hmem
    rw [getElem?_signPayloads h.apart, hp, Option.map_some, if_neg hmem]
  case asked => exact signPayloads_snd h.apart s
  case noted =>
    intro notes
    rw [h.signInPlace_eq, signPayloads_withNotes, filter_not_contains h.apart]
  case contains => exact hcontains
  case again => exact fun other t => signInPlace_of_contains rfl hcontains t

theorem SignsTo.isSignedBy {s after : σ} (h : tx.SignsTo key sign s signed after)
    (hpayloads : tx.payloads ≠ []) : signed.isSignedBy key = true := by
  have hsome : signed.payloads ≠ [] := by
    intro hnone
    have hcount := h.count
    rw [hnone] at hcount
    exact hpayloads (List.eq_nil_of_length_eq_zero hcount.symm)
  have hall : signed.payloads.all (fun p => p.signatures.contains key) = true :=
    List.all_eq_true.mpr h.contains
  simp [Transaction.isSignedBy, hall, hsome]

theorem signWith_cases (tx : Transaction) (key : PublicKey) (sign : Bytes → σ → Signature × σ)
    (s : σ) :
    (exists e, tx.SignFault key e ∧ tx.signWith key sign s = .error e) ∨
      exists signed after, tx.CanSign key ∧ tx.signWith key sign s = .ok (signed, after) ∧
        tx.SignsTo key sign s signed after := by
  cases hwith : tx.signWith key sign s with
  | error e => exact Or.inl ⟨e, signFault_of_signWith hwith, rfl⟩
  | ok done =>
      rcases done with ⟨signed, after⟩
      rcases signWith_eq_ok hwith with ⟨hstate, hclash, _⟩
      have hcan : tx.CanSign key := ⟨hstate, hclash⟩
      rw [hcan.signWith_eq] at hwith
      cases hwith
      exact Or.inr ⟨_, _, hcan, rfl, hcan.signsTo sign s⟩

/-- Either something is wrong, and then the transaction stays as it is and no signature is asked
for, or the key signs each payload that does not carry it. -/
theorem signs_all_or_none (tx : Transaction) (key : PublicKey) (sign : Bytes → σ → Signature × σ)
    (s : σ) :
    (exists e, tx.SignFault key e ∧ tx.signWith key sign s = .error e ∧
        tx.signInPlace key sign s = (tx, s, .error e)) ∨
      exists signed after, tx.CanSign key ∧ tx.signWith key sign s = .ok (signed, after) ∧
        tx.signInPlace key sign s = (signed, after, .ok ()) ∧
        tx.SignsTo key sign s signed after ∧
        (tx.payloads ≠ [] -> signed.isSignedBy key = true) := by
  rcases tx.signWith_cases key sign s with
    ⟨e, hfault, hwith⟩ | ⟨signed, after, hcan, hwith, hsignsTo⟩
  · left
    have hplace := tx.signInPlace_eq key sign s
    rw [hwith] at hplace
    exact ⟨e, hfault, hwith, hplace⟩
  · right
    have hplace := tx.signInPlace_eq key sign s
    rw [hwith] at hplace
    exact ⟨signed, after, hcan, hwith, hplace, hsignsTo, hsignsTo.isSignedBy⟩

end

end Transaction

/-!
## Batches
-/

namespace Batch

open Transaction

variable {σ : Type} {key : PublicKey} {sign : Bytes → σ → Signature × σ}

/-- The transaction was signed by the key, in some state of the signing function. -/
def SignedFrom (key : PublicKey) (sign : Bytes → σ → Signature × σ)
    (tx signed : Transaction) : Prop :=
  exists s after, tx.SignsTo key sign s signed after

/-- Signing gets to the end, or to the first transaction that cannot be signed. -/
theorem signEach_cases (key : PublicKey) (sign : Bytes → σ → Signature × σ)
    (txs : List Transaction) (s : σ) :
    (exists signed after, signEach key sign txs s = (signed, after, .ok ()) ∧
        List.Forall₂ (SignedFrom key sign) txs signed) ∨
      exists front tx rest signed after e, txs = front ++ tx :: rest ∧ tx.SignFault key e ∧
        signEach key sign txs s = (signed ++ tx :: rest, after, .error e) ∧
        List.Forall₂ (SignedFrom key sign) front signed ∧ (front = [] -> after = s) := by
  induction txs generalizing s with
  | nil => exact Or.inl ⟨[], s, rfl, .nil⟩
  | cons tx rest ih =>
      rw [signEach]
      rcases tx.signWith_cases key sign s with
        ⟨e, hfault, hwith⟩ | ⟨made, next, _, hwith, hsignsTo⟩
      · rw [hwith]
        exact Or.inr ⟨[], tx, rest, [], s, e, rfl, hfault, rfl, .nil, fun _ => rfl⟩
      · rw [hwith]
        dsimp only
        have hmade : SignedFrom key sign tx made := ⟨s, next, hsignsTo⟩
        rcases ih next with ⟨signed, after, heach, hsigned⟩ |
          ⟨front, stop, others, signed, after, e, hrest, hfault, heach, hsigned, _⟩
        · rw [heach]
          exact Or.inl ⟨made :: signed, after, rfl, .cons hmade hsigned⟩
        · rw [heach]
          refine Or.inr ⟨tx :: front, stop, others, made :: signed, after, e, ?_, hfault, rfl,
            .cons hmade hsigned, fun hnone => (List.cons_ne_nil tx front hnone).elim⟩
          rw [hrest, List.cons_append]

theorem signWith_cases (b : Batch) (key : PublicKey) (sign : Bytes → σ → Signature × σ) (s : σ) :
    b.signWith key sign s = (b, s, .error (.sharedTag key.tag)) ∨
      (forall tx, tx ∈ b.transactions -> forall p, p ∈ tx.payloads ->
        p.signatures.standing key ≠ .clash) ∧
      b.signWith key sign s =
        (⟨(signEach key sign b.transactions s).1⟩, (signEach key sign b.transactions s).2) := by
  unfold Batch.signWith
  cases hcheck : Transaction.checkSigner key (b.transactions.flatMap Transaction.payloads) with
  | error e =>
      rcases checkSigner_eq_error hcheck with ⟨he, _⟩
      rw [he]
      exact Or.inl rfl
  | ok checked =>
      have hclash := checkSigner_eq_ok_iff.mp hcheck
      exact Or.inr ⟨fun tx htx p hp => hclash p (List.mem_flatMap.mpr ⟨tx, htx, hp⟩), rfl⟩

/-- What is left of a batch that could not be signed: itself, or the batch with the transactions
signed that stand before one in no state to be signed. -/
theorem signWith_eq_error {b : Batch} {s : σ} {e : TransactionError}
    (h : (b.signWith key sign s).2.2 = .error e) :
    b.signWith key sign s = (b, s, .error e) ∨
      exists front tx rest signed, b.transactions = front ++ tx :: rest ∧ front ≠ [] ∧
        tx.state ≠ .frozen ∧ tx.state ≠ .signed ∧ tx.SignFault key e ∧
        List.Forall₂ (SignedFrom key sign) front signed ∧
        (b.signWith key sign s).1.transactions = signed ++ tx :: rest := by
  rcases b.signWith_cases key sign s with hrefused | ⟨hclash, hwith⟩
  · rw [hrefused] at h ⊢
    cases h
    exact Or.inl rfl
  · rcases signEach_cases key sign b.transactions s with ⟨_, _, heach, _⟩ |
      ⟨front, tx, rest, signed, after, cause, hsplit, hfault, heach, hsigned, hafter⟩
    · rw [hwith, heach] at h
      cases h
    · rw [hwith, heach] at h ⊢
      cases h
      cases front with
      | nil =>
          cases hsigned
          rw [hafter rfl]
          refine Or.inl (Prod.ext ?_ rfl)
          exact Batch.ext hsplit.symm
      | cons first others =>
          have htx : tx ∈ b.transactions := by simp [hsplit]
          have hstate : tx.state ≠ .frozen ∧ tx.state ≠ .signed := by
            cases hfault with
            | draft hdraft => simp [hdraft]
            | handed _ hfrozen hsigned => exact ⟨hfrozen, hsigned⟩
            | clash _ hp hshared => exact (hclash tx htx _ hp hshared).elim
          exact Or.inr ⟨first :: others, tx, rest, signed, hsplit, List.cons_ne_nil first others,
            hstate.left, hstate.right, hfault, hsigned, rfl⟩

theorem signWith_eq_ok {b : Batch} {s : σ} (h : (b.signWith key sign s).2.2 = .ok ()) :
    List.Forall₂ (SignedFrom key sign) b.transactions (b.signWith key sign s).1.transactions := by
  rcases b.signWith_cases key sign s with hrefused | ⟨_, hwith⟩
  · rw [hrefused] at h
    cases h
  · rcases signEach_cases key sign b.transactions s with ⟨signed, after, heach, hsigned⟩ |
      ⟨_, _, _, _, _, _, _, _, heach, _⟩
    · rw [hwith, heach]
      exact hsigned
    · rw [hwith, heach] at h
      cases h

/-- Signing a batch signs all of it or, if each of its transactions is in a state to be signed, none
of it.  Otherwise it may stop at one that is not, behind others that it has signed. -/
theorem signed_up_to_unsignable (b : Batch) (key : PublicKey) (sign : Bytes → σ → Signature × σ)
    (s : σ) :
    ((b.signWith key sign s).2.2 = .ok () ->
      List.Forall₂ (SignedFrom key sign) b.transactions
        (b.signWith key sign s).1.transactions) ∧
    ((forall tx, tx ∈ b.transactions -> tx.state = .frozen ∨ tx.state = .signed) ->
      forall e, (b.signWith key sign s).2.2 = .error e ->
        b.signWith key sign s = (b, s, .error e)) ∧
    forall e, (b.signWith key sign s).2.2 = .error e ->
      b.signWith key sign s = (b, s, .error e) ∨
        exists front tx rest signed, b.transactions = front ++ tx :: rest ∧ front ≠ [] ∧
          tx.state ≠ .frozen ∧ tx.state ≠ .signed ∧ tx.SignFault key e ∧
          List.Forall₂ (SignedFrom key sign) front signed ∧
          (b.signWith key sign s).1.transactions = signed ++ tx :: rest := by
  refine ⟨signWith_eq_ok, ?_, fun e => signWith_eq_error⟩
  intro hstates e h
  rcases signWith_eq_error h with hsame |
    ⟨front, tx, rest, signed, hsplit, _, hfrozen, hsigned, _⟩
  · exact hsame
  · rcases hstates tx (by simp [hsplit]) with hstate | hstate
    · exact (hfrozen hstate).elim
    · exact (hsigned hstate).elim

def transferDraft : Transaction :=
  { new (.transfer (some ⟨.fill 32 7⟩) 5) with id := some (.new ⟨.fill 32 1⟩ 1000) }

/-- Two transfers that a key has signed. -/
def twoSigned : Batch :=
  (Batch.sign ⟨List.replicate 2 (transferDraft.freezeWith [⟨3⟩]).1⟩
    ⟨.fill 32 1, fun _ => .fill 64 2⟩).1

/-- Another key with the first octets of that one signs neither of them. -/
theorem shared_tag_signs_nothing :
    exists key : PublicKey,
      (forall tx, tx ∈ twoSigned.transactions -> tx.state = .frozen ∨ tx.state = .signed) ∧
      twoSigned.signWith key (fun _ asked => (.fill 64 3, asked + 1)) 0 =
        (twoSigned, 0, .error (.sharedTag [1, 1, 1, 1, 1, 1])) := by
  have hsigned : forall tx, tx ∈ twoSigned.transactions ->
      tx.state = .frozen ∨ tx.state = .signed := by
    decide +kernel
  refine ⟨⟨List.replicate 6 1 ++ List.replicate 26 9, rfl⟩, hsigned, ?_⟩
  exact (signed_up_to_unsignable twoSigned _ _ 0).right.left hsigned _ (by decide +kernel)

/-- A frozen transfer and a draft. -/
def halfFrozen : Batch :=
  ⟨[(transferDraft.freezeWith [⟨3⟩]).1, transferDraft]⟩

/-- The draft cannot be signed, and the transfer before it is signed all the same. -/
theorem transfer_signed_before_draft :
    let signer : Signer := ⟨.fill 32 1, fun _ => .fill 64 2⟩
    (halfFrozen.sign signer).2 = .error .notFrozen ∧
      halfFrozen.transactions.map Transaction.state = [.frozen, .draft] ∧
      (halfFrozen.sign signer).1.transactions.map Transaction.state = [.signed, .draft] ∧
      (halfFrozen.sign signer).1 ≠ halfFrozen := by
  decide +kernel

end Batch

end LedgerClient
