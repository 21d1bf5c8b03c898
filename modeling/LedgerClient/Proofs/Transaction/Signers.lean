import LedgerClient.Proofs.Transaction.AllOrNone
import LedgerClient.Proofs.Transaction.Reading
import LedgerClient.Proofs.Transaction.SigningOrder

/-!
# Signers of a map

A map is asked for a signer in two ways: by the first octets of the key, where the first pair
decides, and by the whole key.  The two agree as long as no two signers share their first octets.
Adding signatures keeps it so, and reading a map from octets is followed by a check of it.
-/

namespace LedgerClient

namespace SignatureMap

variable {m : SignatureMap} {key : PublicKey} {signature : Signature}

/-- No two signers share their first octets. -/
def TellsApart (m : SignatureMap) : Prop :=
  (m.signers.map PublicKey.tag).Nodup

/-!
## The two ways to find a signer
-/

theorem isSome_get?_iff : (m.get? key).isSome = true <-> key ∈ m.signers := by
  simp [get?, signers]

theorem standing_eq_absent_iff :
    m.standing key = .absent <-> key.tag ∉ m.signers.map PublicKey.tag := by
  rw [standing_eq, standingAmong_eq_absent_iff]

theorem TellsApart.standing_eq_present_iff (h : m.TellsApart) :
    m.standing key = .present <-> key ∈ m.signers := by
  constructor
  · intro hpresent
    have hclash : m.standing key ≠ .clash := by
      rw [hpresent]
      exact Standing.noConfusion
    exact (mem_signers_iff_contains hclash).mpr (contains_iff.mpr hpresent)
  · intro hmem
    have hclash : m.standing key ≠ .clash :=
      standing_ne_clash fun _ hother htag => List.inj_on_of_nodup_map h hother hmem htag
    exact contains_iff.mp ((mem_signers_iff_contains hclash).mp hmem)

theorem TellsApart.standing_eq_clash_iff (h : m.TellsApart) :
    m.standing key = .clash <->
      exists other, other ∈ m.signers ∧ other.tag = key.tag ∧ other ≠ key := by
  constructor
  · intro hclash
    have hpresent : key ∉ m.signers := by
      rw [← h.standing_eq_present_iff, hclash]
      exact Standing.noConfusion
    have htaken : key.tag ∈ m.signers.map PublicKey.tag := by
      by_contra hfree
      rw [standing_eq_absent_iff.mpr hfree] at hclash
      cases hclash
    rcases List.mem_map.mp htaken with ⟨other, hother, htag⟩
    exact ⟨other, hother, htag, fun hsame => hpresent (hsame ▸ hother)⟩
  · rintro ⟨other, hother, htag, hdifferent⟩
    cases hstanding : m.standing key with
    | clash => rfl
    | absent =>
        exact (standing_eq_absent_iff.mp hstanding (List.mem_map.mpr ⟨other, hother, htag⟩)).elim
    | present =>
        have hmem := h.standing_eq_present_iff.mp hstanding
        exact (hdifferent (List.inj_on_of_nodup_map h hother hmem htag)).elim

theorem TellsApart.contains_eq (h : m.TellsApart) (key : PublicKey) :
    m.contains key = (m.get? key).isSome := by
  rw [Bool.eq_iff_iff, contains_iff, isSome_get?_iff, h.standing_eq_present_iff]

/-!
## Adding signatures
-/

/-- What comes of adding a signature to a map. -/
inductive Takes (m : SignatureMap) (key : PublicKey) (signature : Signature) :
    Except TransactionError (SignatureMap × Bool) -> Prop where
  | added : key.tag ∉ m.signers.map PublicKey.tag ->
      Takes m key signature (.ok (⟨m.pairs ++ [⟨key, signature⟩]⟩, true))
  | known : key ∈ m.signers -> Takes m key signature (.ok (m, false))
  | clash {other : PublicKey} : other ∈ m.signers -> other.tag = key.tag -> other ≠ key ->
      Takes m key signature (.error (.sharedTag key.tag))

theorem TellsApart.insert_eq_iff (h : m.TellsApart)
    {result : Except TransactionError (SignatureMap × Bool)} :
    m.insert key signature = result <-> m.Takes key signature result := by
  unfold insert
  constructor
  · intro hresult
    rw [← hresult]
    cases hstanding : m.standing key with
    | absent => exact .added (standing_eq_absent_iff.mp hstanding)
    | present => exact .known (h.standing_eq_present_iff.mp hstanding)
    | clash =>
        rcases h.standing_eq_clash_iff.mp hstanding with ⟨other, hother, htag, hdifferent⟩
        exact .clash hother htag hdifferent
  · intro htakes
    cases htakes with
    | added hfree => rw [standing_eq_absent_iff.mpr hfree]
    | known hmem => rw [h.standing_eq_present_iff.mpr hmem]
    | clash hother htag hdifferent =>
        rw [h.standing_eq_clash_iff.mpr ⟨_, hother, htag, hdifferent⟩]

/-- The map after a signature was added to it; one that is refused leaves it as it was. -/
def offer (m : SignatureMap) (pair : SignaturePair) : SignatureMap :=
  match m.insert pair.publicKey pair.signature with
  | .ok (after, _) => after
  | .error _ => m

def offerAll (m : SignatureMap) (pairs : List SignaturePair) : SignatureMap :=
  pairs.foldl offer m

theorem tellsApart_empty : empty.TellsApart :=
  List.nodup_nil

theorem TellsApart.offer (h : m.TellsApart) (pair : SignaturePair) :
    (m.offer pair).TellsApart := by
  unfold SignatureMap.offer
  cases hresult : m.insert pair.publicKey pair.signature with
  | error e => exact h
  | ok done =>
      cases h.insert_eq_iff.mp hresult with
      | known _ => exact h
      | added hfree =>
          show ((signers _).map PublicKey.tag).Nodup
          rw [signers_append, List.map_append, List.nodup_append]
          refine ⟨h, List.nodup_singleton _, ?_⟩
          intro tag htag other hother hsame
          rw [List.map_singleton, List.mem_singleton] at hother
          exact hfree (hother ▸ hsame ▸ htag)

theorem TellsApart.offerAll (h : m.TellsApart) (pairs : List SignaturePair) :
    (m.offerAll pairs).TellsApart := by
  induction pairs generalizing m with
  | nil => exact h
  | cons pair rest ih => exact ih (h.offer pair)

/-- What is in a map stays in it, in its place. -/
theorem offer_extends (m : SignatureMap) (pair : SignaturePair) :
    m.pairs <+: (m.offer pair).pairs := by
  unfold offer insert
  cases m.standing pair.publicKey with
  | absent => exact List.prefix_append _ _
  | present => exact List.prefix_refl _
  | clash => exact List.prefix_refl _

theorem offerAll_extends (m : SignatureMap) (pairs : List SignaturePair) :
    m.pairs <+: (m.offerAll pairs).pairs := by
  induction pairs generalizing m with
  | nil => exact List.prefix_refl _
  | cons pair rest ih => exact (offer_extends m pair).trans (ih (m.offer pair))

end SignatureMap

open SignatureMap in
/-- A map that grows from nothing tells its signers apart, whatever was offered to it, and a map
that was read does so if it is valid.  Then a signer is found by the first octets if and only if the
whole key is there; and what comes of adding a signature depends on whether the first octets, the
key, or the first octets of another key are there. -/
theorem signers_told_apart :
    (forall offers : List SignaturePair,
      (empty.offerAll offers).TellsApart ∧ (empty.offerAll offers).validate = .ok () ∧
        (forall key, (empty.offerAll offers).contains key =
          ((empty.offerAll offers).get? key).isSome) ∧
        (forall key signature result,
          (empty.offerAll offers).insert key signature = result <->
            (empty.offerAll offers).Takes key signature result) ∧
        forall more : List SignaturePair,
          (empty.offerAll offers).pairs <+: (empty.offerAll (offers ++ more)).pairs) ∧
      forall m : SignatureMap, (m.validate = .ok () <-> m.TellsApart) ∧
        (m.validate = .ok () -> forall key, m.contains key = (m.get? key).isSome) := by
  constructor
  · intro offers
    have hapart := tellsApart_empty.offerAll offers
    refine ⟨hapart, validate_eq_ok_iff.mpr hapart, hapart.contains_eq, ?_, ?_⟩
    · exact fun key signature result => hapart.insert_eq_iff
    · intro more
      rw [offerAll, offerAll, List.foldl_append]
      exact offerAll_extends _ more
  · intro m
    exact ⟨validate_eq_ok_iff, fun hvalid => TellsApart.contains_eq (validate_eq_ok_iff.mp hvalid)⟩

/-- Four signatures: by a key, by another key with the same first octets, by the first key again,
and by a third key. -/
def fourOffers : List SignaturePair :=
  [⟨.fill 32 1, .fill 64 11⟩, ⟨⟨List.replicate 6 1 ++ List.replicate 26 9, rfl⟩, .fill 64 12⟩,
    ⟨.fill 32 1, .fill 64 13⟩, ⟨.fill 32 2, .fill 64 14⟩]

/-- The first signature and that of the third key are taken, and the map they make is valid; so each
key is found by its first octets if and only if it is there. -/
theorem fourOffers_told_apart :
    (SignatureMap.empty.offerAll fourOffers).pairs = [fourOffers[0], fourOffers[3]] ∧
      (SignatureMap.empty.offerAll fourOffers).validate = .ok () ∧
      forall key, (SignatureMap.empty.offerAll fourOffers).contains key =
        ((SignatureMap.empty.offerAll fourOffers).get? key).isSome := by
  have hvalid : (SignatureMap.empty.offerAll fourOffers).validate = .ok () := by decide +kernel
  exact ⟨by decide +kernel, hvalid, (signers_told_apart.right _).right hvalid⟩

end LedgerClient
