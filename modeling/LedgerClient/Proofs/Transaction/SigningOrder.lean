import Mathlib.Data.List.Perm.Basic
import LedgerClient.Proofs.Transaction.AllOrNone
import LedgerClient.Proofs.Transaction.Growth
import LedgerClient.Proofs.Transaction.Reachable

/-!
# The order of signing

Signers sign a payload one after the other, and a signer who has signed already adds nothing.
So what a payload ends up with is decided by who signs it and not by when or how often, as
long as no two of the signers, nor a signer and a key that was there before, are told apart by
less than their first octets.  Only the order of the signatures is that of signing.
-/

namespace LedgerClient

theorem find?_append_of_perm {α : Type} {test : α → Bool} {front as bs : List α}
    (hperm : as.Perm bs)
    (hone : forall a b, a ∈ as -> b ∈ as -> test a = true -> test b = true -> a = b) :
    (front ++ as).find? test = (front ++ bs).find? test := by
  have hback : as.find? test = bs.find? test := by
    cases has : as.find? test with
    | none =>
        rw [List.find?_eq_none] at has
        symm
        rw [List.find?_eq_none]
        exact fun b hb => has b (hperm.mem_iff.mpr hb)
    | some a =>
        have ha := List.mem_of_find?_eq_some has
        cases hbs : bs.find? test with
        | none =>
            exact (List.find?_eq_none.mp hbs a (hperm.mem_iff.mp ha) (List.find?_some has)).elim
        | some b =>
            have hb := hperm.mem_iff.mpr (List.mem_of_find?_eq_some hbs)
            rw [hone a b ha hb (List.find?_some has) (List.find?_some hbs)]
  rw [List.find?_append, List.find?_append, hback]

namespace SignatureMap

theorem standing_ne_clash {m : SignatureMap} {key : PublicKey}
    (h : forall other, other ∈ m.signers -> other.tag = key.tag -> other = key) :
    m.standing key ≠ .clash := by
  rw [standing_eq]
  unfold standingAmong
  cases hfind : m.signers.find? (fun other => other.tag == key.tag) with
  | none => exact Standing.noConfusion
  | some other =>
      have htest := List.find?_some hfind
      have htag : other.tag = key.tag := beq_iff_eq.mp htest
      rw [h other (List.mem_of_find?_eq_some hfind) htag]
      simp

end SignatureMap

/-- Signers whose signatures depend on nothing but the key and the body, and whose keys are the same
or differ in their first octets. -/
structure Signer.Concordant (signers : List Signer) : Prop where
  alike : forall x y, x ∈ signers -> y ∈ signers -> x.publicKey = y.publicKey -> x.sign = y.sign
  apart : forall x y, x ∈ signers -> y ∈ signers -> x.publicKey.tag = y.publicKey.tag ->
    x.publicKey = y.publicKey

theorem Signer.concordant_of_nodup {signers : List Signer}
    (h : (signers.map fun x => x.publicKey.tag).Nodup) : Signer.Concordant signers := by
  have hone : forall x y, x ∈ signers -> y ∈ signers -> x.publicKey.tag = y.publicKey.tag ->
      x = y := fun _ _ hx hy htag => List.inj_on_of_nodup_map h hx hy htag
  constructor
  case alike =>
    intro x y hx hy hkey
    rw [hone x y hx hy (by rw [hkey])]
  case apart =>
    intro x y hx hy htag
    rw [hone x y hx hy htag]

namespace Payload

/-- No signer comes with the first octets of another key that has signed. -/
def Admits (p : Payload) (signers : List Signer) : Prop :=
  forall x, x ∈ signers -> forall other, other ∈ p.signatures.signers ->
    other.tag = x.publicKey.tag -> other = x.publicKey

/-- The payload after a signer has signed it. -/
def countersign (p : Payload) (signer : Signer) : Payload :=
  if p.signatures.signers.contains signer.publicKey then p
  else p.attach signer.publicKey (signer.sign p.body)

def countersignAll (signers : List Signer) (p : Payload) : Payload :=
  signers.foldl countersign p

/-- Payloads for one node with one body, and with the same signatures in some order. -/
structure Agrees (p q : Payload) : Prop where
  node : q.node = p.node
  body : q.body = p.body
  signatures : p.signatures.pairs.Perm q.signatures.pairs
  get? : forall key, q.signatures.get? key = p.signatures.get? key
  contains : forall key, q.signatures.contains key = p.signatures.contains key

variable {p : Payload} {signers : List Signer} {x : Signer}

theorem signers_attach (p : Payload) (key : PublicKey) (signature : Signature) :
    (p.attach key signature).signatures.signers = p.signatures.signers ++ [key] :=
  SignatureMap.signers_append p.signatures.pairs key signature

theorem countersign_of_mem (h : x.publicKey ∈ p.signatures.signers) : p.countersign x = p :=
  if_pos (List.contains_iff_mem.mpr h)

theorem countersign_of_not_mem (h : x.publicKey ∉ p.signatures.signers) :
    p.countersign x = p.attach x.publicKey (x.sign p.body) :=
  if_neg fun hcontains => h (List.contains_iff_mem.mp hcontains)

theorem Admits.standing (h : p.Admits signers) (hx : x ∈ signers) :
    p.signatures.standing x.publicKey ≠ .clash :=
  SignatureMap.standing_ne_clash (h x hx)

theorem Admits.countersign (h : p.Admits signers) (hconcord : Signer.Concordant signers)
    (hx : x ∈ signers) : (p.countersign x).Admits signers := by
  by_cases hmem : x.publicKey ∈ p.signatures.signers
  · rwa [countersign_of_mem hmem]
  · rw [countersign_of_not_mem hmem]
    intro y hy other hother htag
    rw [signers_attach, List.mem_append, List.mem_singleton] at hother
    rcases hother with hbefore | hsame
    · exact h y hy other hbefore htag
    · rw [hsame] at htag ⊢
      exact hconcord.apart x y hx hy htag

/-- Behind the signatures that were there stands one of each signer who had not signed. -/
structure Adds (p : Payload) (signers : List Signer) (added : List SignaturePair) : Prop where
  result : p.countersignAll signers = { p with signatures := ⟨p.signatures.pairs ++ added⟩ }
  distinct : (added.map SignaturePair.publicKey).Nodup
  mem_iff : forall pair, pair ∈ added <->
    exists x, x ∈ signers ∧ x.publicKey ∉ p.signatures.signers ∧
      pair = ⟨x.publicKey, x.sign p.body⟩

theorem Adds.signers_eq {added : List SignaturePair} (h : p.Adds signers added) :
    (p.countersignAll signers).signatures.signers =
      p.signatures.signers ++ added.map SignaturePair.publicKey := by
  rw [h.result]
  exact List.map_append

/-- A signer who has signed before adds nothing. -/
theorem Adds.cons_of_mem {added : List SignaturePair} (hmem : x.publicKey ∈ p.signatures.signers)
    (h : p.Adds signers added) : p.Adds (x :: signers) added := by
  constructor
  case result =>
    have hstep : p.countersignAll (x :: signers) = (p.countersign x).countersignAll signers := rfl
    rw [hstep, countersign_of_mem hmem]
    exact h.result
  case distinct => exact h.distinct
  case mem_iff =>
    intro pair
    rw [h.mem_iff]
    constructor
    · rintro ⟨y, hy, hnew, hpair⟩
      exact ⟨y, List.mem_cons_of_mem x hy, hnew, hpair⟩
    · rintro ⟨y, hy, hnew, hpair⟩
      rcases List.mem_cons.mp hy with hsame | hy
      · rw [hsame] at hnew
        exact (hnew hmem).elim
      · exact ⟨y, hy, hnew, hpair⟩

/-- A signer who has not signed adds a signature, and those with the same key add nothing after
that. -/
theorem Adds.cons_of_not_mem {added : List SignaturePair}
    (halike : forall y, y ∈ signers -> y.publicKey = x.publicKey -> y.sign = x.sign)
    (hmem : x.publicKey ∉ p.signatures.signers)
    (h : (p.attach x.publicKey (x.sign p.body)).Adds signers added) :
    p.Adds (x :: signers) (⟨x.publicKey, x.sign p.body⟩ :: added) := by
  have hfresh : forall y : Signer,
      y.publicKey ∉ (p.attach x.publicKey (x.sign p.body)).signatures.signers <->
        y.publicKey ∉ p.signatures.signers ∧ y.publicKey ≠ x.publicKey := by
    intro y
    rw [signers_attach, List.mem_append, List.mem_singleton, not_or]
  constructor
  case result =>
    have hstep : p.countersignAll (x :: signers) = (p.countersign x).countersignAll signers := rfl
    rw [hstep, countersign_of_not_mem hmem, h.result]
    simp [attach]
  case distinct =>
    rw [List.map_cons, List.nodup_cons]
    refine ⟨?_, h.distinct⟩
    intro hagain
    rcases List.mem_map.mp hagain with ⟨pair, hpair, hkey⟩
    rcases (h.mem_iff pair).mp hpair with ⟨y, _, hnew, hmade⟩
    rw [hmade] at hkey
    exact ((hfresh y).mp hnew).right hkey
  case mem_iff =>
    intro pair
    rw [List.mem_cons, h.mem_iff]
    constructor
    · rintro (hfirst | ⟨y, hy, hnew, hpair⟩)
      · exact ⟨x, List.mem_cons_self, hmem, hfirst⟩
      · exact ⟨y, List.mem_cons_of_mem x hy, ((hfresh y).mp hnew).left, hpair⟩
    · rintro ⟨y, hy, hnew, hpair⟩
      rcases List.mem_cons.mp hy with hfirst | hy
      · rw [hpair, hfirst]
        exact Or.inl rfl
      · by_cases hsame : y.publicKey = x.publicKey
        · rw [hpair, hsame, halike y hy hsame]
          exact Or.inl rfl
        · exact Or.inr ⟨y, hy, (hfresh y).mpr ⟨hnew, hsame⟩, hpair⟩

theorem exists_adds (halike : forall x y, x ∈ signers -> y ∈ signers ->
    x.publicKey = y.publicKey -> x.sign = y.sign) (p : Payload) :
    exists added, p.Adds signers added := by
  induction signers generalizing p with
  | nil =>
      refine ⟨[], ?_, List.nodup_nil, by simp⟩
      simp [countersignAll]
  | cons x rest ih =>
      have hrest : forall y z, y ∈ rest -> z ∈ rest -> y.publicKey = z.publicKey ->
          y.sign = z.sign := fun y z hy hz =>
        halike y z (List.mem_cons_of_mem x hy) (List.mem_cons_of_mem x hz)
      by_cases hmem : x.publicKey ∈ p.signatures.signers
      · rcases ih hrest p with ⟨added, hadded⟩
        exact ⟨added, hadded.cons_of_mem hmem⟩
      · rcases ih hrest (p.attach x.publicKey (x.sign p.body)) with ⟨added, hadded⟩
        refine ⟨_, hadded.cons_of_not_mem ?_ hmem⟩
        exact fun y hy => halike y x (List.mem_cons_of_mem x hy) List.mem_cons_self

/-- Who signs decides what is added, up to its order. -/
theorem Adds.perm {others : List Signer} {added more : List SignaturePair}
    (h : p.Adds signers added) (hother : p.Adds others more)
    (hsame : forall x, x ∈ others <-> x ∈ signers) : added.Perm more := by
  rw [List.perm_ext_iff_of_nodup h.distinct.of_map hother.distinct.of_map]
  intro pair
  rw [h.mem_iff, hother.mem_iff]
  simp only [hsame]

/-- Of all that is added at most one signature has some first octets. -/
theorem Adds.eq_of_tag (hconcord : Signer.Concordant signers) {added : List SignaturePair}
    (h : p.Adds signers added) {a b : SignaturePair} (ha : a ∈ added) (hb : b ∈ added)
    (htag : a.tag = b.tag) : a = b := by
  rcases (h.mem_iff a).mp ha with ⟨x, hx, _, hmade⟩
  rcases (h.mem_iff b).mp hb with ⟨y, hy, _, hother⟩
  rw [hmade, hother] at htag ⊢
  have hkey := hconcord.apart x y hx hy htag
  rw [hkey, hconcord.alike x y hx hy hkey]

theorem agrees_of_same_signers {others : List Signer} (hconcord : Signer.Concordant signers)
    (hsame : forall x, x ∈ others <-> x ∈ signers) (p : Payload) :
    (p.countersignAll signers).Agrees (p.countersignAll others) := by
  have halike : forall x y, x ∈ others -> y ∈ others -> x.publicKey = y.publicKey ->
      x.sign = y.sign := fun x y hx hy =>
    hconcord.alike x y ((hsame x).mp hx) ((hsame y).mp hy)
  rcases exists_adds hconcord.alike p with ⟨added, hadded⟩
  rcases exists_adds halike p with ⟨more, hmore⟩
  have hperm := hadded.perm hmore hsame
  rw [hadded.result, hmore.result]
  constructor
  case node => rfl
  case body => rfl
  case signatures => exact List.Perm.append_left _ hperm
  case get? =>
    intro key
    unfold SignatureMap.get?
    rw [find?_append_of_perm hperm]
    intro a b ha hb hakey hbkey
    refine hadded.eq_of_tag hconcord ha hb ?_
    rw [SignaturePair.tag, SignaturePair.tag, beq_iff_eq.mp hakey, beq_iff_eq.mp hbkey]
  case contains =>
    intro key
    unfold SignatureMap.contains SignatureMap.standing
    rw [find?_append_of_perm hperm]
    intro a b ha hb hatag hbtag
    exact hadded.eq_of_tag hconcord ha hb ((beq_iff_eq.mp hatag).trans (beq_iff_eq.mp hbtag).symm)

/-- Whoever was asked to sign has signed. -/
theorem contains_countersignAll (hconcord : Signer.Concordant signers) (h : p.Admits signers)
    (hx : x ∈ signers) : (p.countersignAll signers).signatures.contains x.publicKey = true := by
  rcases exists_adds hconcord.alike p with ⟨added, hadded⟩
  have hclash : (p.countersignAll signers).signatures.standing x.publicKey ≠ .clash := by
    apply SignatureMap.standing_ne_clash
    intro other hother htag
    rw [hadded.signers_eq, List.mem_append] at hother
    rcases hother with hbefore | hadd
    · exact h x hx other hbefore htag
    · rcases List.mem_map.mp hadd with ⟨pair, hpair, hkey⟩
      rcases (hadded.mem_iff pair).mp hpair with ⟨y, hy, _, hmade⟩
      rw [← hkey, hmade] at htag ⊢
      exact hconcord.apart y x hy hx htag
  rw [← SignatureMap.mem_signers_iff_contains hclash, hadded.signers_eq, List.mem_append]
  by_cases hmem : x.publicKey ∈ p.signatures.signers
  · exact Or.inl hmem
  · have hpair := (hadded.mem_iff ⟨x.publicKey, x.sign p.body⟩).mpr ⟨x, hx, hmem, rfl⟩
    exact Or.inr (List.mem_map_of_mem hpair)

end Payload

namespace Transaction

variable {tx : Transaction} {signers : List Signer} {x : Signer}

/-- Signs with one signer after the other, up to the first that cannot sign. -/
def signAll (tx : Transaction) : List Signer → Except TransactionError Transaction
  | [] => .ok tx
  | signer :: rest =>
      match tx.sign signer with
      | .error e => .error e
      | .ok signed => signed.signAll rest

theorem signPayloads_eq_map {payloads : List Payload}
    (hclash : forall p, p ∈ payloads -> p.signatures.standing x.publicKey ≠ .clash) :
    (signPayloads x.publicKey (fun body (_ : Unit) => (x.sign body, ())) payloads ()).1 =
      payloads.map fun p => p.countersign x := by
  apply List.ext_getElem?
  intro i
  rw [getElem?_signPayloads hclash, List.getElem?_map]
  congr 1
  funext p
  by_cases hmem : x.publicKey ∈ p.signatures.signers
  · rw [if_pos hmem, Payload.countersign_of_mem hmem]
  · rw [if_neg hmem, Payload.countersign_of_not_mem hmem]

theorem CanSign.sign_eq (h : tx.CanSign x.publicKey) :
    tx.sign x = .ok
      { tx with payloads := tx.payloads.map fun p => p.countersign x, state := .signed } := by
  unfold Transaction.sign
  rw [h.signWith_eq]
  simp only [signPayloads_eq_map h.apart]

/-- Signers that go together with each other and with all payloads sign each payload by itself. -/
theorem signAll_eq (hconcord : Signer.Concordant signers) {chosen : List Signer}
    (hchosen : forall x, x ∈ chosen -> x ∈ signers)
    (hstate : tx.state = .frozen ∨ tx.state = .signed)
    (hadmits : forall p, p ∈ tx.payloads -> p.Admits signers) :
    tx.signAll chosen = .ok
      { tx with
        payloads := tx.payloads.map fun p => p.countersignAll chosen
        state := if chosen = [] then tx.state else .signed } := by
  induction chosen generalizing tx with
  | nil => simp [signAll, Payload.countersignAll]
  | cons x rest ih =>
      rw [List.forall_mem_cons] at hchosen
      have hcan : tx.CanSign x.publicKey :=
        ⟨hstate, fun p hp => (hadmits p hp).standing hchosen.left⟩
      have hafter : forall q, q ∈ tx.payloads.map (fun p => p.countersign x) ->
          q.Admits signers := by
        intro q hq
        rcases List.mem_map.mp hq with ⟨p, hp, hmade⟩
        rw [← hmade]
        exact (hadmits p hp).countersign hconcord hchosen.left
      rw [signAll, hcan.sign_eq]
      dsimp only
      rw [ih hchosen.right (Or.inr rfl) hafter]
      simp [Payload.countersignAll]

/-- Signers whose keys are told apart by their first octets can sign in any order and any number of
times.  All payloads keep their bodies and end up with the same signatures. -/
theorem signing_order_is_free (hstate : tx.state = .frozen ∨ tx.state = .signed)
    (hconcord : Signer.Concordant signers)
    (hadmits : forall p, p ∈ tx.payloads -> p.Admits signers) {others : List Signer}
    (hsame : forall x, x ∈ others <-> x ∈ signers) :
    exists one other, tx.signAll signers = .ok one ∧ tx.signAll others = .ok other ∧
      one = { tx with payloads := one.payloads, state := one.state } ∧
      other = { one with payloads := other.payloads } ∧
      (signers ≠ [] -> one.state = .signed) ∧
      List.Forall₂ Payload.Extends tx.payloads one.payloads ∧
      (forall x, x ∈ signers -> forall p, p ∈ one.payloads ->
        p.signatures.contains x.publicKey = true) ∧
      List.Forall₂ Payload.Agrees one.payloads other.payloads := by
  have hnone : others = [] <-> signers = [] := by
    simp only [List.eq_nil_iff_forall_not_mem, hsame]
  refine ⟨_, _, signAll_eq hconcord (fun _ hx => hx) hstate hadmits,
    signAll_eq hconcord (fun x hx => (hsame x).mp hx) hstate hadmits, rfl, ?_, ?_, ?_, ?_, ?_⟩
  · simp only [hnone]
  · intro hsome
    exact if_neg hsome
  · rw [List.forall₂_map_right_iff, List.forall₂_same]
    intro p _
    rcases Payload.exists_adds hconcord.alike p with ⟨added, hadded⟩
    rw [hadded.result]
    exact ⟨rfl, rfl, List.prefix_append _ _⟩
  · intro x hx q hq
    rcases List.mem_map.mp hq with ⟨p, hp, hmade⟩
    rw [← hmade]
    exact Payload.contains_countersignAll hconcord (hadmits p hp) hx
  · rw [List.forall₂_map_left_iff, List.forall₂_map_right_iff, List.forall₂_same]
    exact fun p _ => Payload.agrees_of_same_signers hconcord hsame p

/-- A signed transfer is signed by two others, the second of them first and last. -/
theorem signedTransfer_in_any_order :
    exists tx one other, Reachable tx ∧ tx.state = .signed ∧
      tx.signAll [⟨.fill 32 2, fun _ => .fill 64 5⟩, ⟨.fill 32 3, fun _ => .fill 64 6⟩] = .ok one ∧
      tx.signAll [⟨.fill 32 3, fun _ => .fill 64 6⟩, ⟨.fill 32 2, fun _ => .fill 64 5⟩,
        ⟨.fill 32 3, fun _ => .fill 64 6⟩] = .ok other ∧
      one ≠ other ∧ List.Forall₂ Payload.Agrees one.payloads other.payloads := by
  let second : Signer := ⟨.fill 32 2, fun _ => .fill 64 5⟩
  let third : Signer := ⟨.fill 32 3, fun _ => .fill 64 6⟩
  let tx := signedTransfer ⟨.fill 32 7⟩ 5 ⟨.fill 32 1, fun _ => .fill 64 2⟩
  have hreachable : Reachable tx :=
    reachable_signedTransfer ⟨.fill 32 7⟩ 5 ⟨.fill 32 1, fun _ => .fill 64 2⟩
  have hconcord : Signer.Concordant [second, third] :=
    Signer.concordant_of_nodup (by decide)
  have hadmits : forall p, p ∈ tx.payloads -> p.Admits [second, third] := by
    unfold Payload.Admits
    decide +kernel
  have hsame : forall x, x ∈ [third, second, third] <-> x ∈ [second, third] := by
    intro x
    simp only [List.mem_cons, List.not_mem_nil, or_false]
    grind
  rcases signing_order_is_free (Or.inr rfl) hconcord hadmits hsame with
    ⟨one, other, hone, hother, _, _, _, _, _, hagree⟩
  refine ⟨tx, one, other, hreachable, rfl, hone, hother, ?_, hagree⟩
  intro hequal
  rw [← hequal, ← hone] at hother
  exact absurd hother (by decide +kernel)

end Transaction

end LedgerClient
