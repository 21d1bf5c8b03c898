import Mathlib.Data.List.Forall2
import LedgerClient.Proofs.Delivery.Submission

/-!
# Submission of a batch

The transactions of a batch are submitted one after the other, each once the one before it
was accepted.  A series of submissions is built from its parts; what a batch promises to its
caller is read off from that.
-/

namespace LedgerClient

/-- A series of submissions: the place of its first transaction, the receipts so far, the
transactions, and how it ends, what becomes of the transactions and what was done for each. -/
inductive Series : (index : Nat) -> List Receipt -> List Transaction ->
    Ending (List Receipt) -> List Transaction -> List (List Step) -> Prop where
  | finished {index : Nat} {receipts : List Receipt} :
      Series index receipts [] (.answered receipts) [] []
  | accepted {index : Nat} {receipts : List Receipt} {tx : Transaction}
      {rest after : List Transaction} {course : List Step} {receipt : Receipt}
      {ending : Ending (List Receipt)} {parts : List (List Step)} :
      Sends tx course -> IsAccepted tx course receipt ->
      Series (index + 1) (receipts ++ [receipt]) rest ending after parts ->
      Series index receipts (tx :: rest) ending (tx.complete :: after) (course :: parts)
  | broken {index : Nat} {receipts : List Receipt} {tx : Transaction} {rest : List Transaction}
      {course : List Step} {cause : ClientError} {state : TransactionState} :
      Sends tx course -> state = .failed ∨ state = .signed ∨ state = tx.state ->
      Series index receipts (tx :: rest) (.failed (.chunkFailed index receipts.length cause))
        ({ tx with state := state } :: rest) [course]
  | halted {index : Nat} {receipts : List Receipt} {tx : Transaction} {rest : List Transaction}
      {course : List Step} {halt : Halt} :
      Sends tx course ->
      Series index receipts (tx :: rest) (.halted halt) ({ tx with state := .executing } :: rest)
        [course]
  | untimed {index : Nat} {receipts : List Receipt} {tx : Transaction} {rest : List Transaction} :
      Series index receipts (tx :: rest) (.halted .outOfRange) (tx :: rest) []

namespace Series

variable {index : Nat} {receipts : List Receipt} {txs after : List Transaction}
  {ending : Ending (List Receipt)} {parts : List (List Step)}

theorem sends (h : Series index receipts txs ending after parts) :
    forall (k : Nat) (course : List Step), parts[k]? = some course ->
      exists tx : Transaction, txs[k]? = some tx ∧ Sends tx course := by
  induction h with
  | finished =>
      intro k course hk
      cases hk
  | @accepted _ _ tx _ _ own _ _ _ hsends _ _ ih =>
      intro k course hk
      cases k with
      | zero =>
          cases hk
          exact ⟨tx, rfl, hsends⟩
      | succ k => exact ih k course hk
  | @broken _ _ tx _ own _ _ hsends _ =>
      intro k course hk
      cases k with
      | zero =>
          cases hk
          exact ⟨tx, rfl, hsends⟩
      | succ k => cases hk
  | @halted _ _ tx _ own _ hsends =>
      intro k course hk
      cases k with
      | zero =>
          cases hk
          exact ⟨tx, rfl, hsends⟩
      | succ k => cases hk
  | untimed =>
      intro k course hk
      cases hk

/-- Whatever becomes of the transactions, they are signed as before. -/
theorem payloads (h : Series index receipts txs ending after parts) :
    after.map Transaction.payloads = txs.map Transaction.payloads := by
  induction h with
  | finished => rfl
  | accepted _ _ _ ih =>
      rw [List.map_cons, List.map_cons, ih]
      rfl
  | broken _ _ => rfl
  | halted _ => rfl
  | untimed => rfl

/-- Every part but the last ends with the acceptance of its transaction. -/
theorem sequential (h : Series index receipts txs ending after parts) :
    forall k : Nat, k + 1 < parts.length ->
      exists (tx : Transaction) (course : List Step) (receipt : Receipt),
        txs[k]? = some tx ∧ parts[k]? = some course ∧ IsAccepted tx course receipt := by
  induction h with
  | finished =>
      intro k hk
      cases hk
  | @accepted _ _ tx _ _ course receipt _ _ _ haccepted _ ih =>
      intro k hk
      cases k with
      | zero => exact ⟨tx, course, receipt, rfl, rfl, haccepted⟩
      | succ k => exact ih k (Nat.lt_of_succ_lt_succ hk)
  | broken _ _ =>
      intro k hk
      simp at hk
  | halted _ =>
      intro k hk
      simp at hk
  | untimed =>
      intro k hk
      cases hk

theorem answered {all : List Receipt} (h : Series index receipts txs (.answered all) after parts) :
    after = txs.map Transaction.complete ∧ parts.length = txs.length ∧
      exists accepted, all = receipts ++ accepted ∧
        List.Forall₂ (fun part receipt => IsAccepted part.1 part.2 receipt) (txs.zip parts)
          accepted := by
  generalize hending : Ending.answered all = ending at h
  induction h with
  | finished =>
      cases hending
      exact ⟨rfl, rfl, [], (List.append_nil _).symm, .nil⟩
  | @accepted _ _ tx _ _ course receipt _ _ _ haccepted _ ih =>
      rcases ih hending with ⟨hafter, hlength, accepted, hall, hrest⟩
      refine ⟨?_, ?_, receipt :: accepted, ?_, .cons haccepted hrest⟩
      · rw [hafter, List.map_cons]
      · rw [List.length_cons, List.length_cons, hlength]
      · rw [hall, List.append_assoc]
        rfl
  | broken _ _ => cases hending
  | halted _ => cases hending
  | untimed => cases hending

/-- A series that fails has got so far, and has touched nothing beyond. -/
theorem failed {error : ClientError} (h : Series index receipts txs (.failed error) after parts) :
    exists before tx rest state cause, txs = before ++ tx :: rest ∧
      (state = .failed ∨ state = .signed ∨ state = tx.state) ∧
      error = .chunkFailed (index + before.length) (receipts.length + before.length) cause ∧
      after = before.map Transaction.complete ++ { tx with state := state } :: rest ∧
      parts.length = before.length + 1 := by
  generalize hending : Ending.failed error = ending at h
  induction h with
  | finished => cases hending
  | @accepted index receipts tx _ _ _ _ _ _ _ _ _ ih =>
      rcases ih hending with
        ⟨before, last, rest, state, cause, htxs, hstate, herror, hafter, hlength⟩
      refine ⟨tx :: before, last, rest, state, cause, ?_, hstate, ?_, ?_, ?_⟩
      · rw [htxs, List.cons_append]
      · rw [herror, List.length_append, List.length_cons, List.length_cons, List.length_nil]
        congr 1 <;> omega
      · rw [hafter, List.map_cons, List.cons_append]
      · rw [List.length_cons, List.length_cons, hlength]
  | @broken _ _ tx rest _ cause state _ hstate =>
      cases hending
      exact ⟨[], tx, rest, state, cause, rfl, hstate, rfl, rfl, rfl⟩
  | halted _ => cases hending
  | untimed => cases hending

end Series

namespace Engine

variable {σ : Type}

theorem submitEach_series (w : Surroundings σ) (timeout : Duration) (index : Nat)
    (txs : List Transaction) (e : Engine) (receipts : List Receipt) (world : σ) :
    Series index receipts txs (submitEach w timeout index txs e receipts world).ending
      (submitEach w timeout index txs e receipts world).batch.transactions
      (submitEach w timeout index txs e receipts world).parts := by
  induction txs generalizing index e receipts world with
  | nil => exact .finished
  | cons tx rest ih =>
      rcases htimer : w.timer world with ⟨now, started⟩
      cases hdeadline : now.plus? timeout with
      | none =>
          simp only [submitEach, htimer, hdeadline]
          exact .untimed
      | some deadline =>
          simp only [submitEach, htimer, hdeadline]
          have hsends := e.submit_sends w tx deadline started
          have hreports := e.submit_reports w tx deadline started
          generalize e.submit w tx deadline started = done at hsends hreports
          rcases hreports with ⟨error, _, hrun⟩ | ⟨_, state, hreports, hdone⟩
          · rw [hrun]
            exact @Series.broken _ _ _ _ _ _ tx.state (sends_nil tx) (Or.inr (Or.inr rfl))
          · rw [hdone]
            generalize done.run.ending = ending at hreports
            cases hreports with
            | completed receipt haccepted => exact .accepted hsends haccepted (ih _ _ _ _)
            | failed node code => exact .broken hsends (Or.inl rfl)
            | exhausted attempts nodes setback => exact .broken hsends (Or.inr (Or.inl rfl))
            | cancelled => exact .broken hsends (Or.inr (Or.inl rfl))
            | halted halt => exact .halted hsends

/-!
## The transactions of a batch
-/

theorem firstUnready?_eq_none {index : Nat} {txs : List Transaction} :
    firstUnready? index txs = none <-> forall tx, tx ∈ txs -> tx.IsReady := by
  induction txs generalizing index with
  | nil => simp [firstUnready?]
  | cons tx rest ih =>
      rw [firstUnready?, List.forall_mem_cons, ← Transaction.validateForExecution_eq_ok_iff]
      cases tx.validateForExecution with
      | error error => simp
      | ok valid =>
          cases valid
          simp [ih]

theorem firstUnready?_eq_some {index place : Nat} {txs : List Transaction}
    {error : TransactionError} (h : firstUnready? index txs = some (place, error)) :
    exists before tx rest, txs = before ++ tx :: rest ∧ place = index + before.length ∧
      (forall other, other ∈ before -> other.IsReady) ∧ tx.validateForExecution = .error error := by
  induction txs generalizing index with
  | nil => cases h
  | cons tx rest ih =>
      rw [firstUnready?] at h
      cases hvalid : tx.validateForExecution with
      | error cause =>
          rw [hvalid] at h
          cases h
          refine ⟨[], tx, rest, rfl, rfl, ?_, hvalid⟩
          intro other hother
          cases hother
      | ok valid =>
          rw [hvalid] at h
          rcases ih h with ⟨before, first, others, hrest, hplace, hready, herror⟩
          refine ⟨tx :: before, first, others, ?_, ?_, ?_, herror⟩
          · rw [hrest, List.cons_append]
          · rw [hplace, List.length_cons]
            omega
          · rw [List.forall_mem_cons]
            exact ⟨Transaction.validateForExecution_eq_ok_iff.mp hvalid, hready⟩

/-- What the submission of a batch promises. -/
structure InOrder (e : Engine) (b : Batch) (world : σ) (done : BatchRun σ) : Prop where
  sends : forall (k : Nat) (course : List Step), done.parts[k]? = some course ->
    exists tx, b.get? k = some tx ∧ Sends tx course
  sequential : forall k : Nat, k + 1 < done.parts.length ->
    exists (tx : Transaction) (course : List Step) (receipt : Receipt),
      b.get? k = some tx ∧ done.parts[k]? = some course ∧ IsAccepted tx course receipt
  answered : forall receipts, done.ending = .answered receipts ->
    done.batch = ⟨b.transactions.map Transaction.complete⟩ ∧ done.parts.length = b.size ∧
      List.Forall₂ (fun part receipt => IsAccepted part.1 part.2 receipt)
        (b.transactions.zip done.parts) receipts
  /-- Those before the one that failed are completed and those after it are not touched. -/
  broken : (forall tx, tx ∈ b.transactions -> tx.IsReady) -> forall error,
    done.ending = .failed error ->
      exists before tx rest state cause, b.transactions = before ++ tx :: rest ∧
        error = .chunkFailed before.length before.length cause ∧
        (state = .failed ∨ state = .signed) ∧
        done.batch = ⟨before.map Transaction.complete ++ { tx with state := state } :: rest⟩ ∧
        done.parts.length = before.length + 1
  refused : forall tx, tx ∈ b.transactions -> forall error,
    tx.validateForExecution = .error error ->
    exists before first rest cause, b.transactions = before ++ first :: rest ∧
      (forall other, other ∈ before -> other.validateForExecution = .ok ()) ∧
      first.validateForExecution = .error cause ∧
      done =
        { ending := .failed (.chunkFailed before.length 0 (.transaction cause))
          registry := e.registry
          world := world
          batch := b
          parts := [] }

theorem inOrder_of_series {e : Engine} {b : Batch} {world : σ} {done : BatchRun σ}
    (hready : forall tx, tx ∈ b.transactions -> tx.IsReady)
    (hseries : Series 0 [] b.transactions done.ending done.batch.transactions done.parts) :
    e.InOrder b world done where
  sends := hseries.sends
  sequential := hseries.sequential
  answered := by
    intro receipts hending
    rw [hending] at hseries
    rcases hseries.answered with ⟨hbatch, hlength, accepted, hall, haccepted⟩
    refine ⟨Batch.ext hbatch, hlength, ?_⟩
    rw [hall]
    exact haccepted
  broken := by
    intro _ error hending
    rw [hending] at hseries
    rcases hseries.failed with
      ⟨before, tx, rest, state, cause, htxs, hstate, herror, hafter, hlength⟩
    have hsigned : tx.state = .signed :=
      (hready tx (by rw [htxs]; exact List.mem_append_right _ List.mem_cons_self)).state
    rw [hsigned] at hstate
    refine ⟨before, tx, rest, state, cause, htxs, ?_, ?_, Batch.ext hafter, hlength⟩
    · rw [herror, List.length_nil, Nat.zero_add]
    · rcases hstate with hfailed | hagain | hunchanged
      · exact Or.inl hfailed
      · exact Or.inr hagain
      · exact Or.inr hunchanged
  refused := by
    intro tx htx error herror
    rw [Transaction.validateForExecution_eq_ok_iff.mpr (hready tx htx)] at herror
    cases herror

theorem inOrder_refused (e : Engine) {b : Batch} (world : σ) {before rest : List Transaction}
    {first : Transaction} {cause : TransactionError}
    (hall : b.transactions = before ++ first :: rest)
    (hready : forall other, other ∈ before -> other.IsReady)
    (hcause : first.validateForExecution = .error cause) :
    e.InOrder b world
      { ending := .failed (.chunkFailed before.length 0 (.transaction cause))
        registry := e.registry
        world := world
        batch := b
        parts := [] } where
  sends := by
    intro k course hk
    cases hk
  sequential := by
    intro k hk
    cases hk
  answered := by
    intro receipts hending
    cases hending
  broken := by
    intro hallReady error _
    have hfirst := hallReady first (by rw [hall]; exact List.mem_append_right _ List.mem_cons_self)
    rw [Transaction.validateForExecution_eq_ok_iff.mpr hfirst] at hcause
    cases hcause
  refused := by
    intro _ _ _ _
    refine ⟨before, first, rest, cause, hall, ?_, hcause, rfl⟩
    intro other hother
    exact Transaction.validateForExecution_eq_ok_iff.mpr (hready other hother)

theorem submitAll_inOrder (e : Engine) (w : Surroundings σ) (b : Batch) (timeout : Duration)
    (world : σ) : e.InOrder b world (e.submitAll w b timeout world) := by
  unfold submitAll
  cases hfirst : firstUnready? 0 b.transactions with
  | none =>
      have hready := firstUnready?_eq_none.mp hfirst
      have hseries := submitEach_series w timeout 0 b.transactions e [] world
      exact inOrder_of_series hready hseries
  | some found =>
      rcases found with ⟨index, error⟩
      rcases firstUnready?_eq_some hfirst with ⟨before, first, rest, hall, hindex, hready, herror⟩
      rw [Nat.zero_add] at hindex
      rw [hindex]
      exact inOrder_refused e world hall hready herror

end Engine

end LedgerClient
