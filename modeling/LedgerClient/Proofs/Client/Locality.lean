import LedgerClient.Proofs.Client.Calls
import LedgerClient.Proofs.Delivery.Sending

/-!
# Errors that arise before any node is asked

Whether a request is delivered at all is decided by what is requested and by the nodes that
are registered.  If it is not, the error is local, nothing was done, and the call would have
ended in the same way whatever the channels had done.  Once a delivery has begun its errors
are of other kinds: in a delivery every candidate has octets of its own.
-/

namespace LedgerClient

variable {σ : Type}

def Ending.error? {α : Type} : Ending α → Option ClientError
  | .failed error => some error
  | _ => none

/-- The error of one request and not of a batch. -/
def ClientError.IsSingle : ClientError → Prop
  | .chunkFailed _ _ _ => False
  | _ => True

theorem ClientError.isSingle_of_isLocal {error : ClientError} (h : error.isLocal = true) :
    error.IsSingle := by
  cases error with
  | chunkFailed _ _ _ => cases h
  | _ => trivial

/-- Surroundings that differ in what channels do. -/
def Surroundings.rewired (w : Surroundings σ)
    (exchange : Call → Duration → σ → Answer × List Happening × σ) : Surroundings σ :=
  { w with exchange := exchange }

/-- What is asked of an engine or of a client. -/
inductive Order where
  | deliver (e : Engine) (request : Request) (built : request.Built) (deadline : Instant)
  | submit (e : Engine) (tx : Transaction) (deadline : Instant)
  | ask (e : Engine) (q : Query) (deadline : Instant)
  | submitAll (e : Engine) (b : Batch) (timeout : Duration)
  | execute (c : Client) (tx : Transaction)
  | query (c : Client) (q : Query)
  | executeAll (c : Client) (b : Batch)

/-- What is left of a call: its error, the records of the nodes, the state of the surroundings and
what was done for each of its requests. -/
structure Aftermath (σ : Type) where
  error? : Option ClientError
  registry : Registry
  world : σ
  courses : List (List Step)

def Run.aftermath {α : Type} (run : Run σ α) : Aftermath σ :=
  { error? := run.ending.error?
    registry := run.registry
    world := run.world
    courses := [run.steps] }

def BatchRun.aftermath (run : BatchRun σ) : Aftermath σ :=
  { error? := run.ending.error?
    registry := run.registry
    world := run.world
    courses := run.parts }

namespace Order

def registry : Order → Registry
  | deliver e _ _ _ => e.registry
  | submit e _ _ => e.registry
  | ask e _ _ => e.registry
  | submitAll e _ _ => e.registry
  | execute c _ => c.registry
  | query c _ => c.registry
  | executeAll c _ => c.registry

def aftermath (w : Surroundings σ) (world : σ) : Order → Aftermath σ
  | deliver e request _ deadline => (e.deliver w request deadline world).aftermath
  | submit e tx deadline => (e.submit w tx deadline world).run.aftermath
  | ask e q deadline => (e.query w q deadline world).aftermath
  | submitAll e b timeout => (e.submitAll w b timeout world).aftermath
  | execute c tx => (c.execute w tx world).run.aftermath
  | query c q => (c.query w q world).aftermath
  | executeAll c b => (c.executeAll w b world).aftermath

/-- Nothing is done, no record changes, and no channel has a say in the outcome. -/
structure Idles (order : Order) (w : Surroundings σ) (world : σ) : Prop where
  courses : (order.aftermath w world).courses.flatten = []
  registry : (order.aftermath w world).registry = order.registry
  deaf : forall exchange, order.aftermath (w.rewired exchange) world = order.aftermath w world

end Order

/-!
## What an engine is asked
-/

namespace Engine

variable {e : Engine} {w : Surroundings σ} {deadline : Instant} {world : σ} {error : ClientError}

/-- A delivery with a local error did not begin. -/
theorem deliver_of_local {request : Request} (hbuilt : request.Built)
    (hending : (e.deliver w request deadline world).ending = .failed error)
    (hlocal : error.isLocal = true) : e.registry.candidates request.nodes = .error error := by
  cases hcandidates : e.registry.candidates request.nodes with
  | error other =>
      rw [deliver_eq_refuse hcandidates] at hending
      cases hending
      rfl
  | ok candidates =>
      have hconcludes := deliver_concludes hcandidates w deadline world
      have hforeign := deliver_ne_foreign (e := e) hbuilt w deadline world
      rw [hending] at hconcludes hforeign
      generalize (e.deliver w request deadline world).steps = course at hconcludes
      cases hconcludes with
      | foreign _ _ _ => exact (hforeign _ rfl).elim
      | _ => cases hlocal

theorem deliver_isSingle {request : Request}
    (hending : (e.deliver w request deadline world).ending = .failed error) : error.IsSingle := by
  cases hcandidates : e.registry.candidates request.nodes with
  | error other =>
      rw [deliver_eq_refuse hcandidates] at hending
      cases hending
      rcases Registry.candidates_eq_error hcandidates with ⟨node, hnode⟩
      rw [hnode]
      trivial
  | ok candidates =>
      have hconcludes := deliver_concludes hcandidates w deadline world
      rw [hending] at hconcludes
      generalize (e.deliver w request deadline world).steps = course at hconcludes
      cases hconcludes <;> trivial

/-- A submission with a local error is refused, in whatever surroundings. -/
theorem submit_of_local {tx : Transaction}
    (hending : (e.submit w tx deadline world).run.ending = .failed error)
    (hlocal : error.isLocal = true) (v : Surroundings σ) (limit : Instant) (start : σ) :
    e.submit v tx limit start = e.refuseTransaction error tx start := by
  rcases e.submit_verdict tx with ⟨other, _, hrun⟩ | ⟨request, id, hashes, hadmits, hrun⟩
  · rw [hrun] at hending ⊢
    cases hending
    rfl
  · rcases hadmits.carryOut_reports w deadline world with ⟨state, hreports, _⟩
    rw [hrun] at hending
    rw [hending] at hreports
    cases hreports <;> cases hlocal

theorem submit_isSingle {tx : Transaction}
    (hending : (e.submit w tx deadline world).run.ending = .failed error) : error.IsSingle := by
  rcases (e.submit_settles w tx deadline world).noOther error hending with
    hlocal | hcancelled | ⟨node, code, hrejected⟩ | ⟨attempts, nodes, setback, hexhausted⟩
  · exact ClientError.isSingle_of_isLocal hlocal
  · rw [hcancelled]
    trivial
  · rw [hrejected]
    trivial
  · rw [hexhausted]
    trivial

/-- A query with a local error is refused, in whatever surroundings. -/
theorem query_of_local {q : Query} (hending : (e.query w q deadline world).ending = .failed error)
    (hlocal : error.isLocal = true) (v : Surroundings σ) (limit : Instant) (start : σ) :
    e.query v q limit start = e.refuse error start := by
  unfold query at hending ⊢
  dsimp only at hending ⊢
  generalize (if q.nodes.isEmpty then e.registry.ids else q.nodes) = nodes at hending ⊢
  cases hrequest : Request.ofQuery q nodes with
  | error cause =>
      rw [hrequest] at hending
      cases hending
      rfl
  | ok request =>
      rw [hrequest] at hending
      exact deliver_eq_refuse (deliver_of_local (.query q nodes hrequest) hending hlocal) v limit
        start

theorem query_isSingle {q : Query}
    (hending : (e.query w q deadline world).ending = .failed error) : error.IsSingle := by
  unfold query at hending
  dsimp only at hending
  cases hrequest : Request.ofQuery q (if q.nodes.isEmpty then e.registry.ids else q.nodes) with
  | error cause =>
      rw [hrequest] at hending
      cases hending
      trivial
  | ok request =>
      rw [hrequest] at hending
      exact deliver_isSingle hending

/-- A batch fails with one of its transactions, and if it was for a local error then nothing was
done for that one. -/
theorem submitEach_failed {timeout : Duration} {index : Nat} {txs : List Transaction}
    {receipts : List Receipt}
    (hending : (submitEach w timeout index txs e receipts world).ending = .failed error) :
    exists place committed cause, error = .chunkFailed (index + place) committed cause ∧
      (cause.isLocal = true ->
        (submitEach w timeout index txs e receipts world).parts[place]? = some []) := by
  induction txs generalizing index e receipts world with
  | nil => cases hending
  | cons tx rest ih =>
      rcases htimer : w.timer world with ⟨now, started⟩
      cases hdeadline : now.plus? timeout with
      | none =>
          simp only [submitEach, htimer, hdeadline] at hending
          cases hending
      | some deadline =>
          simp only [submitEach, htimer, hdeadline] at hending ⊢
          cases hrun : (e.submit w tx deadline started).run.ending with
          | halted halt =>
              rw [hrun] at hending
              cases hending
          | failed cause =>
              rw [hrun] at hending
              cases hending
              refine ⟨0, _, cause, rfl, ?_⟩
              intro hlocal
              rw [submit_of_local hrun hlocal]
              rfl
          | answered receipt =>
              rw [hrun] at hending
              rcases ih hending with ⟨place, committed, cause, herror, hnothing⟩
              refine ⟨place + 1, committed, cause, ?_, hnothing⟩
              rw [herror, Nat.add_right_comm, Nat.add_assoc]

theorem submitAll_failed {b : Batch} {timeout : Duration}
    (hending : (e.submitAll w b timeout world).ending = .failed error) :
    exists place committed cause, error = .chunkFailed place committed cause ∧
      (cause.isLocal = true ->
        forall course, (e.submitAll w b timeout world).parts[place]? = some course ->
          course = []) := by
  unfold submitAll at hending ⊢
  cases hfirst : firstUnready? 0 b.transactions with
  | none =>
      rw [hfirst] at hending
      rcases submitEach_failed hending with ⟨place, committed, cause, herror, hnothing⟩
      rw [Nat.zero_add] at herror
      refine ⟨place, committed, cause, herror, ?_⟩
      intro hlocal course hcourse
      dsimp only at hcourse
      rw [hnothing hlocal] at hcourse
      cases hcourse
      rfl
  | some found =>
      rcases found with ⟨place, cause⟩
      rw [hfirst] at hending
      cases hending
      refine ⟨place, 0, _, rfl, ?_⟩
      intro _ course hcourse
      cases hcourse

end Engine

/-!
## What a client is asked
-/

namespace Client

variable {c : Client} {w : Surroundings σ} {tx : Transaction} {world : σ} {error : ClientError}

/-- Freezing reads the clock and takes a nonce, and needs no channel. -/
theorem freezeWith_rewired (c : Client) (w : Surroundings σ) (tx : Transaction) (world : σ)
    (exchange : Call → Duration → σ → Answer × List Happening × σ) :
    c.freezeWith (w.rewired exchange) tx world = c.freezeWith w tx world :=
  rfl

theorem submitFrozen_of_local
    (hending : (c.submitFrozen w tx world).run.ending = .failed error)
    (hlocal : error.isLocal = true) :
    exists left after, forall exchange,
      c.submitFrozen (w.rewired exchange) tx world =
        c.engine.refuseTransaction error left after := by
  rcases c.submitFrozen_cases w tx world with
    ⟨e, hsign, hrun⟩ | ⟨signed, hsign, ⟨_, hrun⟩ | ⟨deadline, hdeadline, hrun⟩⟩
  · rw [hrun] at hending
    cases hending
    refine ⟨tx, world, fun exchange => ?_⟩
    rcases c.submitFrozen_cases (w.rewired exchange) tx world with
      ⟨other, hother, hsame⟩ | ⟨signed, hother, _⟩
    · rw [hsign] at hother
      cases hother
      exact hsame
    · rw [hsign] at hother
      cases hother
  · rw [hrun] at hending
    cases hending
  · rw [hrun] at hending
    refine ⟨signed, (w.timer world).2, fun exchange => ?_⟩
    have htimer : (w.rewired exchange).timer world = w.timer world := rfl
    rcases c.submitFrozen_cases (w.rewired exchange) tx world with
      ⟨other, hother, _⟩ | ⟨same, hother, ⟨hnone, _⟩ | ⟨limit, _, hsame⟩⟩
    · rw [hsign] at hother
      cases hother
    · rw [htimer, hdeadline] at hnone
      cases hnone
    · rw [hsign] at hother
      cases hother
      rw [hsame, htimer]
      exact Engine.submit_of_local hending hlocal _ limit _

theorem execute_of_local (hending : (c.execute w tx world).run.ending = .failed error)
    (hlocal : error.isLocal = true) :
    exists left after, forall exchange,
      c.execute (w.rewired exchange) tx world = c.engine.refuseTransaction error left after := by
  by_cases hdraft : tx.state = .draft
  · rcases hfreeze : c.freezeWith w tx world with ⟨frozen, result, started⟩
    simp only [execute, if_pos hdraft, freezeWith_rewired, hfreeze] at hending ⊢
    cases result with
    | error e =>
        cases hending
        exact ⟨frozen, started, fun _ => rfl⟩
    | ok done => exact submitFrozen_of_local hending hlocal
  · rw [execute_of_sealed hdraft] at hending
    rcases submitFrozen_of_local hending hlocal with ⟨left, after, hrun⟩
    refine ⟨left, after, fun exchange => ?_⟩
    rw [execute_of_sealed hdraft]
    exact hrun exchange

theorem execute_isSingle (hending : (c.execute w tx world).run.ending = .failed error) :
    error.IsSingle := by
  rcases c.execute_cases w tx world with
    ⟨e, left, after, hrun⟩ | ⟨signed, _, ⟨after, hrun⟩ | ⟨deadline, after, hrun⟩⟩
  · rw [hrun] at hending
    cases hending
    trivial
  · rw [hrun] at hending
    cases hending
  · rw [hrun] at hending
    exact Engine.submit_isSingle hending

theorem query_isSingle {q : Query} (hending : (c.query w q world).ending = .failed error) :
    error.IsSingle := by
  rcases c.query_cases w q world with ⟨_, hrun⟩ | ⟨deadline, _, hrun⟩
  · rw [hrun] at hending
    cases hending
  · rw [hrun] at hending
    exact Engine.query_isSingle hending

theorem query_of_local {q : Query} (hending : (c.query w q world).ending = .failed error)
    (hlocal : error.isLocal = true) :
    exists after, forall exchange,
      c.query (w.rewired exchange) q world = c.engine.refuse error after := by
  rcases c.query_cases w q world with ⟨_, hrun⟩ | ⟨deadline, hdeadline, hrun⟩
  · rw [hrun] at hending
    cases hending
  · rw [hrun] at hending
    refine ⟨(w.timer world).2, fun exchange => ?_⟩
    have htimer : (w.rewired exchange).timer world = w.timer world := rfl
    rcases c.query_cases (w.rewired exchange) q world with ⟨hnone, _⟩ | ⟨limit, _, hsame⟩
    · rw [htimer, hdeadline] at hnone
      cases hnone
    · rw [hsame, htimer]
      exact Engine.query_of_local hending hlocal _ limit _

/-- A batch that its operator could not sign is refused, and any other fails with one of its
transactions. -/
theorem executeAll_failed {b : Batch} (hending : (c.executeAll w b world).ending = .failed error) :
    (exists left, forall exchange, c.executeAll (w.rewired exchange) b world =
        { ending := .failed error, registry := c.registry, world := world, batch := left
          parts := [] }) ∨
      exists place committed cause, error = .chunkFailed place committed cause ∧
        (cause.isLocal = true ->
          forall course, (c.executeAll w b world).parts[place]? = some course ->
            course = []) := by
  rcases c.executeAll_cases w b world with ⟨left, e, hsign, hrun⟩ | ⟨signed, _, hrun⟩
  · left
    rw [hrun] at hending
    cases hending
    refine ⟨left, fun exchange => ?_⟩
    rcases c.executeAll_cases (w.rewired exchange) b world with
      ⟨other, cause, hother, hsame⟩ | ⟨other, hother, _⟩
    · rw [hsign] at hother
      cases hother
      exact hsame
    · rw [hsign] at hother
      cases hother
  · right
    rw [hrun] at hending ⊢
    exact Engine.submitAll_failed hending

end Client

/-!
## Any call
-/

namespace Order

variable {order : Order} {w : Surroundings σ} {world : σ} {error : ClientError}

/-- A call idles if it has one and the same outcome whatever channels do, in which nothing was
done. -/
theorem idles_of_refusal (refusal : Aftermath σ)
    (h : forall exchange, order.aftermath (w.rewired exchange) world = refusal)
    (hcourses : refusal.courses.flatten = []) (hregistry : refusal.registry = order.registry) :
    order.Idles w world := by
  have hown : order.aftermath w world = refusal := h w.exchange
  constructor
  case courses =>
    rw [hown]
    exact hcourses
  case registry =>
    rw [hown]
    exact hregistry
  case deaf =>
    intro exchange
    rw [h exchange, hown]

theorem failed_of_error? {α : Type} {ending : Ending α} (h : ending.error? = some error) :
    ending = .failed error := by
  cases ending with
  | answered value => cases h
  | failed other =>
      cases h
      rfl
  | halted halt => cases h

theorem idles_of_isLocal (herror : (order.aftermath w world).error? = some error)
    (hlocal : error.isLocal = true) : order.Idles w world := by
  cases order with
  | deliver e request built deadline =>
      have hending : (e.deliver w request deadline world).ending = .failed error :=
        failed_of_error? herror
      have hunknown := Engine.deliver_of_local built hending hlocal
      apply idles_of_refusal (e.refuse error world : Run σ Response).aftermath _ rfl rfl
      intro exchange
      exact congrArg Run.aftermath (Engine.deliver_eq_refuse hunknown _ deadline world)
  | submit e tx deadline =>
      have hending : (e.submit w tx deadline world).run.ending = .failed error :=
        failed_of_error? herror
      apply idles_of_refusal (e.refuseTransaction error tx world).run.aftermath _ rfl rfl
      intro exchange
      exact congrArg (fun done => done.run.aftermath)
        (Engine.submit_of_local hending hlocal (w.rewired exchange) deadline world)
  | ask e q deadline =>
      have hending : (e.query w q deadline world).ending = .failed error :=
        failed_of_error? herror
      apply idles_of_refusal (e.refuse error world : Run σ Response).aftermath _ rfl rfl
      intro exchange
      exact congrArg Run.aftermath (Engine.query_of_local hending hlocal _ deadline world)
  | submitAll e b timeout =>
      have hending : (e.submitAll w b timeout world).ending = .failed error :=
        failed_of_error? herror
      rcases Engine.submitAll_failed hending with ⟨_, _, _, hfailed, _⟩
      rw [hfailed] at hlocal
      cases hlocal
  | execute c tx =>
      have hending : (c.execute w tx world).run.ending = .failed error :=
        failed_of_error? herror
      rcases Client.execute_of_local hending hlocal with ⟨left, after, hrun⟩
      apply idles_of_refusal (c.engine.refuseTransaction error left after).run.aftermath _ rfl rfl
      intro exchange
      exact congrArg (fun done => done.run.aftermath) (hrun exchange)
  | query c q =>
      have hending : (c.query w q world).ending = .failed error := failed_of_error? herror
      rcases Client.query_of_local hending hlocal with ⟨after, hrun⟩
      apply idles_of_refusal (c.engine.refuse error after : Run σ Response).aftermath _ rfl rfl
      intro exchange
      exact congrArg Run.aftermath (hrun exchange)
  | executeAll c b =>
      have hending : (c.executeAll w b world).ending = .failed error := failed_of_error? herror
      rcases Client.executeAll_failed hending with ⟨left, hrun⟩ | ⟨_, _, _, hfailed, _⟩
      · have hall := fun exchange => congrArg BatchRun.aftermath (hrun exchange)
        exact idles_of_refusal _ hall rfl rfl
      · rw [hfailed] at hlocal
        cases hlocal

/-- A local error is returned only if nothing was done: nothing was sent to any node, no record of a
node has changed, and channels had no say in it.  If a batch fails with a local error of one of its
transactions, nothing was done for that transaction. -/
theorem local_error_idles (order : Order) (w : Surroundings σ) (world : σ) {error : ClientError}
    (herror : (order.aftermath w world).error? = some error) :
    (error.isLocal = true -> order.Idles w world) ∧
      forall index committed cause, error = .chunkFailed index committed cause ->
        cause.isLocal = true ->
        forall course, (order.aftermath w world).courses[index]? = some course -> course = [] := by
  refine ⟨idles_of_isLocal herror, ?_⟩
  intro index committed cause hfailed hlocal course hcourse
  rw [hfailed] at herror
  cases order with
  | deliver e request built deadline =>
      exact (Engine.deliver_isSingle (failed_of_error? herror)).elim
  | submit e tx deadline => exact (Engine.submit_isSingle (failed_of_error? herror)).elim
  | ask e q deadline => exact (Engine.query_isSingle (failed_of_error? herror)).elim
  | submitAll e b timeout =>
      have hending : (e.submitAll w b timeout world).ending = .failed _ :=
        failed_of_error? herror
      rcases Engine.submitAll_failed hending with ⟨_, _, _, hsame, hnothing⟩
      cases hsame
      exact hnothing hlocal course hcourse
  | execute c tx => exact (Client.execute_isSingle (failed_of_error? herror)).elim
  | query c q => exact (Client.query_isSingle (failed_of_error? herror)).elim
  | executeAll c b =>
      have hending : (c.executeAll w b world).ending = .failed _ := failed_of_error? herror
      rcases Client.executeAll_failed hending with ⟨left, hrun⟩ | ⟨_, _, _, hsame, hnothing⟩
      · have hown := hrun w.exchange
        change (c.executeAll (w.rewired w.exchange) b world).parts[index]? = some course at hcourse
        rw [hown] at hcourse
        cases hcourse
      · cases hsame
        exact hnothing hlocal course hcourse

/-- A query for a node that nobody has registered is refused. -/
def strayQuery : Order :=
  .ask soleEngine ⟨.accountBalance, [], [⟨9⟩]⟩ (Instant.ofMillis 10000)

theorem strayQuery_idles :
    (strayQuery.aftermath lossy false).error? = some (.unknownNode ⟨9⟩) ∧
      ClientError.isLocal (.unknownNode ⟨9⟩) = true ∧ strayQuery.Idles lossy false := by
  have herror : (strayQuery.aftermath lossy false).error? = some (.unknownNode ⟨9⟩) := by
    decide +kernel
  exact ⟨herror, rfl, (local_error_idles strayQuery lossy false herror).left rfl⟩

end Order

end LedgerClient
