import LedgerClient.Proofs.Delivery.Warrant
import LedgerClient.Proofs.Transaction.Reachable
import LedgerClient.Proofs.Wire.Messages

/-!
# Transactions that nodes recognise

Once a node has accepted a transaction, every node that is sent it again answers that it is a
duplicate.  Its acceptance need not have been reported: the answer can be late or lost, and
then the next node, or the next submission, meets a duplicate.  A transaction that ends as
completed was accepted.  One that ends as failed was not accepted before it was rejected,
unless it was rejected as a duplicate, which can happen to a transaction that was accepted.
-/

namespace LedgerClient

variable {σ : Type}

/-!
## What nodes are relied upon for
-/

/-- The octets that came back are those of a response. -/
def Answer.Conveys (answer : Answer) (reply : NodeResponse) : Prop :=
  exists bs, answer = .received bs ∧ NodeResponse.codec.read bs = .ok reply

theorem Attempt.conveys_of_reply? {a : Attempt} {reply : NodeResponse}
    (h : a.reply? = some reply) : a.answer.Conveys reply := by
  unfold Attempt.reply? at h
  cases hanswer : a.answer with
  | refused cause => simp [hanswer] at h
  | failed cause => simp [hanswer] at h
  | timedOut => simp [hanswer] at h
  | received bs =>
      cases hread : NodeResponse.codec.read bs with
      | error cause => simp [hanswer, hread] at h
      | ok other =>
          have hsame : other = reply := by simpa [hanswer, hread] using h
          rw [hsame] at hread
          exact ⟨bs, rfl, hread⟩

theorem Answer.conveys_encode {reply other : NodeResponse}
    (hcount : Codec.Countable (NodeResponse.codec.encode reply))
    (h : (Answer.received (NodeResponse.codec.encode reply)).Conveys other) : other = reply := by
  rcases h with ⟨bs, hbs, hread⟩
  injection hbs with hencode
  rw [← hencode, Codec.read_encode NodeResponse.lossless_codec hcount] at hread
  injection hread with hsame
  exact hsame.symm

/-- A call that sends a node the octets that a transaction has for it. -/
def Transaction.CarriedBy (tx : Transaction) (call : Call) : Prop :=
  exists p, tx.payloadFor? call.node = some p ∧ call.payload = p.wireBytes ∧
    call.method = tx.operation.method

/-- Nodes recognise a transaction: `accepted` tells in which states of the surroundings one of
them has accepted it, whether or not that was reported. -/
structure Surroundings.Recognises (w : Surroundings σ) (tx : Transaction)
    (accepted : σ -> Prop) : Prop where
  lasting : w.Lasting accepted
  taken : forall call limit s payload, tx.CarriedBy call ->
    (w.exchange call limit s).1.Conveys ⟨.ok, payload⟩ -> accepted (w.exchange call limit s).2.2
  duplicate : forall call limit s reply, tx.CarriedBy call -> accepted s ->
    (w.exchange call limit s).1.Conveys reply -> reply.status = .duplicateTransaction

theorem Makes.attempted_eq {w : Surroundings σ} {c d : Scene σ} {a : Attempt}
    (h : Makes w c (.attempted a) d) :
    a.answer = (w.exchange a.call a.limit (w.clock c.world).2).1 ∧
      d = (c.sent w a.call a.left a.limit).2.settled w a.node a.outcome := by
  cases h
  exact ⟨rfl, rfl⟩

section

variable {w : Surroundings σ} {tx : Transaction} {accepted : σ -> Prop} {c d : Scene σ}
  {a : Attempt} {reply : NodeResponse}

theorem Surroundings.Recognises.accepted_of_ok (h : w.Recognises tx accepted) {payload : Bytes}
    (hmakes : Makes w c (.attempted a) d) (hcarried : tx.CarriedBy a.call)
    (hreply : a.reply? = some ⟨.ok, payload⟩) : accepted d.world := by
  rcases hmakes.attempted_eq with ⟨hanswer, hscene⟩
  have hconveys := Attempt.conveys_of_reply? hreply
  rw [hanswer] at hconveys
  rw [hscene]
  exact h.lasting.settled a.node a.outcome (h.taken _ _ _ _ hcarried hconveys)

theorem Surroundings.Recognises.duplicate_of_accepted (h : w.Recognises tx accepted)
    (hmakes : Makes w c (.attempted a) d) (hcarried : tx.CarriedBy a.call)
    (hreply : a.reply? = some reply) (hc : accepted c.world) :
    reply.status = .duplicateTransaction := by
  have hconveys := Attempt.conveys_of_reply? hreply
  rw [hmakes.attempted_eq.left] at hconveys
  exact h.duplicate _ _ _ _ hcarried (h.lasting.clock _ hc) hconveys

end

/-!
## One submission
-/

/-- The node that decided a submission and its code. -/
def Ending.decision? : Ending Receipt → Option (NodeId × PrecheckCode)
  | .answered receipt => some (receipt.node, .ok)
  | .failed (.precheck node code) => some (node, code)
  | _ => none

theorem Ending.decision?_of_isLocal {error : ClientError} (h : error.isLocal = true) :
    (Ending.failed error).decision? = none := by
  cases error with
  | precheck node code => cases h
  | _ => rfl

/-- The reply to the last attempt of a run from `start`, made at the scene `c`, decided it. -/
structure DecidedAt (w : Surroundings σ) (start c : Scene σ) (a : Attempt)
    (code : PrecheckCode) (run : Run σ Receipt) : Prop where
  ending : run.ending.decision? = some (a.node, code)
  replied : exists payload, a.reply? = some ⟨code, payload⟩
  last : exists before d, run.steps = before ++ [.attempted a, .looked false] ∧
    Passage w start before c ∧ Makes w c (.attempted a) d ∧
    Passage w d [.looked false] run.scene

section

variable {request : Request} {course : List Step}

theorem Concludes.of_answered {r : Response} (h : Concludes request course (.answered r)) :
    exists before a, course = before ++ [.attempted a, .looked false] ∧
      a.reply? = some ⟨.ok, r.payload⟩ ∧ a.node = r.node := by
  cases h with
  | @answered earlier a _ _ _ houtcome =>
      exact ⟨earlier, a, rfl, Attempt.outcome_eq_accepted_iff.mp houtcome, rfl⟩

theorem Concludes.of_rejected {node : NodeId} {code : PrecheckCode}
    (h : Concludes request course (.failed (.precheck node code))) :
    exists before a payload, course = before ++ [.attempted a, .looked false] ∧
      a.reply? = some ⟨code, payload⟩ ∧ a.node = node := by
  cases h with
  | @rejected earlier a _ _ houtcome =>
      rcases Attempt.outcome_eq_rejected_iff.mp houtcome with ⟨payload, hreply, _⟩
      exact ⟨earlier, a, payload, rfl, hreply, rfl⟩

end

namespace Engine

/-- A decision is the code of the reply to the last attempt. -/
theorem decided_of_concludes {request : Request} {course : List Step} {ending : Ending Response}
    {id : TransactionId} {hashes : List (NodeId × Hash)} {tx : Transaction} {node : NodeId}
    {code : PrecheckCode} (h : Concludes request course ending)
    (hdecision : (settle id hashes tx ending).1.decision? = some (node, code)) :
    exists before a payload, course = before ++ [.attempted a, .looked false] ∧
      a.reply? = some ⟨code, payload⟩ ∧ a.node = node := by
  cases ending with
  | answered r =>
      rcases h.of_answered with ⟨before, a, hcourse, hreply, hnode⟩
      cases hfind : hashes.find? (fun entry => entry.1 == r.node) with
      | none => simp [settle, hfind, Ending.decision?] at hdecision
      | some entry =>
          have hsame : r.node = node ∧ PrecheckCode.ok = code := by
            simpa [settle, hfind, Ending.decision?] using hdecision
          rw [hsame.right] at hreply
          exact ⟨before, a, r.payload, hcourse, hreply, hnode.trans hsame.left⟩
  | failed error =>
      cases error with
      | precheck other reason =>
          cases hdecision
          exact h.of_rejected
      | _ => cases hdecision
  | halted halt => cases hdecision

variable {e : Engine} {tx : Transaction} {w : Surroundings σ} {deadline : Instant} {world : σ}

theorem submit_passage (e : Engine) (w : Surroundings σ) (tx : Transaction) (deadline : Instant)
    (world : σ) :
    Passage w { world := world, registry := e.registry }
      (e.submit w tx deadline world).run.steps (e.submit w tx deadline world).run.scene := by
  rcases e.submit_cases w tx deadline world with
    ⟨error, _, hrun⟩ | ⟨request, id, hashes, _, hrun⟩
  · rw [hrun]
    exact .done _
  · rw [hrun]
    exact e.deliver_passage w request deadline world

theorem submit_lastAttempt {node : NodeId} {code : PrecheckCode}
    (h : (e.submit w tx deadline world).run.ending.decision? = some (node, code)) :
    exists before a payload,
      (e.submit w tx deadline world).run.steps = before ++ [.attempted a, .looked false] ∧
        a.reply? = some ⟨code, payload⟩ ∧ a.node = node := by
  rcases e.submit_cases w tx deadline world with
    ⟨error, hlocal, hrun⟩ | ⟨request, id, hashes, hadmits, hrun⟩
  · have hnone : (e.submit w tx deadline world).run.ending.decision? = none := by
      rw [hrun]
      exact Ending.decision?_of_isLocal hlocal
    rw [hnone] at h
    cases h
  · rcases hadmits.known with ⟨candidates, hcandidates⟩
    rw [hrun, carryOut_ending] at h
    rw [hrun, carryOut_steps]
    exact decided_of_concludes (deliver_concludes hcandidates w deadline world) h

theorem submit_decidedAt {node : NodeId} {code : PrecheckCode}
    (h : (e.submit w tx deadline world).run.ending.decision? = some (node, code)) :
    exists c a, a.node = node ∧ tx.CarriedBy a.call ∧
      DecidedAt w { world := world, registry := e.registry } c a code
        (e.submit w tx deadline world).run := by
  rcases submit_lastAttempt h with ⟨before, a, payload, hsteps, hreply, hnode⟩
  have hpassage := e.submit_passage w tx deadline world
  have hsends := e.submit_sends w tx deadline world a
  rw [hsteps] at hpassage hsends
  rcases hpassage.at_step with ⟨c, d, hbefore, hmakes, hafter⟩
  rw [← hnode] at h
  exact ⟨c, a, hnode, hsends (by simp), h, ⟨payload, hreply⟩, before, d, hsteps, hbefore, hmakes,
    hafter⟩

theorem Reports.of_failed {course : List Step} {ending : Ending Receipt}
    (h : Reports tx course ending .failed) :
    exists node code, ending = .failed (.precheck node code) := by
  cases h with
  | failed node code => exact ⟨node, code, rfl⟩

theorem Reports.of_completed {course : List Step} {ending : Ending Receipt}
    (h : Reports tx course ending .completed) : exists receipt, ending = .answered receipt := by
  cases h with
  | completed receipt _ => exact ⟨receipt, rfl⟩

/-- A submission that changes the state to failed or completed was decided. -/
theorem submit_decision (e : Engine) (w : Surroundings σ) (tx : Transaction) (deadline : Instant)
    (world : σ) :
    (tx.state ≠ .failed -> (e.submit w tx deadline world).transaction.state = .failed ->
        exists node code,
          (e.submit w tx deadline world).run.ending = .failed (.precheck node code)) ∧
      (tx.state ≠ .completed -> (e.submit w tx deadline world).transaction.state = .completed ->
        exists receipt, (e.submit w tx deadline world).run.ending = .answered receipt) := by
  rcases e.submit_reports w tx deadline world with
    ⟨error, _, hrun⟩ | ⟨_, state, hreports, hdone⟩
  · rw [hrun]
    exact ⟨fun hstate hfailed => (hstate hfailed).elim,
      fun hstate hcompleted => (hstate hcompleted).elim⟩
  · rw [hdone]
    constructor
    · intro _ hfailed
      rw [show state = .failed from hfailed] at hreports
      exact hreports.of_failed
    · intro _ hcompleted
      rw [show state = .completed from hcompleted] at hreports
      exact hreports.of_completed

end Engine

/-!
## Submissions of one transaction
-/

/-- Neither success nor rejection was reported. -/
def Ending.IsOpen {α : Type} : Ending α → Prop
  | .failed (.deadlineExceeded _ _ _) => True
  | .failed .cancelled => True
  | _ => False

/-- A transaction is submitted, and once more after each submission that left it open.  What
happens between two submissions undoes no acceptance.  The last of them begins at `start`. -/
inductive Submissions (w : Surroundings σ) (accepted : σ -> Prop) (tx : Transaction) :
    (start : Scene σ) -> TransactionRun σ -> Prop where
  | first (e : Engine) (deadline : Instant) (world : σ) :
      Submissions w accepted tx { world := world, registry := e.registry }
        (e.submit w tx deadline world)
  | again {start : Scene σ} {done : TransactionRun σ} (e : Engine) (deadline : Instant)
      (world : σ) :
      Submissions w accepted tx start done ->
      done.run.ending.IsOpen ->
      (accepted done.run.world -> accepted world) ->
      Submissions w accepted tx { world := world, registry := e.registry }
        (e.submit w done.transaction deadline world)

section

variable {w : Surroundings σ} {accepted : σ -> Prop} {tx : Transaction} {start c : Scene σ}
  {done : TransactionRun σ} {a : Attempt} {code : PrecheckCode}

theorem Engine.Settles.signed_of_isOpen (h : Settles tx done) (hopen : done.run.ending.IsOpen) :
    done.transaction = { tx with state := .signed } := by
  have hstate : done.transaction.state = .signed := by
    generalize hending : done.run.ending = ending at hopen
    cases ending with
    | answered receipt => cases hopen
    | failed error =>
        cases error with
        | deadlineExceeded attempts nodes setback => exact h.exhausted _ _ _ hending
        | cancelled => exact h.cancelled hending
        | _ => cases hopen
    | halted halt => cases hopen
  rw [h.frame, hstate]

/-- The last submission is that of the same transaction, in the state that it first had or
signed again. -/
theorem Submissions.last (h : Submissions w accepted tx start done) :
    exists (e : Engine) (deadline : Instant) (state : TransactionState),
      start.registry = e.registry ∧ (state = tx.state ∨ state = .signed) ∧
        done = e.submit w { tx with state := state } deadline start.world := by
  induction h with
  | first e deadline world => exact ⟨e, deadline, tx.state, rfl, Or.inl rfl, rfl⟩
  | @again start done e deadline world _ hopen _ ih =>
      rcases ih with ⟨before, earlier, state, _, _, hdone⟩
      have hsettles := before.submit_settles w { tx with state := state } earlier start.world
      rw [← hdone] at hsettles
      refine ⟨e, deadline, .signed, rfl, Or.inr rfl, ?_⟩
      rw [hsettles.signed_of_isOpen hopen]

theorem DecidedAt.accepted_of_ok (hrecognises : w.Recognises tx accepted)
    (h : DecidedAt w start c a .ok done.run) (hcarried : tx.CarriedBy a.call) :
    accepted done.run.world := by
  rcases h.replied with ⟨payload, hreply⟩
  rcases h.last with ⟨before, d, _, _, hmakes, hafter⟩
  exact hrecognises.lasting.passage hafter (hrecognises.accepted_of_ok hmakes hcarried hreply)

theorem DecidedAt.not_accepted (hrecognises : w.Recognises tx accepted)
    (h : DecidedAt w start c a code done.run) (hcarried : tx.CarriedBy a.call)
    (hcode : code ≠ .duplicateTransaction) : ¬ accepted c.world := by
  intro haccepted
  rcases h.replied with ⟨payload, hreply⟩
  rcases h.last with ⟨before, d, _, _, hmakes, _⟩
  exact hcode (hrecognises.duplicate_of_accepted hmakes hcarried hreply haccepted)

/-- A transaction ends as completed only if it was accepted.  It ends as failed only by the
rejection of a node, and unless the node took it for a duplicate, none had accepted it when
that node was asked. -/
theorem Submissions.verdict (hrecognises : w.Recognises tx accepted)
    (h : Submissions w accepted tx start done) :
    (tx.state ≠ .failed -> done.transaction.state = .failed ->
        exists c a code, tx.CarriedBy a.call ∧ DecidedAt w start c a code done.run ∧
          done.run.ending = .failed (.precheck a.node code) ∧
          (code ≠ .duplicateTransaction -> ¬ accepted c.world)) ∧
      (tx.state ≠ .completed -> done.transaction.state = .completed ->
        accepted done.run.world) := by
  -- Acceptance lasts and an open submission leaves the transaction signed, so only the last
  -- submission counts.
  rcases h.last with ⟨e, deadline, state, hregistry, hstate, hdone⟩
  have hstart : start = { world := start.world, registry := e.registry } := by
    rw [← hregistry]
  have hdecision := e.submit_decision w { tx with state := state } deadline start.world
  have hdecided := @Engine.submit_decidedAt σ e { tx with state := state } w deadline start.world
  rw [← hdone] at hdecision hdecided
  rw [← hstart] at hdecided
  have hother : forall other, tx.state ≠ other -> other ≠ .signed -> state ≠ other := by
    intro other hbefore hsigned heq
    rcases hstate with hsame | hagain
    · exact hbefore (hsame.symm.trans heq)
    · exact hsigned (heq.symm.trans hagain)
  constructor
  · intro hbefore hfailed
    rcases hdecision.left (hother _ hbefore (by decide)) hfailed with ⟨node, code, hending⟩
    rcases hdecided (congrArg Ending.decision? hending) with ⟨c, a, hnode, hcarried, hat⟩
    rw [← hnode] at hending
    exact ⟨c, a, code, hcarried, hat, hending, hat.not_accepted hrecognises hcarried⟩
  · intro hbefore hcompleted
    rcases hdecision.right (hother _ hbefore (by decide)) hcompleted with ⟨receipt, hending⟩
    rcases hdecided (congrArg Ending.decision? hending) with ⟨c, a, _, hcarried, hat⟩
    exact hat.accepted_of_ok hrecognises hcarried

end

/-!
## A rejection and a lost answer
-/

/-- The state tells whether the transaction was accepted.  Until then every call has the same
answer, and the node accepts what it was sent or not. -/
def answering (answer : Answer) (takes : Bool) : Surroundings Bool where
  timer s := (⟨0⟩, s)
  clock s := (0, s)
  isCancelled s := (false, s)
  pause _ s := (.elapsed, [], s)
  exchange _ _ s :=
    if s then
      (.received (NodeResponse.codec.encode ⟨.duplicateTransaction, []⟩), [], true)
    else (answer, [], takes)
  nonce s := (0, s)
  patience := 0

theorem answering_recognises {answer : Answer} {takes : Bool} (tx : Transaction)
    (htaken : forall payload, answer.Conveys ⟨.ok, payload⟩ -> takes = true) :
    (answering answer takes).Recognises tx (fun s => s = true) where
  lasting :=
    { timer := fun _ h => h
      clock := fun _ h => h
      isCancelled := fun _ h => h
      pause := fun _ _ h => h
      exchange := by
        intro call limit s h
        rw [h]
        rfl }
  taken := by
    intro call limit s payload _ hconveys
    cases s with
    | false => exact htaken payload hconveys
    | true => rfl
  duplicate := by
    intro call limit s reply _ haccepted hconveys
    rw [haccepted] at hconveys
    have hcount : Codec.Countable (NodeResponse.codec.encode ⟨.duplicateTransaction, []⟩) :=
      Codec.countable_iff.mpr (by decide)
    rw [Answer.conveys_encode hcount hconveys]

/-- A transfer to one node that was signed. -/
def soleTransfer : Transaction :=
  let draft := Transaction.new (.transfer (some ⟨.fill 32 7⟩) 5)
  let named := draft.afterCall (draft.setId (.new ⟨.fill 32 7⟩ 1000))
  let frozen := (named.freezeWith [⟨3⟩]).1
  frozen.afterCall (frozen.sign ⟨.fill 32 1, fun _ => .fill 64 2⟩)

def soleNode : Node :=
  .new ⟨3⟩ "10.0.0.3:50211" Health.defaultMinBackoff Health.defaultMaxBackoff

def soleEngine : Engine :=
  { settings :=
      { transport := .plaintext
        maxAttempts := none
        attemptShare := default
        waitForUnhealthy := false }
    registry :=
      { nodes := [soleNode]
        nodes_ne_nil := List.cons_ne_nil soleNode []
        ids_nodup := by decide
        addresses_nodup := by decide } }

def lowFee : NodeResponse :=
  { status := .insufficientFee, payload := [] }

/-- The node does not accept the transfer for its fee. -/
def refusing : Surroundings Bool :=
  answering (.received (NodeResponse.codec.encode lowFee)) false

theorem refusing_recognises (tx : Transaction) :
    refusing.Recognises tx (fun s => s = true) := by
  apply answering_recognises
  intro payload hconveys
  have hcount : Codec.Countable (NodeResponse.codec.encode lowFee) :=
    Codec.countable_iff.mpr (by decide)
  cases Answer.conveys_encode hcount hconveys

def refusedRun : TransactionRun Bool :=
  soleEngine.submit refusing soleTransfer (Instant.ofMillis 10000) false

theorem refusedRun_ending :
    refusedRun.run.ending = .failed (.precheck ⟨3⟩ .insufficientFee) := by
  decide +kernel

theorem refusedRun_state : refusedRun.transaction.state = .failed := by
  decide +kernel

/-- The transfer that was refused for its fee had not been accepted. -/
theorem refusedRun_unaccepted :
    exists start c a, refusing.Recognises soleTransfer (fun s => s = true) ∧
      Submissions refusing (fun s => s = true) soleTransfer start refusedRun ∧
      soleTransfer.state = .signed ∧ refusedRun.transaction.state = .failed ∧
      DecidedAt refusing start c a .insufficientFee refusedRun.run ∧ ¬ c.world = true := by
  have hrecognises := refusing_recognises soleTransfer
  have hsubmissions : Submissions refusing (fun s => s = true) soleTransfer _ refusedRun :=
    .first soleEngine (Instant.ofMillis 10000) false
  have hverdict := (hsubmissions.verdict hrecognises).left (by decide +kernel) refusedRun_state
  rcases hverdict with ⟨c, a, code, _, hat, hending, hnot⟩
  rw [refusedRun_ending] at hending
  injection hending with herror
  injection herror with _ hcode
  rw [← hcode] at hat hnot
  exact ⟨_, c, a, hrecognises, hsubmissions, rfl, refusedRun_state, hat, hnot (by decide)⟩

/-- The node accepts what it is sent, but its answer is lost. -/
def lossy : Surroundings Bool :=
  answering .timedOut true

theorem lossy_recognises (tx : Transaction) : lossy.Recognises tx (fun s => s = true) := by
  apply answering_recognises
  intro _ _
  rfl

def lostRun : TransactionRun Bool :=
  soleEngine.submit lossy soleTransfer (Instant.ofMillis 10000) false

theorem lostRun_ending :
    lostRun.run.ending =
      .failed (.deadlineExceeded 1 [⟨3⟩] (some (.failed (.transport .timeout)))) := by
  decide +kernel

/-- The engine that submitted the transfer submits it once more. -/
def repeatedRun : TransactionRun Bool :=
  { soleEngine with registry := lostRun.run.registry }.submit lossy lostRun.transaction
    (Instant.ofMillis 20000) lostRun.run.world

theorem repeatedRun_failed :
    repeatedRun.transaction.state = .failed ∧ repeatedRun.run.world = true := by
  decide +kernel

/-- A transaction ends as failed although a node has accepted it. -/
theorem failed_although_accepted :
    ¬ forall (w : Surroundings Bool) (accepted : Bool -> Prop) (tx : Transaction)
        (start : Scene Bool) (done : TransactionRun Bool),
        w.Recognises tx accepted -> Submissions w accepted tx start done ->
        tx.state ≠ .failed -> done.transaction.state = .failed -> ¬ accepted done.run.world := by
  intro hclaim
  have hlost : Submissions lossy (fun s => s = true) soleTransfer _ lostRun :=
    .first soleEngine (Instant.ofMillis 10000) false
  have hopen : lostRun.run.ending.IsOpen := by
    rw [lostRun_ending]
    trivial
  have hrepeated : Submissions lossy (fun s => s = true) soleTransfer _ repeatedRun :=
    .again { soleEngine with registry := lostRun.run.registry } (Instant.ofMillis 20000)
      lostRun.run.world hlost hopen id
  exact hclaim _ _ _ _ _ (lossy_recognises soleTransfer) hrepeated (by decide +kernel)
    repeatedRun_failed.left repeatedRun_failed.right

end LedgerClient
