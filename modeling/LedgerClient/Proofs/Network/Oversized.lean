import LedgerClient.Proofs.Delivery.Errands
import LedgerClient.Proofs.Delivery.Failover
import LedgerClient.Proofs.Network.Frames

/-!
# Requests that are too long

A message that is too long for a frame is refused before anything is sent, by the sender and for
every node alike.  But the refusal comes from the connection, so it is taken for a failure of the
node: it is entered into the record of every node that is asked, and the next one is tried.
-/

namespace LedgerClient

variable {σ : Type}

def Call.message (call : Call) : Message :=
  { method := call.method, payload := call.payload }

/-- Whatever there is for a node is too long for a frame, with the method and its own length. -/
def Request.IsOversized (r : Request) : Prop :=
  forall node, node ∈ r.nodes -> forall payload, r.payloadFor? node = some payload ->
    Frame.maxLength < payload.length + 10

theorem Tcp.exchange_of_oversized {call : Call} (hlong : Frame.maxLength < call.payload.length + 10)
    (incoming : Bytes) :
    exchange call.message incoming =
      { sent := [], result := .error (Frame.tooLong (call.payload.length + 10)) } := by
  have hlength : (Message.codec.encode call.message).length = call.payload.length + 10 :=
    call.message.length_encode
  rw [← hlength] at hlong ⊢
  exact exchange_of_long hlong incoming

/-!
## Attempts that bounce
-/

/-- Calls go over connections of their own, which every node takes; a call may also be given up when
its time is up. -/
structure Surroundings.Dials (w : Surroundings σ) (dialer : Tcp.Dialer σ) : Prop where
  taken : forall address s, exists incoming opened,
    dialer.connect address s = (.accepted incoming, opened)
  exchange : forall call limit s, (w.exchange call limit s).1 = .timedOut ∨
    (w.exchange call limit s).1 = (Tcp.answer dialer call s).1

/-- Whatever the node says, nothing is sent to it, and the attempt fails. -/
structure Attempt.Bounces (a : Attempt) : Prop where
  unsent : forall incoming, (Tcp.exchange a.call.message incoming).sent = []
  answer : a.answer = .timedOut ∨ a.answer = .failed (Frame.tooLong (a.call.payload.length + 10))

theorem Attempt.Bounces.retryable {a : Attempt} (h : a.Bounces) :
    exists fault, a.outcome = .retryable fault := by
  unfold outcome
  rcases h.answer with hanswer | hanswer
  · rw [hanswer]
    exact ⟨_, rfl⟩
  · rw [hanswer]
    exact ⟨_, rfl⟩

section

variable {w : Surroundings σ} {dialer : Tcp.Dialer σ} {call : Call}

theorem Surroundings.Dials.answer (h : w.Dials dialer) (hplain : call.mode = .plaintext)
    (hlong : Frame.maxLength < call.payload.length + 10) (s : σ) :
    (Tcp.answer dialer call s).1 = .failed (Frame.tooLong (call.payload.length + 10)) := by
  rcases h.taken call.address s with ⟨incoming, opened, hopen⟩
  have hsend := Tcp.send_of_accepted hopen call.message
  rw [Tcp.exchange_of_oversized hlong, Call.message] at hsend
  rw [Tcp.answer, hplain]
  dsimp only [Tcp.supports]
  rw [hsend]

theorem Passage.exists_exchange {c d : Scene σ} {steps : List Step} (h : Passage w c steps d)
    {a : Attempt} (ha : a ∈ attemptsIn steps) :
    exists s, a.answer = (w.exchange a.call a.limit s).1 := by
  induction h with
  | done c => cases ha
  | timed _ ih => exact ih ha
  | clocked _ ih => exact ih ha
  | @made c between d step steps hstep _ ih =>
      cases step with
      | attempted b =>
          rcases List.mem_cons.mp ha with hsame | hlater
          · rw [hsame]
            exact ⟨_, hstep.attempted_eq.left⟩
          · exact ih hlater
      | looked cancelled => exact ih ha
      | expired => exact ih ha
      | paused node length left wake => exact ih ha
      | skipped node backoff left => exact ih ha

end

/-!
## Records
-/

/-- The record after attempts that failed, each begun at one reading of the clock and entered as a
failure at another. -/
def Health.afterFailures (h : Health) (times : List (Timestamp × Timestamp)) : Health :=
  times.foldl (fun h time => (h.markUsed time.1).recordFailure time.2) h

theorem Health.failureCount_afterFailures (h : Health) (times : List (Timestamp × Timestamp)) :
    (h.afterFailures times).failureCount = h.failureCount + times.length := by
  induction times generalizing h with
  | nil => rfl
  | cons time rest ih =>
      show (((h.markUsed time.1).recordFailure time.2).afterFailures rest).failureCount = _
      rw [ih, List.length_cons]
      show h.failureCount + 1 + rest.length = _
      omega

/-- The record of a node after attempts at it that all failed. -/
def Charged (before after : Health) (attempts : List Attempt) : Prop :=
  exists times, times.map Prod.fst = attempts.map Attempt.usedAt ∧
    after = before.afterFailures times

theorem Charged.refl (h : Health) : Charged h h [] :=
  ⟨[], rfl, rfl⟩

theorem Charged.trans {first second third : Health} {xs ys : List Attempt}
    (hx : Charged first second xs) (hy : Charged second third ys) :
    Charged first third (xs ++ ys) := by
  rcases hx with ⟨earlier, hearlier, hsecond⟩
  rcases hy with ⟨later, hlater, hthird⟩
  refine ⟨earlier ++ later, ?_, ?_⟩
  · rw [List.map_append, List.map_append, hearlier, hlater]
  · rw [hthird, hsecond, Health.afterFailures, Health.afterFailures, Health.afterFailures,
      List.foldl_append]

theorem Charged.failureCount {before after : Health} {attempts : List Attempt}
    (h : Charged before after attempts) :
    after.failureCount = before.failureCount + attempts.length := by
  rcases h with ⟨times, htimes, hafter⟩
  have hlengths := congrArg List.length htimes
  rw [List.length_map, List.length_map] at hlengths
  rw [hafter, Health.failureCount_afterFailures, hlengths]

section

variable {w : Surroundings σ} {c d : Scene σ} {step : Step} {steps : List Step} {node : NodeId}

theorem Makes.charged (halone : w.Alone) (h : Makes w c step d)
    (hfails : forall a, a ∈ attemptsIn [step] -> exists fault, a.outcome = .retryable fault)
    (hnode : node ∈ c.registry.ids) :
    Charged (c.registry.health node) (d.registry.health node)
      (attemptsAt node (attemptsIn [step])) := by
  cases step with
  | attempted a =>
      rcases hfails a List.mem_cons_self with ⟨fault, houtcome⟩
      rcases h.entries_of_attempted with ⟨now, hentries⟩
      rw [hentries, halone.meantime, houtcome, Registry.health_meanwhile hnode, List.nil_append,
        eventsAt_append]
      by_cases hsame : a.node = node
      · subst hsame
        rw [eventsAt_same, eventsAt_same]
        exact ⟨[(a.usedAt, now)], by simp [attemptsAt], rfl⟩
      · rw [eventsAt_other hsame, eventsAt_other hsame]
        simpa [attemptsAt, hsame] using Charged.refl _
  | looked cancelled =>
      rw [h.entries_of_no_attempt rfl]
      exact .refl _
  | expired =>
      rw [h.entries_of_no_attempt rfl]
      exact .refl _
  | paused node length left wake =>
      rw [h.entries_of_no_attempt rfl, halone.meantime]
      exact .refl _
  | skipped node backoff left =>
      rw [h.entries_of_no_attempt rfl]
      exact .refl _

theorem Passage.charged (halone : w.Alone) (h : Passage w c steps d)
    (hfails : forall a, a ∈ attemptsIn steps -> exists fault, a.outcome = .retryable fault)
    (hnode : node ∈ c.registry.ids) :
    Charged (c.registry.health node) (d.registry.health node)
      (attemptsAt node (attemptsIn steps)) := by
  induction h with
  | done c => exact .refl _
  | timed _ ih => exact ih hfails hnode
  | clocked _ ih => exact ih hfails hnode
  | @made c between d step steps hstep _ ih =>
      rw [show step :: steps = [step] ++ steps from rfl, attemptsIn_append] at hfails ⊢
      rcases List.forall_mem_append.mp hfails with ⟨hfirst, hlater⟩
      have hbetween : node ∈ between.registry.ids := by
        rw [hstep.ids]
        exact hnode
      have hboth := (hstep.charged halone hfirst hnode).trans (ih hlater hbetween)
      rw [attemptsAt, List.filter_append]
      exact hboth

end

/-!
## Deliveries
-/

/-- No node takes the request or turns it away, and every attempt is charged to its node. -/
structure Run.Bounces {α : Type} (start : Registry) (run : Run σ α) : Prop where
  attempts : forall a, a ∈ run.attempts -> a.Bounces
  unanswered : forall value, run.ending ≠ .answered value
  unrejected : forall node code, run.ending ≠ .failed (.precheck node code)
  charged : forall node, node ∈ start.ids ->
    Charged (start.health node) (run.registry.health node) (attemptsAt node run.attempts)

/-- Nothing keeps a candidate from its turn. -/
structure Engine.Unhindered (e : Engine) (w : Surroundings σ) (deadline : Instant)
    (steps : List Step) : Prop where
  valid : e.settings.validate = .ok ()
  deadline : deadline.InRange
  patience : 0 < w.patience
  unlimited : e.settings.maxAttempts = none
  steps : forall step, step ∈ steps -> step.hinders = false

namespace Engine

variable {w : Surroundings σ} {dialer : Tcp.Dialer σ} {e : Engine} {request : Request}
  {deadline : Instant} {world : σ}

theorem refuse_bounces {α : Type} (e : Engine) {error : ClientError} (hlocal : error.isLocal = true)
    (world : σ) : Run.Bounces e.registry (e.refuse error world : Run σ α) where
  attempts := by
    intro a ha
    cases ha
  unanswered := by
    intro value h
    cases h
  unrejected := by
    intro node code h
    cases h
    cases hlocal
  charged := fun node _ => .refl _

theorem deliver_attempt_bounces (hdials : w.Dials dialer)
    (hplain : e.settings.transport = .plaintext) (hlong : request.IsOversized) {a : Attempt}
    (ha : a ∈ (e.deliver w request deadline world).attempts) : a.Bounces := by
  rcases e.deliver_attempts w request deadline world ha with ⟨_, node, _, _, hrequested, hcall⟩
  have hpayload : Frame.maxLength < a.call.payload.length + 10 :=
    hlong node.id hrequested _ hcall.payload
  constructor
  case unsent =>
    intro incoming
    rw [Tcp.exchange_of_oversized hpayload]
  case answer =>
    rcases (e.deliver_passage w request deadline world).exists_exchange ha with ⟨s, hanswer⟩
    rw [hanswer]
    rcases hdials.exchange a.call a.limit s with htimedOut | hsame
    · exact Or.inl htimedOut
    · right
      rw [hsame]
      exact hdials.answer (hcall.mode.trans hplain) hpayload s

theorem deliver_bounces (hdials : w.Dials dialer) (halone : w.Alone)
    (hplain : e.settings.transport = .plaintext) (hlong : request.IsOversized) :
    (e.deliver w request deadline world).Bounces e.registry := by
  have hbounces : forall a, a ∈ (e.deliver w request deadline world).attempts -> a.Bounces :=
    fun a ha => deliver_attempt_bounces hdials hplain hlong ha
  cases hcandidates : e.registry.candidates request.nodes with
  | error error =>
      rcases Registry.candidates_eq_error hcandidates with ⟨unknown, hunknown⟩
      rw [deliver_eq_refuse hcandidates]
      apply e.refuse_bounces
      rw [hunknown]
      rfl
  | ok candidates =>
      have hconcludes := deliver_concludes hcandidates w deadline world
      constructor
      case attempts => exact hbounces
      case unanswered =>
        intro response h
        rcases (answered_iff hconcludes).mp h with ⟨a, hlast, haccepted, _⟩
        rcases (hbounces a (List.mem_of_getLast? hlast)).retryable with ⟨fault, hfault⟩
        rw [hfault] at haccepted
        cases haccepted
      case unrejected =>
        intro node code h
        rcases (rejected_iff hconcludes).mp h with ⟨a, hlast, hrejected, _⟩
        rcases (hbounces a (List.mem_of_getLast? hlast)).retryable with ⟨fault, hfault⟩
        rw [hfault] at hrejected
        cases hrejected
      case charged =>
        exact fun node hnode => (e.deliver_passage w request deadline world).charged halone
          (fun a ha => (hbounces a ha).retryable) hnode

/-- With all attempts in vain, every candidate has its turn. -/
theorem deliver_asks_all {candidates : List Node} (hbuilt : request.Built)
    (hcandidates : e.registry.candidates request.nodes = .ok candidates)
    (hfails : forall a, a ∈ (e.deliver w request deadline world).attempts ->
      exists fault, a.outcome = .retryable fault)
    (hfree : e.Unhindered w deadline (e.deliver w request deadline world).steps) {node : NodeId}
    (hnode : node ∈ request.nodes) :
    node ∈ (e.deliver w request deadline world).attempts.map Attempt.node := by
  have hdecides := deliver_firstDecides hcandidates hfree.valid hfree.deadline hfree.patience
    hbuilt hfree.unlimited hfree.steps
  cases hdecides with
  | @answered before a payload hattempts _ _ houtcome _ =>
      rcases hfails a (by rw [hattempts]; exact List.mem_concat_self) with ⟨fault, hfault⟩
      rw [hfault] at houtcome
      cases houtcome
  | @rejected before a code hattempts _ _ houtcome _ =>
      rcases hfails a (by rw [hattempts]; exact List.mem_concat_self) with ⟨fault, hfault⟩
      rw [hfault] at houtcome
      cases houtcome
  | none setback hall _ _ =>
      rw [← Registry.map_id_candidates hcandidates] at hnode
      rcases List.mem_map.mp hnode with ⟨n, hn, hid⟩
      rw [hall, ← hid]
      exact List.mem_map_of_mem (Ranking.mem_rank.mpr hn)

/-- Nothing hinders a delivery that does not wait for nodes, if nobody cancels and the deadline is
not reached. -/
theorem not_hindered (hwait : e.settings.waitForUnhealthy = false)
    (hcancelled : forall s, (w.isCancelled s).1 = false)
    (htime : forall s, ((w.timer s).1.timeUntil deadline).isZero = false) {step : Step}
    (hstep : step ∈ (e.deliver w request deadline world).steps) : step.hinders = false := by
  rcases List.append_of_mem hstep with ⟨before, after, hsteps⟩
  rcases deliver_warrantedAt hsteps with ⟨m, c, d, _, hwarranted, hmakes, _⟩
  cases hwarranted with
  | looked cancelled =>
      cases hmakes
      exact hcancelled _
  | late hzero =>
      rw [Scene.timeLeft, htime] at hzero
      cases hzero
  | overslept hfree hzero =>
      rw [hfree.left_eq, Scene.timeLeft, htime] at hzero
      cases hzero
  | paused _ hwaiting _ _ _ =>
      rw [hwait] at hwaiting
      cases hwaiting
  | skipped hwaiting _ _ _ =>
      rw [hwait] at hwaiting
      cases hwaiting
  | attempted _ _ => rfl

/-!
## Queries and transactions
-/

theorem query_bounces {q : Query} (hdials : w.Dials dialer) (halone : w.Alone)
    (hplain : e.settings.transport = .plaintext)
    (hlong : Frame.maxLength < q.payload.length + 10) :
    (e.query w q deadline world).Bounces e.registry ∧
      forall candidates, e.registry.candidates (e.askedNodes q) = .ok candidates ->
        e.Unhindered w deadline (e.query w q deadline world).steps ->
        forall node, node ∈ e.askedNodes q ->
          node ∈ (e.query w q deadline world).attempts.map Attempt.node := by
  rcases e.exists_query_eq w q deadline world with ⟨request, hrequest, hrun⟩
  have hoversized : request.IsOversized := by
    intro node hnode payload hpayload
    rw [(Request.payloadFor?_ofQuery hrequest).right node hnode] at hpayload
    cases hpayload
    exact hlong
  have hbounces := @deliver_bounces σ w dialer e request deadline world hdials halone hplain
    hoversized
  rw [hrun, ← Request.nodes_ofQuery hrequest]
  refine ⟨hbounces, ?_⟩
  intro candidates hcandidates hfree node hnode
  exact deliver_asks_all (.query q _ hrequest) hcandidates
    (fun a ha => (hbounces.attempts a ha).retryable) hfree hnode

/-- What becomes of a transaction follows from the delivery of its request. -/
theorem carryOut_bounces {tx : Transaction} {id : TransactionId} {hashes : List (NodeId × Hash)}
    (h : (e.deliver w request deadline world).Bounces e.registry) :
    (e.carryOut w tx request id hashes deadline world).run.Bounces e.registry := by
  have hending : forall ending : Ending Receipt,
      (e.carryOut w tx request id hashes deadline world).run.ending = ending ->
        (exists halt, ending = .halted halt) ∨
          exists error, ending = .failed error ∧
            (e.deliver w request deadline world).ending = .failed error := by
    intro ending hsame
    rw [← hsame, carryOut_ending]
    cases hdelivered : (e.deliver w request deadline world).ending with
    | answered response => exact (h.unanswered response hdelivered).elim
    | failed error => exact Or.inr ⟨error, rfl, rfl⟩
    | halted halt => exact Or.inl ⟨halt, rfl⟩
  constructor
  case attempts => exact h.attempts
  case unanswered =>
    intro receipt hanswered
    rcases hending _ hanswered with ⟨halt, hother⟩ | ⟨error, hother, _⟩
    · cases hother
    · cases hother
  case unrejected =>
    intro node code hrejected
    rcases hending _ hrejected with ⟨halt, hother⟩ | ⟨error, hother, hdelivered⟩
    · cases hother
    · cases hother
      exact h.unrejected node code hdelivered
  case charged => exact h.charged

theorem Admits.deliver_bounces {tx : Transaction} {id : TransactionId}
    {hashes : List (NodeId × Hash)} (hadmits : e.Admits tx request id hashes)
    (hdials : w.Dials dialer) (halone : w.Alone) (hplain : e.settings.transport = .plaintext)
    (hlong : forall p, p ∈ tx.payloads -> Frame.maxLength < p.wireBytes.length + 10) :
    (e.deliver w request deadline world).Bounces e.registry := by
  apply Engine.deliver_bounces hdials halone hplain
  intro node hnode payload hpayload
  rcases hadmits.payload hnode with ⟨p, hp, hwire, _⟩
  rw [hwire] at hpayload
  cases hpayload
  exact hlong p (List.mem_of_find?_eq_some hp)

theorem submit_bounces {tx : Transaction} (hdials : w.Dials dialer) (halone : w.Alone)
    (hplain : e.settings.transport = .plaintext)
    (hlong : forall p, p ∈ tx.payloads -> Frame.maxLength < p.wireBytes.length + 10) :
    (e.submit w tx deadline world).run.Bounces e.registry ∧
      forall request id hashes, e.Admits tx request id hashes ->
        e.Unhindered w deadline (e.submit w tx deadline world).run.steps ->
        forall node, node ∈ tx.nodes ->
          node ∈ (e.submit w tx deadline world).run.attempts.map Attempt.node := by
  constructor
  · rcases e.submit_cases w tx deadline world with
      ⟨error, hlocal, hrun⟩ | ⟨request, id, hashes, hadmits, hrun⟩
    · rw [hrun]
      exact e.refuse_bounces hlocal world
    · rw [hrun]
      exact carryOut_bounces (hadmits.deliver_bounces hdials halone hplain hlong)
  · intro request id hashes hadmits hfree node hnode
    have hbounces := @Admits.deliver_bounces σ w dialer e request deadline world tx id hashes
      hadmits hdials halone hplain hlong
    rcases hadmits.known with ⟨candidates, hcandidates⟩
    rw [hadmits.submit_eq, carryOut_steps] at hfree
    rw [hadmits.submit_eq]
    rw [← hadmits.nodes] at hnode
    exact deliver_asks_all (.transaction tx hadmits.built) hcandidates
      (fun a ha => (hbounces.attempts a ha).retryable) hfree hnode

end Engine

/-- Over plain connections that every node takes, nothing is sent of a request that is too long for
a frame, and no node takes or rejects it.  Each attempt counts as a failure of its node all the same
and is entered as one, and if nothing keeps a candidate from its turn, all of them are charged. -/
theorem oversized_requests_charge_nodes {w : Surroundings σ} {dialer : Tcp.Dialer σ} {e : Engine}
    (hdials : w.Dials dialer) (halone : w.Alone) (hplain : e.settings.transport = .plaintext)
    (deadline : Instant) (world : σ) :
    (forall q : Query, Frame.maxLength < q.payload.length + 10 ->
      (e.query w q deadline world).Bounces e.registry ∧
      forall candidates, e.registry.candidates (e.askedNodes q) = .ok candidates ->
        e.Unhindered w deadline (e.query w q deadline world).steps ->
        forall node, node ∈ e.askedNodes q ->
          node ∈ (e.query w q deadline world).attempts.map Attempt.node) ∧
    (forall tx : Transaction,
      (forall p, p ∈ tx.payloads -> Frame.maxLength < p.wireBytes.length + 10) ->
      (e.submit w tx deadline world).run.Bounces e.registry ∧
      forall request id hashes, e.Admits tx request id hashes ->
        e.Unhindered w deadline (e.submit w tx deadline world).run.steps ->
        forall node, node ∈ tx.nodes ->
          node ∈ (e.submit w tx deadline world).run.attempts.map Attempt.node) ∧
    forall (before after : Health) (attempts : List Attempt), Charged before after attempts ->
      after.failureCount = before.failureCount + attempts.length :=
  ⟨fun _ hlong => Engine.query_bounces hdials halone hplain hlong,
    fun _ hlong => Engine.submit_bounces hdials halone hplain hlong,
    fun _ _ _ hcharged => hcharged.failureCount⟩

/-- Nodes that take every connection and say nothing. -/
def silentNodes : Surroundings (List Bytes) where
  timer received := (⟨0⟩, received)
  clock received := (0, received)
  isCancelled received := (false, received)
  pause _ received := (.elapsed, [], received)
  exchange call _ received :=
    let (answer, received) := Tcp.answer (Tcp.parrot []) call received
    (answer, [], received)
  nonce received := (0, received)
  patience := 1

theorem silentNodes_dials : silentNodes.Dials (Tcp.parrot []) where
  taken := fun _ s => ⟨[], s, rfl⟩
  exchange := fun _ _ _ => Or.inr rfl

theorem silentNodes_alone : silentNodes.Alone where
  pause := fun _ _ => rfl
  exchange := fun _ _ _ => rfl

/-- Two nodes that are not waited for. -/
def hastyEngine : Engine :=
  { twoNodesEngine with settings := { twoNodesEngine.settings with waitForUnhealthy := false } }

/-- With its method and its length the payload is one octet too long for a frame. -/
def longQuery : Query :=
  { method := ⟨100⟩, payload := List.replicate 2097143 0, nodes := [] }

theorem longQuery_long : Frame.maxLength < longQuery.payload.length + 10 := by
  have hlength : longQuery.payload.length = 2097143 := by
    rw [longQuery, List.length_replicate]
  rw [hlength]
  decide

def longRun : Run (List Bytes) Response :=
  hastyEngine.query silentNodes longQuery (Instant.ofMillis 10000) []

theorem longRun_unhindered :
    hastyEngine.Unhindered silentNodes (Instant.ofMillis 10000) longRun.steps where
  valid := by decide +kernel
  deadline := by decide
  patience := by decide
  unlimited := rfl
  steps := by
    rcases hastyEngine.exists_query_eq silentNodes longQuery (Instant.ofMillis 10000) [] with
      ⟨request, _, hrun⟩
    rw [longRun, hrun]
    exact fun step hstep => Engine.not_hindered rfl (fun _ => rfl) (fun _ => rfl) hstep

theorem longRun_bounces :
    silentNodes.Dials (Tcp.parrot []) ∧ silentNodes.Alone ∧
      hastyEngine.settings.transport = .plaintext ∧
      Frame.maxLength < longQuery.payload.length + 10 ∧ longRun.Bounces hastyEngine.registry ∧
      forall node, node ∈ [⟨3⟩, ⟨4⟩] -> node ∈ longRun.attempts.map Attempt.node := by
  have hall := @oversized_requests_charge_nodes _ silentNodes (Tcp.parrot []) hastyEngine
    silentNodes_dials silentNodes_alone rfl (Instant.ofMillis 10000) []
  rcases hall.left longQuery longQuery_long with ⟨hbounces, hasks⟩
  exact ⟨silentNodes_dials, silentNodes_alone, rfl, longQuery_long, hbounces,
    hasks twoNodes rfl longRun_unhindered⟩

/-- A query that could not have been sent to anybody leaves both nodes with a failure. -/
theorem longRun_charges :
    silentNodes.Dials (Tcp.parrot []) ∧ hastyEngine.settings.transport = .plaintext ∧
      Frame.maxLength < longQuery.payload.length + 10 ∧
      forall node, node ∈ [⟨3⟩, ⟨4⟩] ->
        (hastyEngine.registry.health node).failureCount = 0 ∧
          0 < (longRun.registry.health node).failureCount := by
  refine ⟨silentNodes_dials, rfl, longQuery_long, ?_⟩
  intro node hnode
  have hbefore : (hastyEngine.registry.health node).failureCount = 0 := by
    revert node
    decide +kernel
  have hquery := @Engine.query_bounces _ silentNodes (Tcp.parrot []) hastyEngine
    (Instant.ofMillis 10000) [] longQuery silentNodes_dials silentNodes_alone rfl longQuery_long
  rcases hquery with ⟨hbounces, hasks⟩
  rcases List.mem_map.mp (hasks twoNodes rfl longRun_unhindered node hnode) with ⟨a, ha, hsame⟩
  have hattempt : a ∈ attemptsAt node longRun.attempts :=
    List.mem_filter.mpr ⟨ha, decide_eq_true hsame⟩
  have hcount := (hbounces.charged node hnode).failureCount
  rw [hbefore, Nat.zero_add] at hcount
  refine ⟨hbefore, ?_⟩
  show 0 < ((hastyEngine.query silentNodes longQuery
    (Instant.ofMillis 10000) []).registry.health node).failureCount
  rw [hcount]
  exact List.length_pos_of_mem hattempt

end LedgerClient
