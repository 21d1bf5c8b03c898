import LedgerClient.Config.Basic
import LedgerClient.Delivery.Run
import LedgerClient.Node.Ranking

/-!
# Delivery of one request

The candidates are ranked once.  They are tried in that order, each at most once, until one
accepts or rejects the request, the deadline is reached, the attempts are used up or the
caller cancels.  Every attempt but the last gets a share of the time that is left; the last
gets all of it.  A node that is left alone is waited for if there is time for that, and
passed over otherwise.
-/

namespace LedgerClient

structure Progress (σ : Type) where
  world : σ
  registry : Registry
  attempts : Nat
  nodesTried : List NodeId
  setback : Option Setback
  /-- What was done so far, the last first. -/
  steps : List Step

namespace Progress

variable {σ : Type}

def start (registry : Registry) (world : σ) : Progress σ :=
  { world := world
    registry := registry
    attempts := 0
    nodesTried := []
    setback := none
    steps := [] }

def log (p : Progress σ) (step : Step) : Progress σ :=
  { p with steps := step :: p.steps }

/-- Asks the surroundings something that changes nothing but them. -/
def ask {α : Type} (p : Progress σ) (question : σ → α × σ) : α × Progress σ :=
  let (answer, world) := question p.world
  (answer, { p with world := world })

def look (w : Surroundings σ) (p : Progress σ) : Bool × Progress σ :=
  let (cancelled, p) := p.ask w.isCancelled
  (cancelled, p.log (.looked cancelled))

def timeLeft (w : Surroundings σ) (deadline : Instant) (p : Progress σ) :
    Duration × Progress σ :=
  let (now, p) := p.ask w.timer
  (now.timeUntil deadline, p)

def backoff (w : Surroundings σ) (node : NodeId) (p : Progress σ) : Duration × Progress σ :=
  let (now, p) := p.ask w.clock
  ((p.registry.health node).remainingBackoff now, p)

/-!
## Waiting for a node
-/

inductive Gate where
  /-- The node may be tried, with so much time left. -/
  | opened (left : Duration)
  | skipped
  | cancelled
  | stillWaiting
deriving DecidableEq

/-- Waits until the node is no longer left alone.  Its record and the time that is left are looked
at again after every pause, since other requests may have used the node meanwhile. -/
def await (w : Surroundings σ) (deadline : Instant) (node : NodeId) :
    (patience : Nat) → (backoff left : Duration) → Progress σ → Gate × Progress σ
  | patience, backoff, left, p =>
      if backoff.isZero then (.opened left, p)
      else if left ≤ backoff then
        let setback := p.setback.getD (.inBackoff node)
        (.skipped, { p with setback := some setback }.log (.skipped node backoff left))
      else
        match patience with
        | 0 => (.stillWaiting, p)
        | patience + 1 =>
            let (wake, happenings, world) := w.pause backoff p.world
            let p :=
              { p with world := world, registry := p.registry.meanwhile happenings }.log
                (.paused node backoff left wake)
            match wake with
            | .cancelled => (.cancelled, p)
            | .elapsed =>
                let (left, p) := p.timeLeft w deadline
                let (backoff, p) := p.backoff w node
                await w deadline node patience backoff left p

def gate (w : Surroundings σ) (settings : DeliverySettings) (deadline : Instant) (node : NodeId)
    (left : Duration) (p : Progress σ) : Gate × Progress σ :=
  if settings.waitForUnhealthy then
    let (backoff, p) := p.backoff w node
    await w deadline node w.patience backoff left p
  else (.opened left, p)

/-!
## Trying a node
-/

/-- What the record of a node learns from an attempt: nothing from a rejection, which is the fault
of the request. -/
def eventOf : Outcome → Option (Timestamp → Health.Event)
  | .accepted _ => some fun _ => .succeeded
  | .retryable _ => some .failed
  | .rejected _ => none

def settle (w : Surroundings σ) (node : NodeId) (outcome : Outcome) (p : Progress σ) :
    Progress σ :=
  match eventOf outcome with
  | none => p
  | some event =>
      let (now, p) := p.ask w.clock
      { p with registry := p.registry.record node (event now) }

/-- Sends the request to a node, which has then been used once more. -/
def send (w : Surroundings σ) (call : Call) (left limit : Duration) (p : Progress σ) :
    Attempt × Progress σ :=
  let (usedAt, p) := p.ask w.clock
  let p :=
    { p with
      registry := p.registry.record call.node (.used usedAt)
      attempts := p.attempts + 1
      nodesTried := p.nodesTried ++ [call.node] }
  let (answer, happenings, world) := w.exchange call limit p.world
  let attempt : Attempt :=
    { call := call, left := left, limit := limit, usedAt := usedAt, answer := answer }
  (attempt, { p with world := world, registry := p.registry.meanwhile happenings })

def attempt (w : Surroundings σ) (call : Call) (left limit : Duration) (p : Progress σ) :
    Outcome × Progress σ :=
  let (attempt, p) := p.send w call left limit
  let p := p.settle w call.node attempt.outcome
  let setback :=
    match attempt.outcome with
    | .retryable fault => some (.failed fault)
    | _ => p.setback
  (attempt.outcome, { p with setback := setback }.log (.attempted attempt))

/-!
## The turn of a candidate
-/

inductive Turn where
  | ended (ending : Ending Response)
  | onward
deriving DecidableEq

def exhausted (p : Progress σ) : Ending Response :=
  .failed (.deadlineExceeded p.attempts p.nodesTried p.setback)

def expire (p : Progress σ) : Turn × Progress σ :=
  (.ended p.exhausted, p.log .expired)

/-- How long an attempt may take; the last attempt may take all the time that is left. -/
def limit? (settings : DeliverySettings) (isLast : Bool) (left : Duration) : Option Duration :=
  if isLast then some left else left.scale? settings.attemptShare

def conclude (node : NodeId) (outcome : Outcome) (p : Progress σ) : Turn :=
  match outcome with
  | .accepted answer => .ended (.answered ⟨node, answer, p.attempts⟩)
  | .rejected code => .ended (.failed (.precheck node code))
  | .retryable _ => .onward

def approach (w : Surroundings σ) (settings : DeliverySettings) (request : Request) (node : Node)
    (isLast : Bool) (left : Duration) (p : Progress σ) : Turn × Progress σ :=
  match request.payloadFor? node.id with
  | none => (.ended (.failed (.transaction (.foreignNode node.id))), p)
  | some payload =>
      match limit? settings isLast left with
      | none => (.ended (.halted .outOfRange), p)
      | some limit =>
          let call : Call :=
            { node := node.id
              address := node.address
              mode := settings.transport
              method := request.method
              payload := payload }
          let (outcome, p) := p.attempt w call left limit
          let (cancelled, p) := p.look w
          if cancelled then (.ended (.failed .cancelled), p)
          else (p.conclude node.id outcome, p)

/-- Gives a candidate its turn, if the attempts and the time allow one and the caller has not
cancelled. -/
def turn (w : Surroundings σ) (settings : DeliverySettings) (request : Request)
    (deadline : Instant) (maxAttempts : Nat) (node : Node) (isFinal : Bool) (p : Progress σ) :
    Turn × Progress σ :=
  if maxAttempts ≤ p.attempts then (.ended p.exhausted, p)
  else
    let (cancelled, p) := p.look w
    if cancelled then (.ended (.failed .cancelled), p)
    else
      let (left, p) := p.timeLeft w deadline
      if left.isZero then p.expire
      else
        let (gate, p) := p.gate w settings deadline node.id left
        match gate with
        | .cancelled => (.ended (.failed .cancelled), p)
        | .stillWaiting => (.ended (.halted .stillWaiting), p)
        | .skipped => (.onward, p)
        | .opened left =>
            if left.isZero then p.expire
            else
              let isLast := isFinal || p.attempts + 1 == maxAttempts
              p.approach w settings request node isLast left

/-!
## One pass over the candidates
-/

def visit (w : Surroundings σ) (settings : DeliverySettings) (request : Request)
    (deadline : Instant) (maxAttempts : Nat) :
    (candidates : List Node) → Progress σ → Ending Response × Progress σ
  | [], p => (p.exhausted, p)
  | node :: rest, p =>
      match p.turn w settings request deadline maxAttempts node rest.isEmpty with
      | (.ended ending, p) => (ending, p)
      | (.onward, p) => visit w settings request deadline maxAttempts rest p

end Progress

structure Engine where
  settings : DeliverySettings
  registry : Registry

namespace Engine

variable {σ : Type}

def new (registry : Registry) (settings : DeliverySettings) : Except ConfigError Engine :=
  match settings.validate with
  | .error e => .error e
  | .ok () => .ok { settings := settings, registry := registry }

/-- The end of a delivery that did not begin. -/
def refuse {α : Type} (e : Engine) (error : ClientError) (world : σ) : Run σ α :=
  { ending := .failed error, registry := e.registry, world := world, steps := [] }

/-- Without a limit, every candidate may be tried. -/
def maxAttempts (e : Engine) (candidates : List Node) : Nat :=
  match e.settings.maxAttempts with
  | some max => max.toNat
  | none => candidates.length

def deliver (e : Engine) (w : Surroundings σ) (request : Request) (deadline : Instant)
    (world : σ) : Run σ Response :=
  match e.registry.candidates request.nodes with
  | .error error => e.refuse error world
  | .ok candidates =>
      let (now, world) := w.clock world
      let ranked := Ranking.rank now candidates
      let (ending, p) :=
        Progress.visit w e.settings request deadline (e.maxAttempts ranked) ranked
          (Progress.start e.registry world)
      { ending := ending, registry := p.registry, world := p.world, steps := p.steps.reverse }

/-- Asks a query; without nodes of its own it may be answered by every node. -/
def query (e : Engine) (w : Surroundings σ) (q : Query) (deadline : Instant) (world : σ) :
    Run σ Response :=
  let nodes := if q.nodes.isEmpty then e.registry.ids else q.nodes
  match Request.ofQuery q nodes with
  | .error error => e.refuse (.transaction error) world
  | .ok request => e.deliver w request deadline world

end Engine

end LedgerClient
