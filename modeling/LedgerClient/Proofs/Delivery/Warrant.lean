import LedgerClient.Proofs.Delivery.Passage

/-!
# What warrants a step

A delivery gives up, waits for a node, passes it over or tries it because of what it has read:
how much time is left, and whether the node is left alone.  A passage shows only what a step
changes; here each step is shown to follow from the readings that were made right before it.
-/

namespace LedgerClient

variable {σ : Type}

/-!
## Readings
-/

namespace Scene

def timeLeft (w : Surroundings σ) (deadline : Instant) (c : Scene σ) : Duration :=
  (w.timer c.world).1.timeUntil deadline

def backoff (w : Surroundings σ) (node : NodeId) (c : Scene σ) : Duration :=
  (c.registry.health node).remainingBackoff (w.clock c.world).1

/-- Whether a node is healthy by the clock. -/
def healthy (w : Surroundings σ) (node : NodeId) (c : Scene σ) : Bool :=
  (c.registry.health node).isHealthy (w.clock c.world).1

/-- The scene after the timer was read. -/
def timed (w : Surroundings σ) (c : Scene σ) : Scene σ :=
  c.move (w.timer c.world).2

/-- The scene after the clock was read. -/
def clocked (w : Surroundings σ) (c : Scene σ) : Scene σ :=
  c.move (w.clock c.world).2

/-- A node is left alone for no more time just when it is healthy. -/
theorem isZero_backoff (w : Surroundings σ) (node : NodeId) (c : Scene σ) :
    (c.backoff w node).isZero = c.healthy w node := by
  unfold backoff healthy
  generalize c.registry.health node = h
  generalize (w.clock c.world).1 = now
  have hmillis : (UInt64.ofNat (h.backoffUntil.toNat - now.toNat)).toNat =
      h.backoffUntil.toNat - now.toNat :=
    UInt64.toNat_ofNat_of_lt' (Nat.lt_of_le_of_lt (Nat.sub_le _ _) h.backoffUntil.toNat_lt)
  rw [Health.remainingBackoff, Timestamp.timeUntil, Duration.isZero, Duration.nanos_ofMillis,
    hmillis, Health.isHealthy, Bool.eq_iff_iff, beq_iff_eq, decide_eq_true_iff,
    UInt64.le_iff_toNat_le]
  unfold Duration.nanosPerMilli
  omega

end Scene

/-- From `m` the time that is left and then the record of a node were read. -/
structure Seen (w : Surroundings σ) (deadline : Instant) (node : NodeId) (m c : Scene σ)
    (backoff left : Duration) : Prop where
  scene : c = (m.timed w).clocked w
  backoff : backoff = (m.timed w).backoff w node
  left : left = m.timeLeft w deadline

/-- From `m` it was read that a node may be tried with so much time left. -/
inductive Free (w : Surroundings σ) (settings : DeliverySettings) (deadline : Instant)
    (node : NodeId) (m : Scene σ) : Scene σ -> Duration -> Prop where
  | unasked :
      settings.waitForUnhealthy = false ->
      Free w settings deadline node m (m.timed w) (m.timeLeft w deadline)
  | healthy :
      settings.waitForUnhealthy = true ->
      (m.timed w).healthy w node = true ->
      Free w settings deadline node m ((m.timed w).clocked w) (m.timeLeft w deadline)

/-- The readings from `m` that call for a step. -/
inductive Warranted (w : Surroundings σ) (settings : DeliverySettings) (deadline : Instant)
    (m : Scene σ) : Step -> Scene σ -> Prop where
  | looked (cancelled : Bool) : Warranted w settings deadline m (.looked cancelled) m
  | late :
      (m.timeLeft w deadline).isZero = true ->
      Warranted w settings deadline m .expired (m.timed w)
  | overslept {node : NodeId} {c : Scene σ} {left : Duration} :
      Free w settings deadline node m c left ->
      left.isZero = true ->
      Warranted w settings deadline m .expired c
  | paused {node : NodeId} {c : Scene σ} {backoff left : Duration} (wake : Wake) :
      settings.waitForUnhealthy = true ->
      Seen w deadline node m c backoff left ->
      (m.timed w).healthy w node = false ->
      backoff < left ->
      Warranted w settings deadline m (.paused node backoff left wake) c
  | skipped {node : NodeId} {c : Scene σ} {backoff left : Duration} :
      settings.waitForUnhealthy = true ->
      Seen w deadline node m c backoff left ->
      (m.timed w).healthy w node = false ->
      left ≤ backoff ->
      Warranted w settings deadline m (.skipped node backoff left) c
  | attempted {a : Attempt} {c : Scene σ} :
      Free w settings deadline a.node m c a.left ->
      a.left.isZero = false ->
      Warranted w settings deadline m (.attempted a) c

section

variable {w : Surroundings σ} {settings : DeliverySettings} {deadline : Instant} {node : NodeId}
  {m c : Scene σ} {backoff left : Duration} {step : Step}

theorem Seen.isZero_backoff (h : Seen w deadline node m c backoff left) :
    backoff.isZero = (m.timed w).healthy w node := by
  rw [h.backoff, Scene.isZero_backoff]

theorem Seen.passage (h : Seen w deadline node m c backoff left) : Passage w m [] c := by
  rw [h.scene]
  exact .timed (.clocked (.done _))

theorem Free.passage (h : Free w settings deadline node m c left) : Passage w m [] c := by
  cases h with
  | unasked _ => exact .timed (.done _)
  | healthy _ _ => exact .timed (.clocked (.done _))

theorem Free.left_eq (h : Free w settings deadline node m c left) :
    left = m.timeLeft w deadline := by
  cases h with
  | unasked _ => rfl
  | healthy _ _ => rfl

/-- Readings change nothing but the surroundings. -/
theorem Warranted.passage (h : Warranted w settings deadline m step c) : Passage w m [] c := by
  cases h with
  | looked cancelled => exact .done _
  | late _ => exact .timed (.done _)
  | overslept hfree _ => exact hfree.passage
  | paused wake _ hseen _ _ => exact hseen.passage
  | skipped _ hseen _ _ => exact hseen.passage
  | attempted hfree _ => exact hfree.passage

end

namespace Progress

def scene (p : Progress σ) : Scene σ :=
  { world := p.world, registry := p.registry }

/-- All changes from `p` to `q` are those of warranted steps up to `m` and of readings since. -/
def Reaches (w : Surroundings σ) (settings : DeliverySettings) (deadline : Instant)
    (p q : Progress σ) (m : Scene σ) : Prop :=
  exists steps, q.course = p.course ++ steps ∧
    Guarded w (Warranted w settings deadline) p.scene steps m

/-- All changes from `p` to `q` are those of warranted steps. -/
def Proceeds (w : Surroundings σ) (settings : DeliverySettings) (deadline : Instant)
    (p q : Progress σ) : Prop :=
  p.Reaches w settings deadline q q.scene

variable {w : Surroundings σ} {settings : DeliverySettings} {deadline : Instant}
  {p q r : Progress σ} {m c : Scene σ}

theorem Proceeds.refl (p : Progress σ) : p.Proceeds w settings deadline p :=
  ⟨[], (List.append_nil _).symm, .done _⟩

theorem Proceeds.trans (hpq : p.Proceeds w settings deadline q)
    (hqr : q.Reaches w settings deadline r m) : p.Reaches w settings deadline r m := by
  rcases hpq with ⟨xs, hq, hxs⟩
  rcases hqr with ⟨ys, hr, hys⟩
  exact ⟨xs ++ ys, by rw [hr, hq, List.append_assoc], hxs.append hys⟩

theorem Reaches.of_course (h : p.Reaches w settings deadline q m) (hcourse : r.course = q.course) :
    p.Reaches w settings deadline r m := by
  rcases h with ⟨steps, hq, hsteps⟩
  exact ⟨steps, by rw [hcourse, hq], hsteps⟩

/-- Readings can be counted as made. -/
theorem Reaches.read (h : p.Reaches w settings deadline q m) (hread : Passage w m [] c) :
    p.Reaches w settings deadline q c := by
  rcases h with ⟨steps, hq, hsteps⟩
  have hboth := hsteps.append (hread.guarded_nil _)
  rw [List.append_nil] at hboth
  exact ⟨steps, hq, hboth⟩

theorem Reaches.step {step : Step} (h : p.Reaches w settings deadline q m)
    (hwarranted : Warranted w settings deadline m step q.scene)
    (hsteps : r.steps = step :: q.steps) (hmakes : Makes w q.scene step r.scene) :
    p.Proceeds w settings deadline r := by
  rcases h with ⟨steps, hq, hguarded⟩
  refine ⟨steps ++ [step], ?_, hguarded.append (.made hwarranted hmakes (.done _))⟩
  rw [← List.append_assoc, ← hq]
  simp [course, hsteps]

theorem proceeds_look (w : Surroundings σ) (settings : DeliverySettings) (deadline : Instant)
    (p : Progress σ) : p.Proceeds w settings deadline (p.look w).2 :=
  (Proceeds.refl p).step (.looked _) rfl .looked

theorem Proceeds.read_timer (h : p.Proceeds w settings deadline q) :
    p.Reaches w settings deadline (q.timeLeft w deadline).2 q.scene :=
  h.of_course rfl

theorem seen_backoff {left : Duration} (node : NodeId) (hscene : q.scene = m.timed w)
    (hleft : left = m.timeLeft w deadline) :
    Seen w deadline node m (q.backoff w node).2.scene (q.backoff w node).1 left where
  scene := by
    rw [← hscene]
    rfl
  backoff := by
    rw [← hscene]
    rfl
  left := hleft

/-!
## Waiting
-/

/-- What is known of a gate: it was reached as warranted, and it opens when the node is free. -/
def Passed (w : Surroundings σ) (settings : DeliverySettings) (deadline : Instant)
    (node : NodeId) (p : Progress σ) (result : Gate × Progress σ) : Prop :=
  p.Proceeds w settings deadline result.2 ∧
    forall left, result.1 = .opened left ->
      exists m, p.Reaches w settings deadline result.2 m ∧
        Free w settings deadline node m result.2.scene left

section

variable {node : NodeId} {backoff left : Duration}

theorem passed_closed {gate : Gate} (hpq : p.Proceeds w settings deadline q)
    (hclosed : forall left, gate ≠ .opened left) :
    p.Passed w settings deadline node (gate, q) :=
  ⟨hpq, fun left hopened => (hclosed left hopened).elim⟩

theorem passed_opened (h : p.Reaches w settings deadline q m)
    (hfree : Free w settings deadline node m q.scene left) :
    p.Passed w settings deadline node (.opened left, q) := by
  constructor
  · exact h.read hfree.passage
  · intro last hlast
    injection hlast with hlast
    rw [← hlast]
    exact ⟨m, h, hfree⟩

/-- A wait that is over at once. -/
theorem passed_await_now (hwait : settings.waitForUnhealthy = true)
    (h : p.Reaches w settings deadline q m) (hseen : Seen w deadline node m q.scene backoff left)
    (hnow : backoff.isZero = true ∨ left ≤ backoff) (patience : Nat) :
    p.Passed w settings deadline node (await w deadline node patience backoff left q) := by
  unfold await
  by_cases hzero : backoff.isZero = true
  · rw [if_pos hzero]
    rw [hseen.isZero_backoff] at hzero
    apply passed_opened h
    rw [hseen.scene, hseen.left]
    exact .healthy hwait hzero
  · have hle : left ≤ backoff := hnow.resolve_left hzero
    rw [if_neg hzero]
    rw [hseen.isZero_backoff] at hzero
    rw [if_pos hle]
    have hskipped : Warranted w settings deadline m (.skipped node backoff left) q.scene :=
      .skipped hwait hseen (by simpa using hzero) hle
    let next : Progress σ :=
      { q with setback := some (q.setback.getD (.inBackoff node)) }.log
        (.skipped node backoff left)
    have hnext : p.Proceeds w settings deadline next :=
      h.step hskipped rfl (.skipped node backoff left)
    apply passed_closed hnext
    intro last hopened
    cases hopened

theorem passed_await (hwait : settings.waitForUnhealthy = true)
    (h : p.Reaches w settings deadline q m) (hseen : Seen w deadline node m q.scene backoff left)
    (patience : Nat) :
    p.Passed w settings deadline node (await w deadline node patience backoff left q) := by
  induction patience generalizing backoff left q m with
  | zero =>
      by_cases hnow : backoff.isZero = true ∨ left ≤ backoff
      · exact passed_await_now hwait h hseen hnow 0
      · rcases not_or.mp hnow with ⟨hzero, hle⟩
        unfold await
        rw [if_neg hzero, if_neg hle]
        apply passed_closed (h.read hseen.passage)
        intro last hopened
        cases hopened
  | succ patience ih =>
      by_cases hnow : backoff.isZero = true ∨ left ≤ backoff
      · exact passed_await_now hwait h hseen hnow (patience + 1)
      · rcases not_or.mp hnow with ⟨hzero, hle⟩
        have hunhealthy : (m.timed w).healthy w node = false := by
          rw [← hseen.isZero_backoff]
          simpa using hzero
        have hpaused : Warranted w settings deadline m
            (.paused node backoff left (w.pause backoff q.world).1) q.scene :=
          .paused _ hwait hseen hunhealthy (Nat.lt_of_not_le hle)
        let next : Progress σ :=
          { q with
            world := (w.pause backoff q.world).2.2
            registry := q.registry.meanwhile (w.pause backoff q.world).2.1 }.log
              (.paused node backoff left (w.pause backoff q.world).1)
        have hnext : p.Proceeds w settings deadline next :=
          h.step hpaused rfl (.paused node backoff left)
        unfold await
        rw [if_neg hzero, if_neg hle]
        dsimp only
        cases hwake : (w.pause backoff q.world).1 with
        | cancelled =>
            simp only [next, hwake] at hnext
            apply passed_closed hnext
            intro last hopened
            cases hopened
        | elapsed =>
            simp only [next, hwake] at hnext
            -- What is read after the pause warrants what follows.
            have hread := hnext.read_timer
            exact ih (hread.of_course rfl) (seen_backoff node rfl rfl)

theorem passed_gate (node : NodeId) (h : p.Reaches w settings deadline q m)
    (hscene : q.scene = m.timed w) (hleft : left = m.timeLeft w deadline) :
    p.Passed w settings deadline node (q.gate w settings deadline node left) := by
  unfold gate
  by_cases hwait : settings.waitForUnhealthy = true
  · rw [if_pos hwait]
    have hbackoff : p.Reaches w settings deadline (q.backoff w node).2 m := h.of_course rfl
    exact passed_await hwait hbackoff (seen_backoff node hscene hleft) w.patience
  · rw [if_neg hwait]
    apply passed_opened h
    rw [hscene, hleft]
    exact .unasked (by simpa using hwait)

end

/-!
## Trying
-/

theorem scene_settle (node : NodeId) (outcome : Outcome) (p : Progress σ) :
    (p.settle w node outcome).scene = p.scene.settled w node outcome := by
  cases outcome with
  | accepted payload => rfl
  | retryable fault => rfl
  | rejected code => rfl

theorem Reaches.attempt {call : Call} {left : Duration} (h : p.Reaches w settings deadline q m)
    (hfree : Free w settings deadline call.node m q.scene left) (hleft : left.isZero = false)
    (limit : Duration) : p.Proceeds w settings deadline (q.attempt w call left limit).2 := by
  have hscene : (q.attempt w call left limit).2.scene =
      (q.scene.attempted w call left limit).2 :=
    scene_settle call.node _ _
  have hmakes : Makes w q.scene (.attempted (q.send w call left limit).1)
      (q.attempt w call left limit).2.scene := by
    rw [hscene]
    exact .attempted call left limit
  have hwarranted : Warranted w settings deadline m
      (.attempted (q.send w call left limit).1) q.scene :=
    .attempted hfree hleft
  refine h.step hwarranted ?_ hmakes
  simp [Progress.attempt, log, send, ask]

theorem Reaches.approach {node : Node} {left : Duration}
    (h : p.Reaches w settings deadline q m)
    (hfree : Free w settings deadline node.id m q.scene left) (hleft : left.isZero = false)
    (request : Request) (isLast : Bool) :
    p.Proceeds w settings deadline (q.approach w settings request node isLast left).2 := by
  have hstay : p.Proceeds w settings deadline q := h.read hfree.passage
  unfold Progress.approach
  cases request.payloadFor? node.id with
  | none => exact hstay
  | some payload =>
      cases limit? settings isLast left with
      | none => exact hstay
      | some limit =>
          let call : Call :=
            { node := node.id
              address := node.address
              mode := settings.transport
              method := request.method
              payload := payload }
          have hattempt : p.Proceeds w settings deadline (q.attempt w call left limit).2 :=
            h.attempt hfree hleft limit
          have hlook := hattempt.trans (proceeds_look w settings deadline _)
          dsimp only
          split
          · exact hlook
          · exact hlook

/-!
## Turns
-/

theorem proceeds_turn (w : Surroundings σ) (settings : DeliverySettings) (request : Request)
    (deadline : Instant) (maxAttempts : Nat) (node : Node) (isFinal : Bool) (p : Progress σ) :
    p.Proceeds w settings deadline
      (p.turn w settings request deadline maxAttempts node isFinal).2 := by
  unfold turn
  by_cases hspent : maxAttempts ≤ p.attempts
  · rw [if_pos hspent]
    exact .refl p
  · rw [if_neg hspent]
    have hlook := proceeds_look w settings deadline p
    have htime := hlook.read_timer
    rcases passed_gate node.id htime rfl rfl with ⟨hgate, hfree⟩
    dsimp only
    split
    · exact hlook
    · split
      · rename_i hzero
        exact htime.step (.late hzero) rfl .expired
      · split
        · exact hgate
        · exact hgate
        · exact hgate
        · rename_i left hopened
          rcases hfree left hopened with ⟨m, hreached, hnode⟩
          split
          · rename_i hzero
            exact hreached.step (.overslept hnode hzero) rfl .expired
          · rename_i hleft
            exact hreached.approach hnode (by simpa using hleft) request _

theorem proceeds_visit (w : Surroundings σ) (settings : DeliverySettings) (request : Request)
    (deadline : Instant) (maxAttempts : Nat) (candidates : List Node) (p : Progress σ) :
    p.Proceeds w settings deadline
      (visit w settings request deadline maxAttempts candidates p).2 := by
  induction candidates generalizing p with
  | nil => exact .refl p
  | cons node rest ih =>
      have hturn := proceeds_turn w settings request deadline maxAttempts node rest.isEmpty p
      unfold visit
      rcases hresult : p.turn w settings request deadline maxAttempts node rest.isEmpty with
        ⟨t, p'⟩
      rw [hresult] at hturn
      cases t with
      | ended ending => exact hturn
      | onward => exact hturn.trans (ih p')

end Progress

namespace Engine

/-- Every step of a delivery is warranted by what was read right before it. -/
theorem deliver_warranted (e : Engine) (w : Surroundings σ) (request : Request)
    (deadline : Instant) (world : σ) :
    Guarded w (Warranted w e.settings deadline) { world := world, registry := e.registry }
      (e.deliver w request deadline world).steps (e.deliver w request deadline world).scene := by
  unfold deliver
  cases e.registry.candidates request.nodes with
  | error error => exact .done _
  | ok candidates =>
      have hstart : (Progress.start e.registry (w.clock world).2).course = [] := rfl
      rcases Progress.proceeds_visit w e.settings request deadline
        (e.maxAttempts (Ranking.rank (w.clock world).1 candidates))
        (Ranking.rank (w.clock world).1 candidates)
        (Progress.start e.registry (w.clock world).2) with ⟨steps, hcourse, hpassage⟩
      rw [hstart, List.nil_append] at hcourse
      rw [← hcourse] at hpassage
      exact .clocked hpassage

/-- All that a delivery changes, its steps change. -/
theorem deliver_passage (e : Engine) (w : Surroundings σ) (request : Request) (deadline : Instant)
    (world : σ) :
    Passage w { world := world, registry := e.registry }
      (e.deliver w request deadline world).steps (e.deliver w request deadline world).scene :=
  Passage.of_guarded (fun _ _ _ hwarranted => hwarranted.passage)
    (e.deliver_warranted w request deadline world)

end Engine

end LedgerClient
