import LedgerClient.Proofs.Delivery.Turn

/-!
# The passage through the surroundings

The steps of a delivery say what was seen, but not in which state of the surroundings.  A
passage does: it leads from one scene, a state with the records of the nodes, to another and
accounts for every change between them.  Each of its steps was made in some scene on the way,
and what no step undoes holds at its end.
-/

namespace LedgerClient

/-- A state of the surroundings with the records of the nodes at that time. -/
@[ext]
structure Scene (σ : Type) where
  world : σ
  registry : Registry

variable {σ : Type}

namespace Scene

def move (c : Scene σ) (world : σ) : Scene σ :=
  { c with world := world }

def paused (w : Surroundings σ) (length : Duration) (c : Scene σ) : Scene σ :=
  let (_, happenings, world) := w.pause length c.world
  { world := world, registry := c.registry.meanwhile happenings }

/-- A node is marked as used when something is sent to it. -/
def sent (w : Surroundings σ) (call : Call) (left limit : Duration) (c : Scene σ) :
    Attempt × Scene σ :=
  let (usedAt, world) := w.clock c.world
  let (answer, happenings, world) := w.exchange call limit world
  ({ call := call, left := left, limit := limit, usedAt := usedAt, answer := answer },
    { world := world
      registry := (c.registry.record call.node (.used usedAt)).meanwhile happenings })

/-- The outcome of an attempt is recorded unless the request was at fault. -/
def settled (w : Surroundings σ) (node : NodeId) (outcome : Outcome) (c : Scene σ) : Scene σ :=
  match Progress.eventOf outcome with
  | none => c
  | some event =>
      let (now, world) := w.clock c.world
      { world := world, registry := c.registry.record node (event now) }

def attempted (w : Surroundings σ) (call : Call) (left limit : Duration) (c : Scene σ) :
    Attempt × Scene σ :=
  let (a, c) := c.sent w call left limit
  (a, c.settled w call.node a.outcome)

end Scene

/-- What one step does. -/
inductive Makes (w : Surroundings σ) (c : Scene σ) : Step -> Scene σ -> Prop where
  | looked : Makes w c (.looked (w.isCancelled c.world).1) (c.move (w.isCancelled c.world).2)
  | expired : Makes w c .expired c
  | paused (node : NodeId) (length left : Duration) :
      Makes w c (.paused node length left (w.pause length c.world).1) (c.paused w length)
  | skipped (node : NodeId) (backoff left : Duration) : Makes w c (.skipped node backoff left) c
  | attempted (call : Call) (left limit : Duration) :
      Makes w c (.attempted (c.attempted w call left limit).1) (c.attempted w call left limit).2

/-- The steps that were made between two scenes; timer and clock are read at any time. -/
inductive Passage (w : Surroundings σ) : Scene σ -> List Step -> Scene σ -> Prop where
  | done (c : Scene σ) : Passage w c [] c
  | timed {c d : Scene σ} {steps : List Step} :
      Passage w (c.move (w.timer c.world).2) steps d -> Passage w c steps d
  | clocked {c d : Scene σ} {steps : List Step} :
      Passage w (c.move (w.clock c.world).2) steps d -> Passage w c steps d
  | made {c between d : Scene σ} {step : Step} {steps : List Step} :
      Makes w c step between -> Passage w between steps d -> Passage w c (step :: steps) d

/-- A passage on which each step is led up to: from one scene on the way it leads to the scene in
which the step is made. -/
inductive Guarded (w : Surroundings σ) (leads : Scene σ -> Step -> Scene σ -> Prop) :
    Scene σ -> List Step -> Scene σ -> Prop where
  | done (c : Scene σ) : Guarded w leads c [] c
  | timed {c d : Scene σ} {steps : List Step} :
      Guarded w leads (c.move (w.timer c.world).2) steps d -> Guarded w leads c steps d
  | clocked {c d : Scene σ} {steps : List Step} :
      Guarded w leads (c.move (w.clock c.world).2) steps d -> Guarded w leads c steps d
  | made {m c between d : Scene σ} {step : Step} {steps : List Step} :
      leads m step c ->
      Makes w c step between ->
      Guarded w leads between steps d ->
      Guarded w leads m (step :: steps) d

namespace Guarded

variable {w : Surroundings σ} {leads : Scene σ -> Step -> Scene σ -> Prop} {c d : Scene σ}
  {xs ys : List Step}

theorem append {between : Scene σ} (hxs : Guarded w leads c xs between)
    (hys : Guarded w leads between ys d) : Guarded w leads c (xs ++ ys) d := by
  induction hxs with
  | done c => exact hys
  | timed _ ih => exact .timed (ih hys)
  | clocked _ ih => exact .clocked (ih hys)
  | made hleads hstep _ ih => exact .made hleads hstep (ih hys)

/-- There is a scene for every place in a passage. -/
theorem split (h : Guarded w leads c (xs ++ ys) d) :
    exists between, Guarded w leads c xs between ∧ Guarded w leads between ys d := by
  generalize hsteps : xs ++ ys = steps at h
  induction h generalizing xs with
  | done c =>
      rcases List.append_eq_nil_iff.mp hsteps with ⟨hxs, hys⟩
      rw [hxs, hys]
      exact ⟨c, .done c, .done c⟩
  | timed _ ih =>
      rcases ih hsteps with ⟨between, hfirst, hsecond⟩
      exact ⟨between, .timed hfirst, hsecond⟩
  | clocked _ ih =>
      rcases ih hsteps with ⟨between, hfirst, hsecond⟩
      exact ⟨between, .clocked hfirst, hsecond⟩
  | @made m c next d step steps hleads hstep hrest ih =>
      cases xs with
      | nil =>
          rw [List.nil_append] at hsteps
          rw [hsteps]
          exact ⟨m, .done m, .made hleads hstep hrest⟩
      | cons first others =>
          rw [List.cons_append] at hsteps
          injection hsteps with hfirst hothers
          rcases ih hothers with ⟨between, hbefore, hafter⟩
          rw [hfirst]
          exact ⟨between, .made hleads hstep hbefore, hafter⟩

/-- A passage with a first step goes on from a scene in which that step is made. -/
theorem first {step : Step} (h : Guarded w leads c (step :: xs) d) :
    exists m here next, Guarded w leads c [] m ∧ leads m step here ∧ Makes w here step next ∧
      Guarded w leads next xs d := by
  generalize hsteps : step :: xs = steps at h
  induction h with
  | done c => cases hsteps
  | timed _ ih =>
      rcases ih hsteps with ⟨m, here, next, hread, hleads, hstep, hrest⟩
      exact ⟨m, here, next, .timed hread, hleads, hstep, hrest⟩
  | clocked _ ih =>
      rcases ih hsteps with ⟨m, here, next, hread, hleads, hstep, hrest⟩
      exact ⟨m, here, next, .clocked hread, hleads, hstep, hrest⟩
  | @made m c next d _ _ hleads hstep hrest _ =>
      cases hsteps
      exact ⟨m, c, next, .done m, hleads, hstep, hrest⟩

/-- Every step of a passage was made in a scene on the way. -/
theorem at_step {step : Step} (h : Guarded w leads c (xs ++ step :: ys) d) :
    exists m here next, Guarded w leads c xs m ∧ leads m step here ∧ Makes w here step next ∧
      Guarded w leads next ys d := by
  rcases h.split with ⟨between, hbefore, hafter⟩
  rcases hafter.first with ⟨m, here, next, hread, hleads, hstep, hrest⟩
  have hm := hbefore.append hread
  rw [List.append_nil] at hm
  exact ⟨m, here, next, hm, hleads, hstep, hrest⟩

end Guarded

namespace Passage

variable {w : Surroundings σ} {c d : Scene σ} {xs ys : List Step}

/-- Nothing leads up to the steps of a mere passage. -/
theorem guarded (h : Passage w c xs d) : Guarded w (fun m _ c => m = c) c xs d := by
  induction h with
  | done c => exact .done c
  | timed _ ih => exact .timed ih
  | clocked _ ih => exact .clocked ih
  | made hstep _ ih => exact .made rfl hstep ih

theorem append {between : Scene σ} (hxs : Passage w c xs between) (hys : Passage w between ys d) :
    Passage w c (xs ++ ys) d := by
  induction hxs with
  | done c => exact hys
  | timed _ ih => exact .timed (ih hys)
  | clocked _ ih => exact .clocked (ih hys)
  | made hstep _ ih => exact .made hstep (ih hys)

/-- Readings are led up to by nothing. -/
theorem guarded_nil (h : Passage w c [] d) (leads : Scene σ -> Step -> Scene σ -> Prop) :
    Guarded w leads c [] d := by
  generalize hsteps : [] = steps at h
  induction h with
  | done c => exact .done c
  | timed _ ih => exact .timed (ih hsteps)
  | clocked _ ih => exact .clocked (ih hsteps)
  | made _ _ _ => cases hsteps

/-- A passage does not tell what leads up to its steps. -/
theorem of_guarded {leads : Scene σ -> Step -> Scene σ -> Prop}
    (hleads : forall m step c, leads m step c -> Passage w m [] c)
    (h : Guarded w leads c xs d) : Passage w c xs d := by
  induction h with
  | done c => exact .done c
  | timed _ ih => exact .timed ih
  | clocked _ ih => exact .clocked ih
  | made hlead hstep _ ih => exact (hleads _ _ _ hlead).append (.made hstep ih)

theorem of_guarded_eq (h : Guarded w (fun m _ c => m = c) c xs d) : Passage w c xs d := by
  apply of_guarded _ h
  intro m step c hsame
  rw [hsame]
  exact .done c

theorem first {step : Step} (h : Passage w c (step :: xs) d) :
    exists here next, Passage w c [] here ∧ Makes w here step next ∧ Passage w next xs d := by
  rcases h.guarded.first with ⟨m, here, next, hread, hsame, hstep, hrest⟩
  rw [hsame] at hread
  exact ⟨here, next, of_guarded_eq hread, hstep, of_guarded_eq hrest⟩

theorem at_step {step : Step} (h : Passage w c (xs ++ step :: ys) d) :
    exists here next, Passage w c xs here ∧ Makes w here step next ∧ Passage w next ys d := by
  rcases h.guarded.at_step with ⟨m, here, next, hbefore, hsame, hstep, hafter⟩
  rw [hsame] at hbefore
  exact ⟨here, next, of_guarded_eq hbefore, hstep, of_guarded_eq hafter⟩

end Passage

/-!
## What nothing undoes
-/

/-- The surroundings never go back from a state with the property to one without it. -/
structure Surroundings.Lasting (w : Surroundings σ) (property : σ -> Prop) : Prop where
  timer : forall s, property s -> property (w.timer s).2
  clock : forall s, property s -> property (w.clock s).2
  isCancelled : forall s, property s -> property (w.isCancelled s).2
  pause : forall length s, property s -> property (w.pause length s).2.2
  exchange : forall call limit s, property s -> property (w.exchange call limit s).2.2

section

variable {w : Surroundings σ} {property : σ -> Prop} {c d : Scene σ}

theorem Surroundings.Lasting.settled (h : w.Lasting property) (node : NodeId) (outcome : Outcome)
    (hc : property c.world) : property (c.settled w node outcome).world := by
  cases outcome with
  | accepted payload => exact h.clock _ hc
  | retryable fault => exact h.clock _ hc
  | rejected code => exact hc

theorem Surroundings.Lasting.makes (h : w.Lasting property) {step : Step}
    (hstep : Makes w c step d) (hc : property c.world) : property d.world := by
  cases hstep with
  | looked => exact h.isCancelled _ hc
  | expired => exact hc
  | paused node length left => exact h.pause length _ hc
  | skipped node backoff left => exact hc
  | attempted call left limit =>
      exact h.settled call.node _ (h.exchange call limit _ (h.clock _ hc))

theorem Surroundings.Lasting.passage (h : w.Lasting property) {steps : List Step}
    (hpassage : Passage w c steps d) (hc : property c.world) : property d.world := by
  induction hpassage with
  | done c => exact hc
  | timed _ ih => exact ih (h.timer _ hc)
  | clocked _ ih => exact ih (h.clock _ hc)
  | made hstep _ ih => exact ih (h.makes hstep hc)

end

/-- The scene a run leaves behind. -/
def Run.scene {α : Type} (run : Run σ α) : Scene σ :=
  { world := run.world, registry := run.registry }

end LedgerClient
