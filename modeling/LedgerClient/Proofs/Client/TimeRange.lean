import LedgerClient.Proofs.Client.Filling
import LedgerClient.Proofs.Delivery.Timing
import LedgerClient.Proofs.Node.Backoff

/-!
# Times that cannot be written down

The timeout of a request has no upper bound, but a timer has a last second.  A call whose timeout
leads beyond it has no deadline and does not come back.  Nothing else that a client computes with
times leaves its range: a share of the time that is left is a span, and the lengths of windows stay
between bounds that are counted in milliseconds.
-/

namespace LedgerClient

variable {σ : Type}

/-!
## Deadlines
-/

theorem Duration.nanos_ofSeconds (secs : UInt64) :
    (ofSeconds secs).nanos = secs.toNat * nanosPerSecond := by
  apply nanos_ofNanos
  have h := secs.toNat_lt
  unfold maxNanos nanosPerSecond
  omega

theorem Instant.inRange_of_plus? {start later : Instant} {d : Duration}
    (h : start.plus? d = some later) : later.InRange := by
  unfold plus? at h
  dsimp only at h
  split at h
  case isTrue hrange =>
    cases h
    exact hrange
  case isFalse => cases h

theorem Instant.plus?_ofSeconds_eq_none_iff {start : Instant} {secs : UInt64} :
    start.plus? (Duration.ofSeconds secs) = none <->
      endSeconds ≤ start.nanos / Duration.nanosPerSecond + secs.toNat := by
  have hsum : (start.nanos + secs.toNat * Duration.nanosPerSecond) / Duration.nanosPerSecond =
      start.nanos / Duration.nanosPerSecond + secs.toNat :=
    Nat.add_mul_div_right _ _ (by decide)
  rw [plus?, Duration.nanos_ofSeconds, hsum]
  simp

namespace Engine

variable {e : Engine} {w : Surroundings σ} {world : σ}

/-!
## Calls that have a deadline
-/

theorem deliver_ne_outOfRange {request : Request} {deadline : Instant}
    (hvalid : e.settings.validate = .ok ()) (hdeadline : deadline.InRange) :
    (e.deliver w request deadline world).ending ≠ .halted .outOfRange := by
  intro h
  rcases deliver_halted hvalid hdeadline h with ⟨hwaiting, _⟩
  cases hwaiting

theorem query_ne_outOfRange {q : Query} {deadline : Instant}
    (hvalid : e.settings.validate = .ok ()) (hdeadline : deadline.InRange) :
    (e.query w q deadline world).ending ≠ .halted .outOfRange := by
  rcases e.exists_query_eq w q deadline world with ⟨request, _, hrun⟩
  rw [hrun]
  exact deliver_ne_outOfRange hvalid hdeadline

theorem submit_ne_outOfRange {tx : Transaction} {deadline : Instant}
    (hvalid : e.settings.validate = .ok ()) (hdeadline : deadline.InRange) :
    (e.submit w tx deadline world).run.ending ≠ .halted .outOfRange := by
  rcases e.submit_cases w tx deadline world with
    ⟨error, _, hrun⟩ | ⟨request, id, hashes, _, hrun⟩
  · rw [hrun]
    intro h
    cases h
  · rw [hrun, carryOut_ending]
    exact settle_ne_halted (deliver_ne_outOfRange hvalid hdeadline)

/-- The states in which the timer is read for a transaction: for the first at once, and for each of
the others when all before it were answered. -/
inductive SetsOut (w : Surroundings σ) (timeout : Duration) :
    List Transaction -> Engine -> σ -> σ -> Prop where
  | first {tx : Transaction} {rest : List Transaction} {e : Engine} {world : σ} :
      SetsOut w timeout (tx :: rest) e world world
  | later {tx : Transaction} {rest : List Transaction} {e : Engine} {world started : σ}
      {deadline : Instant} {receipt : Receipt} {done : TransactionRun σ} :
      (w.timer world).1.plus? timeout = some deadline ->
      e.submit w tx deadline (w.timer world).2 = done ->
      done.run.ending = .answered receipt ->
      SetsOut w timeout rest { e with registry := done.run.registry } done.run.world started ->
      SetsOut w timeout (tx :: rest) e world started

/-- If the first transaction has a deadline, it is another one that has none. -/
theorem lacks_deadline_later_iff {timeout : Duration} {tx : Transaction} {rest : List Transaction}
    {deadline : Instant} {done : TransactionRun σ}
    (hdeadline : (w.timer world).1.plus? timeout = some deadline)
    (hdone : e.submit w tx deadline (w.timer world).2 = done) :
    (exists started, SetsOut w timeout (tx :: rest) e world started ∧
        (w.timer started).1.plus? timeout = none) <->
      exists receipt, done.run.ending = .answered receipt ∧
        exists started,
          SetsOut w timeout rest { e with registry := done.run.registry } done.run.world started ∧
            (w.timer started).1.plus? timeout = none := by
  constructor
  · rintro ⟨started, hstart, hlate⟩
    cases hstart with
    | first =>
        rw [hdeadline] at hlate
        cases hlate
    | later hother hsame hanswered hrest =>
        rw [hdeadline] at hother
        cases hother
        rw [hdone] at hsame
        cases hsame
        exact ⟨_, hanswered, started, hrest, hlate⟩
  · rintro ⟨receipt, hanswered, started, hrest, hlate⟩
    exact ⟨started, .later hdeadline hdone hanswered hrest, hlate⟩

/-- The induction is on the transactions that are left, with the records the others made. -/
theorem submitEach_outOfRange_iff {timeout : Duration} {index : Nat} {txs : List Transaction}
    {receipts : List Receipt} (hvalid : e.settings.validate = .ok ()) :
    (submitEach w timeout index txs e receipts world).ending = .halted .outOfRange <->
      exists started, SetsOut w timeout txs e world started ∧
        (w.timer started).1.plus? timeout = none := by
  induction txs generalizing index e receipts world with
  | nil =>
      constructor
      · intro h
        cases h
      · rintro ⟨started, hnone, _⟩
        cases hnone
  | cons tx rest ih =>
      cases hdeadline : (w.timer world).1.plus? timeout with
      | none =>
          simp only [submitEach, hdeadline, true_iff]
          exact ⟨world, .first, hdeadline⟩
      | some deadline =>
          have hreturns := @submit_ne_outOfRange σ e w (w.timer world).2 tx deadline hvalid
            (Instant.inRange_of_plus? hdeadline)
          rw [lacks_deadline_later_iff hdeadline rfl]
          simp only [submitEach, hdeadline]
          generalize e.submit w tx deadline (w.timer world).2 = done at hreturns ⊢
          cases hending : done.run.ending with
          | halted halt => simpa [hending] using hreturns
          | failed error => simp
          | answered receipt =>
              have hrest := @ih { e with registry := done.run.registry } done.run.world (index + 1)
                (receipts ++ [receipt]) hvalid
              simpa using hrest

theorem submitAll_outOfRange_iff {b : Batch} {timeout : Duration}
    (hvalid : e.settings.validate = .ok ()) :
    (e.submitAll w b timeout world).ending = .halted .outOfRange <->
      firstUnready? 0 b.transactions = none ∧
        exists started, SetsOut w timeout b.transactions e world started ∧
          (w.timer started).1.plus? timeout = none := by
  unfold submitAll
  cases hunready : firstUnready? 0 b.transactions with
  | none => simpa using submitEach_outOfRange_iff hvalid
  | some unready => simp

end Engine

/-!
## Windows
-/

/-- A record with the bounds of a configuration, whose next window has a length between them. -/
structure Config.Confines (c : Config) (h : Health) : Prop where
  bounded : h.IsBounded
  low : h.minBackoff.nanos = c.minBackoffMillis.toNat * Duration.nanosPerMilli
  high : h.maxBackoff.nanos = c.maxBackoffMillis.toNat * Duration.nanosPerMilli

/-- Nothing is cut off when the record is changed or shown, except that a window ends with the last
reading of the clock. -/
structure Health.KeepsRange (h : Health) : Prop where
  doubled : h.currentBackoff.double.nanos = h.currentBackoff.nanos * 2
  halved : h.currentBackoff.half.nanos = h.currentBackoff.nanos / 2
  windowEnd : forall now : Timestamp, (h.recordFailure now).backoffUntil.toNat =
    min (now.toNat + h.currentBackoff.millis) Timestamp.last.toNat
  shown : h.snapshot.currentBackoffMillis.toNat = h.currentBackoff.millis

namespace Config

variable {c : Config} {h : Health}

theorem Confines.record (hconfined : c.Confines h) (event : Health.Event) :
    c.Confines (h.record event) := by
  rcases hconfined.bounded.bounds_record event with ⟨hlow, hhigh⟩
  constructor
  case bounded => exact hconfined.bounded.record event
  case low => rw [hlow, hconfined.low]
  case high => rw [hhigh, hconfined.high]

theorem IsTuned.confines (htuned : c.IsTuned) (entry : NodeEntry) :
    c.Confines (c.nodeOf entry).health where
  bounded := Health.isBounded_new _ _
  low := (htuned.describes entry).minBackoff
  high := (htuned.describes entry).maxBackoff

/-- Twice the longest window that can be configured is far from the longest span. -/
theorem Confines.keepsRange (hconfined : c.Confines h) : h.KeepsRange := by
  have hlongest : h.currentBackoff.nanos ≤ Timestamp.last.toNat * Duration.nanosPerMilli := by
    calc
      h.currentBackoff.nanos ≤ h.maxBackoff.nanos := hconfined.bounded.high
      _ = c.maxBackoffMillis.toNat * Duration.nanosPerMilli := hconfined.high
      _ ≤ Timestamp.last.toNat * Duration.nanosPerMilli :=
        Nat.mul_le_mul_right _ (Nat.le_of_lt_succ c.maxBackoffMillis.toNat_lt)
  have hmillis : h.currentBackoff.millis ≤ Timestamp.last.toNat :=
    Nat.div_le_of_le_mul (by rwa [Nat.mul_comm])
  constructor
  case doubled =>
    apply Duration.nanos_ofNanos
    have htwice : Timestamp.last.toNat * Duration.nanosPerMilli * 2 ≤ Duration.maxNanos := by decide
    omega
  case halved => rfl
  case windowEnd => exact fun now => now.toNat_plusMillis _
  case shown =>
    show (Timestamp.plusMillis 0 h.currentBackoff.millis).toNat = _
    rw [Timestamp.toNat_plusMillis]
    show min (0 + _) _ = _
    omega

end Config

namespace Client

variable {c : Client} {w : Surroundings σ} {world : σ}

/-!
## Clients
-/

theorem IsMade.settings (h : c.IsMade) : c.engine.settings = c.config.delivery := by
  induction h with
  | @new config c hnew =>
      rcases new_of_valid (validate_of_new hnew).left with ⟨registry, _, hmade⟩
      rw [hnew] at hmade
      cases hmade
      rfl
  | withOperator account signer _ ih => exact ih
  | withRecords p e _ ih => exact ih

theorem IsMade.isTuned (h : c.IsMade) : c.config.IsTuned :=
  (Config.validate_eq_ok_iff.mp h.validate_config).right

theorem IsMade.validate_settings (h : c.IsMade) : c.engine.settings.validate = .ok () := by
  rw [h.settings]
  exact h.isTuned.validate_delivery

theorem IsMade.confines (h : c.IsMade) :
    forall n, n ∈ c.registry.nodes -> c.config.Confines n.health := by
  induction h with
  | @new config c hnew =>
      rcases validate_of_new hnew with ⟨hvalid, _⟩
      rcases new_of_valid hvalid with ⟨registry, hregistry, hmade⟩
      rw [hnew] at hmade
      cases hmade
      intro n hn
      have hnodes : n ∈ config.nodes.map config.nodeOf := by
        rw [← Registry.nodes_of_ofNodes hregistry]
        exact hn
      rcases List.mem_map.mp hnodes with ⟨entry, _, hentry⟩
      rw [← hentry]
      exact (Config.validate_eq_ok_iff.mp hvalid).right.confines entry
  | withOperator account signer _ ih => exact ih
  | @withRecords c p e _ ih =>
      intro n hn
      rcases List.mem_map.mp hn with ⟨before, hbefore, hn⟩
      have hconfined := ih before hbefore
      cases hp : p before with
      | true =>
          rw [hp, if_pos rfl] at hn
          rw [← hn]
          exact hconfined.record e
      | false =>
          rw [hp, if_neg Bool.false_ne_true] at hn
          rw [← hn]
          exact hconfined

/-- A client stays one that was made, whatever is entered into its records. -/
theorem IsMade.meanwhile (h : c.IsMade) (happenings : List Happening) :
    (c.withRegistry (c.registry.meanwhile happenings)).IsMade := by
  induction happenings generalizing c with
  | nil => exact h
  | cons happening rest ih =>
      exact ih (.withRecords (fun n => n.id == happening.node) happening.event h)

/-- The timer shows a time from which on the timeout leads beyond its last second. -/
def LacksDeadline (c : Client) (w : Surroundings σ) (world : σ) : Prop :=
  Instant.endSeconds ≤
    (w.timer world).1.nanos / Duration.nanosPerSecond + c.config.requestTimeoutSecs.toNat

theorem lacksDeadline_iff :
    c.LacksDeadline w world <-> (w.timer world).1.plus? c.config.requestTimeout = none :=
  Instant.plus?_ofSeconds_eq_none_iff.symm

/-- The state in which the timer is read for a transaction: it is frozen and signed by then. -/
inductive SetsOut (c : Client) (w : Surroundings σ) (tx : Transaction) (world : σ) : σ -> Prop where
  | frozen {frozen signed : Transaction} {started : σ} : tx.state = .draft ->
      c.freezeWith w tx world = (frozen, .ok (), started) ->
      c.signWithOperator frozen = .ok signed -> SetsOut c w tx world started
  | sealed {signed : Transaction} : tx.state ≠ .draft -> c.signWithOperator tx = .ok signed ->
      SetsOut c w tx world world

/-- The states in which the timer is read for the transactions of a batch, which are all signed and
ready by then. -/
def SetsOutWith (c : Client) (w : Surroundings σ) (b : Batch) (world started : σ) : Prop :=
  exists signed, c.signBatchWithOperator b = (signed, .ok ()) ∧
    Engine.firstUnready? 0 signed.transactions = none ∧
    Engine.SetsOut w c.config.requestTimeout signed.transactions c.engine world started

section

variable (hmade : c.IsMade)
include hmade

theorem IsMade.query_outOfRange_iff (q : Query) :
    (c.query w q world).ending = .halted .outOfRange <-> c.LacksDeadline w world := by
  rw [lacksDeadline_iff]
  rcases c.query_cases w q world with ⟨hnone, hrun⟩ | ⟨deadline, hdeadline, hrun⟩
  · simp [hrun, hnone]
  · have hreturns := @Engine.query_ne_outOfRange σ c.engine w (w.timer world).2 q deadline
      hmade.validate_settings (Instant.inRange_of_plus? hdeadline)
    simp [hrun, hdeadline, hreturns]

theorem IsMade.submitFrozen_outOfRange_iff (tx : Transaction) :
    (c.submitFrozen w tx world).run.ending = .halted .outOfRange <->
      (exists signed, c.signWithOperator tx = .ok signed) ∧ c.LacksDeadline w world := by
  rw [lacksDeadline_iff]
  rcases c.submitFrozen_cases w tx world with
    ⟨e, hsign, hrun⟩ | ⟨signed, hsign, ⟨hnone, hrun⟩ | ⟨deadline, hdeadline, hrun⟩⟩
  · simp [hrun, hsign, Engine.refuseTransaction, Engine.refuse]
  · simp [hrun, hsign, hnone, haltTransaction]
  · have hreturns := @Engine.submit_ne_outOfRange σ c.engine w (w.timer world).2 signed deadline
      hmade.validate_settings (Instant.inRange_of_plus? hdeadline)
    simp [hrun, hdeadline, hreturns]

theorem IsMade.execute_outOfRange_iff (tx : Transaction) :
    (c.execute w tx world).run.ending = .halted .outOfRange <->
      exists started, c.SetsOut w tx world started ∧ c.LacksDeadline w started := by
  by_cases hdraft : tx.state = .draft
  · have hstarts : forall started, c.SetsOut w tx world started <->
        exists frozen signed, c.freezeWith w tx world = (frozen, .ok (), started) ∧
          c.signWithOperator frozen = .ok signed := by
      intro started
      constructor
      · intro h
        cases h with
        | frozen _ hfreeze hsign => exact ⟨_, _, hfreeze, hsign⟩
        | sealed hsealed _ => exact (hsealed hdraft).elim
      · rintro ⟨frozen, signed, hfreeze, hsign⟩
        exact .frozen hdraft hfreeze hsign
    simp only [hstarts, execute, if_pos hdraft]
    rcases hfreeze : c.freezeWith w tx world with ⟨frozen, result, started⟩
    cases result with
    | error e => simp [Engine.refuseTransaction, Engine.refuse]
    | ok done => simp [hmade.submitFrozen_outOfRange_iff]
  · have hstarts : forall started, c.SetsOut w tx world started <->
        started = world ∧ exists signed, c.signWithOperator tx = .ok signed := by
      intro started
      constructor
      · intro h
        cases h with
        | frozen hstate _ _ => exact (hdraft hstate).elim
        | sealed _ hsign => exact ⟨rfl, _, hsign⟩
      · rintro ⟨hsame, signed, hsign⟩
        rw [hsame]
        exact .sealed hdraft hsign
    rw [execute_of_sealed hdraft, hmade.submitFrozen_outOfRange_iff]
    simp [hstarts, and_assoc]

theorem IsMade.executeAll_outOfRange_iff (b : Batch) :
    (c.executeAll w b world).ending = .halted .outOfRange <->
      exists started, c.SetsOutWith w b world started ∧ c.LacksDeadline w started := by
  simp only [lacksDeadline_iff, SetsOutWith]
  rcases c.executeAll_cases w b world with ⟨signed, e, hsign, hrun⟩ | ⟨signed, hsign, hrun⟩
  · simp [hrun, hsign]
  · rw [hrun, Engine.submitAll_outOfRange_iff hmade.validate_settings]
    simp [hsign, and_assoc]

/-- A share of the time to a deadline of the client is a span, whatever time it is. -/
theorem IsMade.exists_limit? {deadline : Instant}
    (hdeadline : (w.timer world).1.plus? c.config.requestTimeout = some deadline) (isLast : Bool)
    (now : Instant) :
    exists limit, Progress.limit? c.engine.settings isLast (now.timeUntil deadline) = some limit :=
  Progress.exists_limit? hmade.validate_settings (Instant.inRange_of_plus? hdeadline) isLast now

end

/-!
## The records after a call
-/

/-- Events lead from the records of the client to these. -/
def LeadsTo (c : Client) (r : Registry) : Prop :=
  exists happenings, r = c.registry.meanwhile happenings

theorem leadsTo_self (c : Client) : c.LeadsTo c.registry :=
  ⟨[], rfl⟩

theorem leadsTo_query (c : Client) (w : Surroundings σ) (q : Query) (world : σ) :
    c.LeadsTo (c.query w q world).registry := by
  rcases c.query_cases w q world with ⟨_, hrun⟩ | ⟨deadline, _, hrun⟩
  · rw [hrun]
    exact c.leadsTo_self
  · rw [hrun]
    exact (c.engine.query_passage w q deadline (w.timer world).2).exists_entries

theorem leadsTo_execute (c : Client) (w : Surroundings σ) (tx : Transaction) (world : σ) :
    c.LeadsTo (c.execute w tx world).run.registry := by
  rcases c.execute_cases w tx world with
    ⟨e, left, after, hrun⟩ | ⟨signed, _, ⟨after, hrun⟩ | ⟨deadline, after, hrun⟩⟩
  · rw [hrun]
    exact c.leadsTo_self
  · rw [hrun]
    exact c.leadsTo_self
  · rw [hrun]
    exact (c.engine.submit_passage w signed deadline after).exists_entries

theorem leadsTo_executeAll (c : Client) (w : Surroundings σ) (b : Batch) (world : σ) :
    c.LeadsTo (c.executeAll w b world).registry := by
  rcases c.executeAll_cases w b world with ⟨signed, e, _, hrun⟩ | ⟨signed, _, hrun⟩
  · rw [hrun]
    exact c.leadsTo_self
  · rw [hrun]
    exact (c.engine.submitAll_passage w signed c.config.requestTimeout world).exists_entries

/-- A client from an accepted configuration leaves the range of times in one place only.  A call is
halted for that if and only if it gets as far as to read the timer and the timeout leads beyond the
last second from there; once there is a deadline, every share of the time that is left is a span.
The records stay within the bounds of the configuration, also those that calls leave behind, and
there doubling, halving and the end of a window stay in range. -/
theorem only_deadlines_leave_range (hmade : c.IsMade) (w : Surroundings σ) (world : σ) :
    (forall q, (c.query w q world).ending = .halted .outOfRange <-> c.LacksDeadline w world) ∧
    (forall tx, (c.execute w tx world).run.ending = .halted .outOfRange <->
      exists started, c.SetsOut w tx world started ∧ c.LacksDeadline w started) ∧
    (forall b, (c.executeAll w b world).ending = .halted .outOfRange <->
      exists started, c.SetsOutWith w b world started ∧ c.LacksDeadline w started) ∧
    (forall deadline, (w.timer world).1.plus? c.config.requestTimeout = some deadline ->
      forall (isLast : Bool) (now : Instant), exists limit,
        Progress.limit? c.engine.settings isLast (now.timeUntil deadline) = some limit) ∧
    (forall r, c.LeadsTo r -> forall n, n ∈ r.nodes ->
      c.config.Confines n.health ∧ n.health.KeepsRange) ∧
    (forall q, c.LeadsTo (c.query w q world).registry) ∧
    (forall tx, c.LeadsTo (c.execute w tx world).run.registry) ∧
    forall b, c.LeadsTo (c.executeAll w b world).registry := by
  refine ⟨hmade.query_outOfRange_iff, hmade.execute_outOfRange_iff, hmade.executeAll_outOfRange_iff,
    ?share, ?records, fun q => c.leadsTo_query w q world, fun tx => c.leadsTo_execute w tx world,
    fun b => c.leadsTo_executeAll w b world⟩
  case share => exact fun deadline hdeadline => hmade.exists_limit? hdeadline
  case records =>
    rintro r ⟨happenings, hr⟩ n hn
    rw [hr] at hn
    have hconfined := (hmade.meanwhile happenings).confines n hn
    exact ⟨hconfined, hconfined.keepsRange⟩

/-- With two minutes for a request no call is halted, as long as the timer is two minutes away from
its last second. -/
theorem localPayer_keeps_range :
    localPayer.IsMade ∧
      (forall q, (localPayer.query accepting q false).ending ≠ .halted .outOfRange) ∧
      (forall tx, (localPayer.execute accepting tx false).run.ending ≠ .halted .outOfRange) ∧
      forall b, (localPayer.executeAll accepting b false).ending ≠ .halted .outOfRange := by
  have hmade : localPayer.IsMade := .withOperator _ _ (.new new_localNetwork)
  have htime : forall started, ¬ localPayer.LacksDeadline accepting started := by
    intro started
    have hread : (accepting.timer started).1 = ⟨0⟩ := rfl
    rw [LacksDeadline, hread]
    decide
  rcases only_deadlines_leave_range hmade accepting false with ⟨hquery, hexecute, hall, _⟩
  refine ⟨hmade, fun q h => htime false ((hquery q).mp h), ?_, ?_⟩
  · intro tx h
    rcases (hexecute tx).mp h with ⟨started, _, hlate⟩
    exact htime started hlate
  · intro b h
    rcases (hall b).mp h with ⟨started, _, hlate⟩
    exact htime started hlate

/-- The longest timeout that can be written as a signed number of 64 bits. -/
def boundlessNetwork : Config :=
  { Config.localNetwork with requestTimeoutSecs := 9223372036854775807 }

/-- The timer has counted one second. -/
def startedUp : Surroundings Bool :=
  { accepting with timer := fun s => (Instant.ofMillis 1000, s) }

/-- The configuration is accepted, and a query of its client does not come back. -/
theorem boundless_query_halted :
    boundlessNetwork.validate = .ok () ∧
      exists c, Client.new boundlessNetwork = .ok c ∧ c.IsMade ∧
        (c.query startedUp ⟨.accountBalance, [], []⟩ false).ending = .halted .outOfRange := by
  have hvalid : boundlessNetwork.validate = .ok () := by decide +kernel
  rcases new_of_valid hvalid with ⟨registry, _, hnew⟩
  have hmade : IsMade ⟨boundlessNetwork, ⟨boundlessNetwork.delivery, registry⟩, none⟩ := .new hnew
  refine ⟨hvalid, _, hnew, hmade, ?_⟩
  rw [hmade.query_outOfRange_iff]
  show Instant.endSeconds ≤ 1 + 9223372036854775807
  decide

end Client

end LedgerClient
