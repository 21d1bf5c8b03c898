import LedgerClient.Client
import LedgerClient.Proofs.Node.Lookups
import Mathlib.Data.List.Forall2

/-!
# Accepted configurations

A configuration is checked as a whole before a client is made, and in parts when the registry and
the engine are made from it.  The nodes are checked by two scans, one that looks back over the
entries and one that keeps the ids and addresses it has met; both stop at the same entry with the
same error.  What the engine asks of its settings is asked before.  So a client is made from exactly
those configurations that are accepted.
-/

namespace LedgerClient

/-!
## The two scans of the nodes
-/

section

variable {β : Type} {f : NodeEntry → β} {entry : NodeEntry} {earlier rest : List NodeEntry}

theorem any_beq_iff_mem_map [DecidableEq β] :
    earlier.any (fun e => f e == f entry) = true <-> f entry ∈ earlier.map f := by
  simp [List.any_eq_true, List.mem_map]

theorem not_mem_of_nodup_map (h : ((earlier.reverse ++ entry :: rest).map f).Nodup) :
    f entry ∉ earlier.map f := by
  rw [List.map_append, List.map_reverse, List.map_cons, List.nodup_append] at h
  intro hmem
  exact h.right.right _ (List.mem_reverse.mpr hmem) _ List.mem_cons_self rfl

end

namespace Config

variable {c : Config} {e : ConfigError}

/-- What was met is what stands before. -/
theorem findClash_eq_some_iff {earlier entries : List NodeEntry} :
    Registry.findClash (earlier.map NodeEntry.id) (earlier.map NodeEntry.address)
        (entries.map c.nodeOf) = some e <->
      validateEntries earlier entries = .error e := by
  induction entries generalizing earlier with
  | nil => simp [Registry.findClash, validateEntries]
  | cons entry rest ih =>
      have hid : (c.nodeOf entry).id = entry.id := rfl
      have haddress : (c.nodeOf entry).address = entry.address := rfl
      simp only [List.map_cons, Registry.findClash, validateEntries, hid, haddress,
        any_beq_iff_mem_map]
      by_cases hknown : entry.id ∈ earlier.map NodeEntry.id
      · simp only [if_pos hknown, Option.some.injEq, Except.error.injEq]
      · by_cases htaken : entry.address ∈ earlier.map NodeEntry.address
        · simp only [if_neg hknown, if_pos htaken, Option.some.injEq, Except.error.injEq]
        · simp only [if_neg hknown, if_neg htaken]
          exact @ih (entry :: earlier)

theorem validateEntries_of_nodup {earlier entries : List NodeEntry}
    (hids : ((earlier.reverse ++ entries).map NodeEntry.id).Nodup)
    (haddresses : ((earlier.reverse ++ entries).map NodeEntry.address).Nodup) :
    validateEntries earlier entries = .ok () := by
  induction entries generalizing earlier with
  | nil => rfl
  | cons entry rest ih =>
      have hmoved : earlier.reverse ++ entry :: rest = (entry :: earlier).reverse ++ rest := by
        rw [List.reverse_cons, List.append_assoc, List.singleton_append]
      simp only [validateEntries, any_beq_iff_mem_map, not_mem_of_nodup_map hids,
        not_mem_of_nodup_map haddresses, if_false]
      rw [hmoved] at hids haddresses
      exact ih hids haddresses

theorem registry_eq_error_iff : c.registry = .error e <-> c.validateNodes = .error e := by
  have hscans := @findClash_eq_some_iff c e [] c.nodes
  rw [registry, validateNodes, Registry.ofNodes_eq_error_iff]
  cases hnodes : c.nodes with
  | nil => simp [eq_comm]
  | cons first rest =>
      rw [hnodes] at hscans
      simpa using hscans

theorem validateNodes_eq_ok_iff : c.validateNodes = .ok () <->
    c.nodes ≠ [] ∧ (c.nodes.map NodeEntry.id).Nodup ∧ (c.nodes.map NodeEntry.address).Nodup := by
  constructor
  · intro h
    cases hregistry : c.registry with
    | error e =>
        rw [registry_eq_error_iff.mp hregistry] at h
        cases h
    | ok r =>
        have hnodes := Registry.nodes_of_ofNodes hregistry
        have hsome := r.nodes_ne_nil
        have hids := r.ids_nodup
        have haddresses := r.addresses_nodup
        rw [hnodes] at hsome hids haddresses
        rw [List.map_map] at hids haddresses
        exact ⟨fun hnone => hsome (by rw [hnone, List.map_nil]), hids, haddresses⟩
  · rintro ⟨hsome, hids, haddresses⟩
    rw [validateNodes, if_neg (by simpa using hsome)]
    exact validateEntries_of_nodup hids haddresses

/-!
## The settings
-/

theorem ite_error_eq_ok_iff {ε : Type} {p : Prop} [Decidable p] {fault : ε}
    {rest : Except ε Unit} :
    (if p then .error fault else rest) = .ok () <-> ¬ p ∧ rest = .ok () := by
  by_cases h : p
  · simp [h]
  · simp [h]

/-- What is asked of the settings. -/
structure IsTuned (c : Config) : Prop where
  minBackoff : c.minBackoffMillis ≠ 0
  ordered : c.minBackoffMillis ≤ c.maxBackoffMillis
  share : c.attemptShare.isShare = true
  requestTimeout : c.requestTimeoutSecs ≠ 0
  maxAttempts : c.maxAttempts ≠ some 0
  maxChunkSize : c.maxChunkSize ≠ 0
  maxChunks : c.maxChunks ≠ 0
  validDuration : c.validDurationSecs ≠ 0

theorem validateSettings_eq_ok_iff : c.validateSettings = .ok () <-> c.IsTuned := by
  simp only [validateSettings, ite_error_eq_ok_iff, UInt64.not_lt, Bool.not_eq_true',
    Bool.not_eq_false, and_true]
  constructor
  · rintro ⟨hmin, hordered, hshare, htimeout, hattempts, hsize, hchunks, hduration⟩
    exact ⟨hmin, hordered, hshare, htimeout, hattempts, hsize, hchunks, hduration⟩
  · intro h
    exact ⟨h.minBackoff, h.ordered, h.share, h.requestTimeout, h.maxAttempts, h.maxChunkSize,
      h.maxChunks, h.validDuration⟩

theorem validate_eq_ok_iff : c.validate = .ok () <-> c.validateNodes = .ok () ∧ c.IsTuned := by
  rw [validate, ← validateSettings_eq_ok_iff]
  cases c.validateNodes with
  | error e => simp
  | ok valid => simp

/-- The nodes are checked first, and what is wrong with them is what is reported. -/
theorem validate_of_validateNodes (h : c.validateNodes = .error e) : c.validate = .error e := by
  rw [validate, h]

theorem IsTuned.validate_delivery (h : c.IsTuned) : c.delivery.validate = .ok () := by
  simp [DeliverySettings.validate, delivery, h.share, h.maxAttempts]

/-- What the configuration says of a node, and bounds of its windows that are in order. -/
structure Describes (c : Config) (entry : NodeEntry) (n : Node) : Prop where
  id : n.id = entry.id
  address : n.address = entry.address
  certificateHash : n.certificateHash = entry.certificateHash
  minBackoff : n.health.minBackoff.nanos = c.minBackoffMillis.toNat * Duration.nanosPerMilli
  maxBackoff : n.health.maxBackoff.nanos = c.maxBackoffMillis.toNat * Duration.nanosPerMilli
  positive : 0 < n.health.minBackoff.nanos
  ordered : n.health.minBackoff ≤ n.health.maxBackoff

theorem IsTuned.describes (h : c.IsTuned) (entry : NodeEntry) :
    c.Describes entry (c.nodeOf entry) := by
  have hpositive : c.minBackoffMillis.toNat ≠ 0 :=
    fun hzero => h.minBackoff (UInt64.toNat_inj.mp hzero)
  have hmillis := UInt64.le_iff_toNat_le.mp h.ordered
  have hordered : Duration.ofMillis c.minBackoffMillis ≤ Duration.ofMillis c.maxBackoffMillis := by
    rw [Duration.le_def, Duration.nanos_ofMillis, Duration.nanos_ofMillis]
    exact Nat.mul_le_mul_right _ hmillis
  have hmin : (c.nodeOf entry).health.minBackoff = Duration.ofMillis c.minBackoffMillis :=
    if_pos hordered
  have hmax : (c.nodeOf entry).health.maxBackoff = Duration.ofMillis c.maxBackoffMillis :=
    if_pos hordered
  constructor
  case id => rfl
  case address => rfl
  case certificateHash => rfl
  case minBackoff => rw [hmin, Duration.nanos_ofMillis]
  case maxBackoff => rw [hmax, Duration.nanos_ofMillis]
  case positive =>
    rw [hmin, Duration.nanos_ofMillis]
    exact Nat.mul_pos (Nat.pos_of_ne_zero hpositive) (by decide)
  case ordered => rwa [hmin, hmax]

end Config

/-!
## Clients
-/

namespace Client

variable {config : Config}

/-- Once a configuration is accepted, nothing fails on the way to a client. -/
theorem new_of_valid (h : config.validate = .ok ()) :
    exists registry, config.registry = .ok registry ∧
      new config = .ok ⟨config, ⟨config.delivery, registry⟩, none⟩ := by
  rcases Config.validate_eq_ok_iff.mp h with ⟨hnodes, htuned⟩
  cases hregistry : config.registry with
  | error e =>
      rw [Config.registry_eq_error_iff.mp hregistry] at hnodes
      cases hnodes
  | ok registry =>
      refine ⟨registry, rfl, ?_⟩
      simp [new, h, hregistry, Engine.new, htuned.validate_delivery]

theorem new_eq_error_iff {e : ClientError} :
    new config = .error e <-> exists cause, config.validate = .error cause ∧ e = .config cause := by
  cases hvalid : config.validate with
  | error cause => simp [new, hvalid, eq_comm]
  | ok valid =>
      rcases new_of_valid hvalid with ⟨registry, _, hnew⟩
      simp [hnew]

theorem validate_of_new {c : Client} (h : new config = .ok c) :
    config.validate = .ok () ∧ c.config = config := by
  cases hvalid : config.validate with
  | error cause =>
      rw [new_eq_error_iff.mpr ⟨cause, hvalid, rfl⟩] at h
      cases h
  | ok valid =>
      rcases new_of_valid hvalid with ⟨registry, _, hnew⟩
      rw [hnew] at h
      cases h
      exact ⟨rfl, rfl⟩

end Client

/-- The registry refuses a configuration if and only if the check of its nodes does, and for the
same reason; what that check refuses, the whole check refuses for this reason, and it accepts what
is tuned besides.  A client is refused if and only if the configuration is, and for the same reason:
once it is accepted, neither the registry nor the engine objects.  The registry then has a node for
each entry, in the order of the entries and with the bounds of the configuration. -/
theorem validations_agree (config : Config) :
    (forall e, config.registry = .error e <-> config.validateNodes = .error e) ∧
    (config.validateNodes = .ok () <->
      config.nodes ≠ [] ∧ (config.nodes.map NodeEntry.id).Nodup ∧
        (config.nodes.map NodeEntry.address).Nodup) ∧
    (forall e, config.validateNodes = .error e -> config.validate = .error e) ∧
    (config.validate = .ok () <-> config.validateNodes = .ok () ∧ config.IsTuned) ∧
    (forall e, Client.new config = .error e <->
      exists cause, config.validate = .error cause ∧ e = .config cause) ∧
    (config.validate = .ok () <->
      exists registry, config.registry = .ok registry ∧ config.delivery.validate = .ok () ∧
        Client.new config = .ok ⟨config, ⟨config.delivery, registry⟩, none⟩ ∧
        List.Forall₂ config.Describes config.nodes registry.nodes) := by
  refine ⟨fun e => Config.registry_eq_error_iff, Config.validateNodes_eq_ok_iff,
    fun e => Config.validate_of_validateNodes, Config.validate_eq_ok_iff,
    fun e => Client.new_eq_error_iff, ?_, ?_⟩
  · intro hvalid
    have htuned := (Config.validate_eq_ok_iff.mp hvalid).right
    rcases Client.new_of_valid hvalid with ⟨registry, hregistry, hnew⟩
    refine ⟨registry, hregistry, htuned.validate_delivery, hnew, ?_⟩
    rw [Registry.nodes_of_ofNodes hregistry, List.forall₂_map_right_iff, List.forall₂_same]
    exact fun entry _ => htuned.describes entry
  · rintro ⟨registry, _, _, hnew, _⟩
    exact (Client.validate_of_new hnew).left

/-- Both an id and an address occur twice, but the second node already repeats an address. -/
example : Config.validateNodes
    { Config.localNetwork with nodes := [⟨⟨3⟩, "a", none⟩, ⟨⟨4⟩, "a", none⟩, ⟨⟨3⟩, "b", none⟩] } =
      .error (.addressTwice "a") :=
  rfl

end LedgerClient
