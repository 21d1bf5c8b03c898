import LedgerClient.Config.Document
import LedgerClient.Proofs.Toml.Documents
import LedgerClient.Proofs.Wire.Lossless

/-!
# Configurations that are read back

A configuration is written as a document with its nodes behind its other fields; without nodes, the
list of nodes is a field too.  Reading the document looks each setting up by its name.  The limit of
attempts and the hashes of certificates are the only parts that may be left out, and what is left
out of a document is read as absent.  Of the text between writing and reading no more is used than
that it loses nothing of a document.
-/

namespace LedgerClient

namespace Config

open Toml (Table Value IsBareName IsSimple AreFields IsDocument document Writable)

variable {c : Config} {e : NodeEntry}

/-!
## The document of a configuration
-/

/-- The fields of a configuration in front of its nodes. -/
def settings (c : Config) : Table :=
  [("network_name", .text c.networkName), ("transport", .text c.transport.name),
    ("min_backoff_ms", wordValue c.minBackoffMillis),
    ("max_backoff_ms", wordValue c.maxBackoffMillis),
    ("request_timeout_secs", wordValue c.requestTimeoutSecs)] ++
  optionalField "max_attempts" (fun n => .integer n.toNat) c.maxAttempts ++
  [("attempt_timeout_fraction", .float c.attemptShare),
    ("wait_for_unhealthy_nodes", .flag c.waitForUnhealthy),
    ("max_chunk_size", wordValue c.maxChunkSize), ("max_chunks", wordValue c.maxChunks),
    ("default_max_fee", wordValue c.defaultMaxFee),
    ("transaction_valid_duration_secs", wordValue c.validDurationSecs)]

/-- Without nodes the list of nodes is a field like the others. -/
def fields (c : Config) : Table :=
  c.settings ++ if c.nodes = [] then [("nodes", .list [])] else []

def nodeTables (c : Config) : List (String × List Table) :=
  if c.nodes = [] then [] else [("nodes", c.nodes.map entryTable)]

theorem toTable_eq (c : Config) : c.toTable = document c.fields c.nodeTables := by
  have hsplit : c.toTable =
      c.settings ++ [("nodes", .list (c.nodes.map fun e => .table (entryTable e)))] := by
    simp [toTable, settings]
  rw [hsplit, fields, nodeTables, document]
  by_cases hnodes : c.nodes = []
  · rw [if_pos hnodes, if_pos hnodes, hnodes]
    simp
  · rw [if_neg hnodes, if_neg hnodes]
    simp [Function.comp_def]

/-- Fields are well-formed whose names are some of a list of good names. -/
theorem areFields_of_sublist {t : Table} (names : List String)
    (hnames : (t.map Prod.fst).Sublist names)
    (hbare : forall name, name ∈ names -> IsBareName name) (hdistinct : names.Nodup)
    (hsimple : forall f, f ∈ t -> IsSimple f.2) : AreFields t := by
  constructor
  case named => exact fun f hf => hbare f.1 (hnames.subset (List.mem_map_of_mem hf))
  case simple => exact hsimple
  case distinct => exact hdistinct.sublist hnames

theorem names_optionalField {α : Type} (name : String) (value : α → Value) (o : Option α) :
    ((optionalField name value o).map Prod.fst).Sublist [name] := by
  cases o with
  | none => exact List.nil_sublist _
  | some a => exact List.Sublist.refl _

theorem forall_mem_optionalField {α : Type} {P : String × Value → Prop} {name : String}
    {value : α → Value} {o : Option α} (h : forall a, P (name, value a)) :
    forall f, f ∈ optionalField name value o -> P f := by
  cases o with
  | none => exact fun f hf => (List.not_mem_nil hf).elim
  | some a => exact fun f hf => List.mem_singleton.mp hf ▸ h a

def names : List String :=
  ["network_name", "transport", "min_backoff_ms", "max_backoff_ms", "request_timeout_secs",
    "max_attempts", "attempt_timeout_fraction", "wait_for_unhealthy_nodes", "max_chunk_size",
    "max_chunks", "default_max_fee", "transaction_valid_duration_secs", "nodes"]

theorem names_document (c : Config) :
    (c.fields.map Prod.fst ++ c.nodeTables.map Prod.fst).Sublist names := by
  have hsettings : (c.settings.map Prod.fst ++ ["nodes"]).Sublist names := by
    rw [settings, List.map_append, List.map_append]
    exact (((List.Sublist.refl _).append (names_optionalField _ _ _)).append
      (List.Sublist.refl _)).append (List.Sublist.refl _)
  have hnames : c.fields.map Prod.fst ++ c.nodeTables.map Prod.fst =
      c.settings.map Prod.fst ++ ["nodes"] := by
    rw [fields, nodeTables, List.map_append]
    split_ifs with hnodes
    · exact List.append_nil _
    · rw [List.map_nil, List.append_nil]
      rfl
  rw [hnames]
  exact hsettings

theorem simple_settings (h : c.attemptShare.IsNumber) :
    forall f, f ∈ c.settings -> IsSimple f.2 := by
  rw [settings, List.forall_mem_append, List.forall_mem_append]
  refine ⟨⟨?_, forall_mem_optionalField fun n => .integer _⟩, ?_⟩
  · simp only [List.forall_mem_cons]
    exact ⟨.text _, .text _, .integer _, .integer _, .integer _, by simp⟩
  · simp only [List.forall_mem_cons]
    exact ⟨.float h, .flag _, .integer _, .integer _, .integer _, .integer _, by simp⟩

theorem simple_fields (h : c.attemptShare.IsNumber) : forall f, f ∈ c.fields -> IsSimple f.2 := by
  rw [fields, List.forall_mem_append]
  refine ⟨simple_settings h, ?_⟩
  split_ifs
  · exact fun f hf => List.mem_singleton.mp hf ▸ .empty
  · exact fun f hf => (List.not_mem_nil hf).elim

theorem areFields_entryTable (e : NodeEntry) : AreFields (entryTable e) := by
  apply areFields_of_sublist ["id", "address", "cert_hash"]
  case hnames =>
    rw [entryTable, List.map_append]
    exact (List.Sublist.refl _).append (names_optionalField _ _ _)
  case hbare => decide
  case hdistinct => decide
  case hsimple =>
    rw [entryTable, List.forall_mem_append]
    refine ⟨?_, forall_mem_optionalField fun h => .text _⟩
    simp only [List.forall_mem_cons]
    exact ⟨.integer _, .text _, by simp⟩

theorem isDocument (h : c.attemptShare.IsNumber) : IsDocument c.fields c.nodeTables := by
  have hbare : forall name, name ∈ names -> IsBareName name := by decide
  have hdistinct : names.Nodup := by decide
  have htables : forall l, l ∈ c.nodeTables ->
      l.1 = "nodes" ∧ l.2 ≠ [] ∧ l.2 = c.nodes.map entryTable := by
    unfold nodeTables
    split_ifs with hnodes
    · exact fun l hl => (List.not_mem_nil hl).elim
    · intro l hl
      rw [List.mem_singleton.mp hl]
      exact ⟨rfl, by simpa using hnodes, rfl⟩
  constructor
  case fields =>
    exact areFields_of_sublist names ((List.sublist_append_left _ _).trans (names_document c)) hbare
      hdistinct (simple_fields h)
  case named =>
    intro l hl
    rw [(htables l hl).left]
    exact hbare "nodes" (by decide)
  case filled => exact fun l hl => (htables l hl).right.left
  case elements =>
    intro l hl t ht
    rw [(htables l hl).right.right] at ht
    rcases List.mem_map.mp ht with ⟨e, _, rfl⟩
    exact areFields_entryTable e
  case distinct => exact hdistinct.sublist (names_document c)

/-!
## Settings that are read back
-/

theorem natural?_integer {bound n : Nat} (h : n < bound) :
    (Value.integer n).natural? bound = some n := by
  rw [Value.natural?, if_pos ⟨Int.natCast_nonneg n, by exact_mod_cast h⟩]
  rfl

theorem word?_wordValue (n : UInt64) : word? (wordValue n) = some n := by
  rw [word?, wordValue, natural?_integer n.toNat_lt_size, Option.map_some, UInt64.ofNat_toNat]

theorem attempts?_integer (n : UInt32) : attempts? (.integer n.toNat) = some n := by
  rw [attempts?, natural?_integer n.toNat_lt_size, Option.map_some, UInt32.ofNat_toNat]

theorem hash?_text (h : Hash) : hash? (.text (Hex.encode h.toBytes)) = some h := by
  simp only [hash?, Hex.decode_utf8_encode]
  exact Octets.ofBytes?_toBytes h

theorem get?_cons_self (name : String) (v : Value) (t : Table) :
    Toml.Table.get? ((name, v) :: t) name = some v := by
  simp [Toml.Table.get?]

theorem get?_cons_of_ne {name other : String} (h : other ≠ name) (v : Value) (t : Table) :
    Toml.Table.get? ((other, v) :: t) name = Toml.Table.get? t name := by
  simp [Toml.Table.get?, h]

theorem get?_optionalField {α : Type} (name : String) (value : α → Value) (o : Option α) :
    Toml.Table.get? (optionalField name value o) name = o.map value := by
  cases o with
  | none => rfl
  | some a => exact get?_cons_self name (value a) []

theorem optionalHash?_map (o : Option Hash) :
    optionalHash? (o.map fun h => .text (Hex.encode h.toBytes)) = some o := by
  cases o with
  | none => rfl
  | some h =>
      show (hash? (.text (Hex.encode h.toBytes))).map some = some (some h)
      rw [hash?_text]
      rfl

theorem entry?_entryTable (e : NodeEntry) : entry? (.table (entryTable e)) = some e := by
  have hid : Toml.Table.get? (entryTable e) "id" = some (wordValue e.id.number) :=
    get?_cons_self _ _ _
  have haddress : Toml.Table.get? (entryTable e) "address" = some (.text e.address) := by
    rw [entryTable, List.cons_append, get?_cons_of_ne (by decide), List.cons_append, get?_cons_self]
  have hhash : Toml.Table.get? (entryTable e) "cert_hash" =
      e.certificateHash.map fun h => .text (Hex.encode h.toBytes) := by
    rw [entryTable, List.cons_append, get?_cons_of_ne (by decide), List.cons_append,
      get?_cons_of_ne (by decide), List.nil_append, get?_optionalField]
  have hread : entryOf? (wordValue e.id.number) (.text e.address)
      (e.certificateHash.map fun h => .text (Hex.encode h.toBytes)) = some e := by
    unfold entryOf?
    rw [word?_wordValue, optionalHash?_map]
    rfl
  unfold entry?
  dsimp only
  rw [hid, haddress, hhash, Option.bind_eq_bind, Option.bind_some, Option.bind_some, hread]

theorem entries?_nodes (nodes : List NodeEntry) :
    entries? (.list (nodes.map fun e => .table (entryTable e))) = some nodes :=
  Toml.mapM_map_eq_some entry?_entryTable nodes

theorem get?_append (t u : Table) (name : String) :
    Toml.Table.get? (t ++ u) name = (Toml.Table.get? t name).or (Toml.Table.get? u name) := by
  unfold Toml.Table.get?
  rw [List.find?_append]
  cases t.find? (fun f => f.1 == name) <;> rfl

/-- A field of the document in front of the limit of attempts or behind it. -/
theorem get?_toTable {name : String} (hname : name ≠ "max_attempts") :
    Toml.Table.get? c.toTable name =
      Toml.Table.get? ({ c with maxAttempts := none } : Config).toTable name := by
  have hnone : Toml.Table.get?
      (optionalField "max_attempts" (fun n : UInt32 => Value.integer n.toNat) c.maxAttempts) name =
        none := by
    cases c.maxAttempts with
    | none => rfl
    | some n =>
        show Toml.Table.get? [("max_attempts", Value.integer n.toNat)] name = none
        rw [get?_cons_of_ne hname.symm]
        rfl
  rw [toTable, get?_append, get?_append, hnone, toTable, get?_append, get?_append]
  rfl

theorem setting_eq {α : Type} {t : Table} {name : String} {read : Value → Option α} {v : Value}
    {a : α} (hv : Toml.Table.get? t name = some v) (ha : read v = some a) (default : α) :
    setting t name read default = .ok a := by
  simp only [setting, hv, ha]

theorem setting_default {α : Type} {t : Table} {name : String}
    (hv : Toml.Table.get? t name = none) (read : Value → Option α) (default : α) :
    setting t name read default = .ok default := by
  simp only [setting, hv]

theorem setting_attempts (c : Config) :
    setting c.toTable "max_attempts" (fun v => (attempts? v).map some) none =
      .ok c.maxAttempts := by
  have hlookup : Toml.Table.get? c.toTable "max_attempts" =
      c.maxAttempts.map fun n => .integer n.toNat := by
    have hback : forall o : Option Value, (none.or o).or none = o := by
      intro o
      cases o <;> rfl
    rw [toTable, get?_append, get?_append, get?_optionalField]
    exact hback _
  cases hattempts : c.maxAttempts with
  | none =>
      rw [hattempts] at hlookup
      exact setting_default hlookup _ none
  | some n =>
      rw [hattempts] at hlookup
      refine setting_eq hlookup ?_ none
      rw [attempts?_integer, Option.map_some]

/-- Every setting is read back, and a limit that is left out stays left out. -/
theorem ofTable_toTable (c : Config) : ofTable c.toTable = .ok c := by
  have hfield : forall {α : Type} (name : String) (read : Value → Option α) {v : Value} {a : α},
      Toml.Table.get? ({ c with maxAttempts := none } : Config).toTable name = some v ->
        name ≠ "max_attempts" -> read v = some a ->
          forall default, setting c.toTable name read default = .ok a := by
    intro α name read v a hv hname ha
    rw [← get?_toTable hname] at hv
    exact setting_eq hv ha
  have htransport : mode? (.text c.transport.name) = some c.transport :=
    TransportMode.ofName?_name c.transport
  have hattempts : setting c.toTable "max_attempts" (fun v => (attempts? v).map some)
      localNetwork.maxAttempts = .ok c.maxAttempts := setting_attempts c
  rw [ofTable, hfield "network_name" Value.text? rfl (by decide) rfl,
    hfield "transport" mode? rfl (by decide) htransport,
    hfield "min_backoff_ms" word? rfl (by decide) (word?_wordValue _),
    hfield "max_backoff_ms" word? rfl (by decide) (word?_wordValue _),
    hfield "request_timeout_secs" word? rfl (by decide) (word?_wordValue _), hattempts,
    hfield "attempt_timeout_fraction" Value.number? rfl (by decide) rfl,
    hfield "wait_for_unhealthy_nodes" Value.flag? rfl (by decide) rfl,
    hfield "max_chunk_size" word? rfl (by decide) (word?_wordValue _),
    hfield "max_chunks" word? rfl (by decide) (word?_wordValue _),
    hfield "default_max_fee" word? rfl (by decide) (word?_wordValue _),
    hfield "transaction_valid_duration_secs" word? rfl (by decide) (word?_wordValue _),
    hfield "nodes" entries? rfl (by decide) (entries?_nodes _)]
  rfl

/-!
## Integers in range
-/

/-- All integers of a configuration. -/
def integers (c : Config) : List Nat :=
  [c.minBackoffMillis, c.maxBackoffMillis, c.requestTimeoutSecs, c.maxChunkSize, c.maxChunks,
    c.defaultMaxFee, c.validDurationSecs].map UInt64.toNat ++
  (c.maxAttempts.map UInt32.toNat).toList ++ c.nodes.map fun e => e.id.number.toNat

theorem writable_wordValue {n : UInt64} : (wordValue n).Writable <-> n.toNat < 2 ^ 63 := by
  have hall : (wordValue n).Writable <-> Toml.isInteger n.toNat = true := by
    constructor
    · exact fun h => h _ rfl
    · rintro h _ ⟨⟩
      exact h
  rw [hall, Toml.isInteger_iff]
  omega

theorem writable_text (s : String) : (Value.text s).Writable := by
  rintro n ⟨⟩

theorem writable_settings :
    Toml.Table.Writable c.settings <->
      forall n, n ∈ [c.minBackoffMillis, c.maxBackoffMillis, c.requestTimeoutSecs, c.maxChunkSize,
        c.maxChunks, c.defaultMaxFee, c.validDurationSecs] -> n.toNat < 2 ^ 63 := by
  have hattempts : forall f, f ∈ optionalField "max_attempts"
      (fun n : UInt32 => Value.integer n.toNat) c.maxAttempts -> f.2.Writable := by
    apply forall_mem_optionalField
    rintro n _ ⟨⟩
    have hn := n.toNat_lt
    exact Toml.isInteger_iff.mpr (by omega)
  have hfloat : (Value.float c.attemptShare).Writable := by
    rintro n ⟨⟩
  have hflag : (Value.flag c.waitForUnhealthy).Writable := by
    rintro n ⟨⟩
  have hnil : forall f : String × Value, f ∈ [] -> f.2.Writable :=
    fun f hf => (List.not_mem_nil hf).elim
  unfold Toml.Table.Writable
  simp only [settings, List.forall_mem_append, List.forall_mem_cons, writable_wordValue,
    writable_text, hfloat, hflag, true_and]
  constructor
  · rintro ⟨⟨⟨hleast, hmost, htime, _⟩, _⟩, hsize, hcount, hfee, hspan, _⟩
    exact ⟨hleast, hmost, htime, hsize, hcount, hfee, hspan, fun n hn => (List.not_mem_nil hn).elim⟩
  · rintro ⟨hleast, hmost, htime, hsize, hcount, hfee, hspan, _⟩
    exact ⟨⟨⟨hleast, hmost, htime, hnil⟩, hattempts⟩, hsize, hcount, hfee, hspan, hnil⟩

theorem writable_entryTable {e : NodeEntry} :
    Toml.Table.Writable (entryTable e) <-> e.id.number.toNat < 2 ^ 63 := by
  have hhash : forall f, f ∈ optionalField "cert_hash"
      (fun h : Hash => Value.text (Hex.encode h.toBytes)) e.certificateHash -> f.2.Writable :=
    forall_mem_optionalField fun h => writable_text _
  unfold Toml.Table.Writable
  rw [entryTable, List.forall_mem_append]
  simp only [List.forall_mem_cons, writable_wordValue, writable_text, true_and]
  constructor
  · exact fun h => h.left.left
  · exact fun h => ⟨⟨h, fun f hf => (List.not_mem_nil hf).elim⟩, hhash⟩

theorem writable_fields : Toml.Table.Writable c.fields <-> Toml.Table.Writable c.settings := by
  have hnodes : forall f, f ∈ (if c.nodes = [] then [("nodes", Value.list [])] else []) ->
      f.2.Writable := by
    split_ifs
    · intro f hf
      rw [List.mem_singleton.mp hf]
      rintro n ⟨⟩
    · exact fun f hf => (List.not_mem_nil hf).elim
  unfold Toml.Table.Writable
  rw [fields, List.forall_mem_append]
  exact and_iff_left hnodes

theorem writable_nodeTables :
    (forall l, l ∈ c.nodeTables -> forall t, t ∈ l.2 -> Toml.Table.Writable t) <->
      forall e, e ∈ c.nodes -> e.id.number.toNat < 2 ^ 63 := by
  unfold nodeTables
  split_ifs with hnodes
  · rw [hnodes]
    simp
  · constructor
    · intro h e he
      exact writable_entryTable.mp (h _ List.mem_cons_self _ (List.mem_map_of_mem he))
    · intro h l hl t ht
      rw [List.mem_singleton.mp hl] at ht
      rcases List.mem_map.mp ht with ⟨e, he, rfl⟩
      exact writable_entryTable.mpr (h e he)

theorem writable_iff :
    Writable c.fields c.nodeTables <-> forall n, n ∈ c.integers -> n < 2 ^ 63 := by
  have hattempts : forall n, n ∈ (c.maxAttempts.map UInt32.toNat).toList -> n < 2 ^ 63 := by
    cases c.maxAttempts with
    | none => exact fun n hn => (List.not_mem_nil hn).elim
    | some n =>
        have hn := n.toNat_lt
        simp only [Option.map_some, Option.toList_some, List.mem_singleton, forall_eq]
        omega
  unfold Writable
  rw [writable_fields, writable_settings, writable_nodeTables, integers, List.forall_mem_append,
    List.forall_mem_append, List.forall_mem_map, List.forall_mem_map, and_iff_left hattempts]

/-!
## Saving and loading
-/

/-- A configuration as a text form keeps it: there is a text unless an integer is out of the range of
the format, and from the text the configuration is read back. -/
structure IsKeptBy (c : Config) (form : Toml.TextForm) : Prop where
  saved : c.saveAs form = none <-> exists n, n ∈ c.integers ∧ 2 ^ 63 ≤ n
  loaded : forall text, c.saveAs form = some text -> loadFrom form (Utf8.encode text) = .ok c

theorem isKeptBy_of_isLossless {form : Toml.TextForm} (hform : form.IsLossless)
    (h : c.attemptShare.IsNumber) : c.IsKeptBy form := by
  constructor
  case saved =>
    rw [saveAs, toTable_eq, hform.refuses _ _ (isDocument h), writable_iff]
    push Not
    rfl
  case loaded =>
    intro text htext
    rw [saveAs, toTable_eq] at htext
    have hparse := hform.reads _ _ text (isDocument h) htext
    rw [← toTable_eq] at hparse
    simp only [loadFrom, Utf8.decode_encode, hparse, ofTable_toTable]

/-- A configuration can be kept in a text form that loses nothing of a document if and only if none
of its integers is out of the range of the format, and then it is read back as it was: the texts, the
numbers, what is left out and the nodes in their order.  The form in which configurations are saved
is one of these. -/
theorem load_save (c : Config) (h : c.attemptShare.IsNumber) :
    (forall form : Toml.TextForm, form.IsLossless -> c.IsKeptBy form) ∧ Toml.textForm.IsLossless ∧
    (c.save = none <-> exists n, n ∈ c.integers ∧ 2 ^ 63 ≤ n) ∧
      forall text, c.save = some text -> load (Utf8.encode text) = .ok c := by
  have hkept : c.IsKeptBy Toml.textForm := isKeptBy_of_isLossless Toml.textForm_isLossless h
  exact ⟨fun form hform => isKeptBy_of_isLossless hform h, Toml.textForm_isLossless, hkept.saved,
    hkept.loaded⟩

/-- A network whose texts need several ways to quote them. -/
def remoteNetwork : Config :=
  { localNetwork with
    networkName := "C:\\ledger \"one\"\n'''"
    maxAttempts := some 3
    attemptShare := .ofRatio 1 3
    nodes := [⟨⟨3⟩, "\"quoted\"", some (Octets.fill 32 171)⟩, ⟨⟨0⟩, "", none⟩] }

/-- The same network with a fee that no document has room for. -/
def costlyNetwork : Config :=
  { remoteNetwork with defaultMaxFee := 9223372036854775808 }

theorem remoteNetwork_kept :
    remoteNetwork.IsKeptBy Toml.textForm ∧
    (exists text, remoteNetwork.save = some text ∧
      load (Utf8.encode text) = .ok remoteNetwork) ∧
    costlyNetwork.save = none := by
  have hnumber : remoteNetwork.attemptShare.IsNumber := by
    simp only [remoteNetwork]
    exact Binary64.isNumber_ofRatio 1 (by decide)
  have hcostly : costlyNetwork.attemptShare.IsNumber := by
    simp only [costlyNetwork]
    exact hnumber
  rcases load_save remoteNetwork hnumber with ⟨hforms, hlossless, hsaved, hloaded⟩
  refine ⟨hforms Toml.textForm hlossless, ?_, ?_⟩
  · have hsmall : forall n, n ∈ remoteNetwork.integers -> n < 2 ^ 63 := by decide
    cases hsave : remoteNetwork.save with
    | none =>
        rcases hsaved.mp hsave with ⟨n, hn, hlarge⟩
        exact (Nat.not_le_of_lt (hsmall n hn) hlarge).elim
    | some text => exact ⟨text, rfl, hloaded text hsave⟩
  · have hfee : 9223372036854775808 ∈ costlyNetwork.integers := by decide +kernel
    rcases load_save costlyNetwork hcostly with ⟨_, _, hrefused, _⟩
    exact hrefused.mpr ⟨_, hfee, by decide +kernel⟩

end Config
end LedgerClient
