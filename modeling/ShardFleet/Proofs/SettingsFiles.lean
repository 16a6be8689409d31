import ShardFleet.Proofs.Texts
import ShardFleet.Proofs.TomlDocuments
import ShardFleet.Settings.Document

/-!
# Settings in files

Settings that are written to a file are read back the same. A field that is unset is left out and is read as
unset, every table is written, so that no standard settings come in, and shards and nodes are arrays of
tables, or a plain value where there are none.
-/

namespace ShardFleet

open Toml

/-- The numbers in the settings of a node. -/
def NodeSettings.counts (n : NodeSettings) : List Nat :=
  [n.port, n.database] ++ n.maxTotal.toList ++ n.maxIdle.toList ++ n.maxWait.toList

namespace Settings

/-- The numbers in settings. -/
def counts (s : Settings) : List Nat :=
  [s.client.connectTimeout] ++ s.client.readTimeout.toList ++ s.client.keepalive.toList ++
    [s.sharding.virtualNodes, s.pool.maxTotal, s.pool.maxIdle, s.pool.maxWait] ++
    s.shards.flatMap fun shard => shard.nodes.flatMap (·.counts)

/-- Settings that a file can hold: their numbers fit sixty-four signed bits, and ports and databases are of
their kinds. -/
structure Storable (s : Settings) : Prop where
  counts : ∀ n ∈ s.counts, (n : Int) ≤ Int64.maxValue.toInt
  kinds : ∀ shard ∈ s.shards, ∀ n ∈ shard.nodes, n.port < UInt16.size ∧ n.database < UInt32.size

/-! ### Fields -/

theorem keys_unlessUnset {α : Type} (key : String) (write : α → Tree) (a : Option α) :
    ((unlessUnset key write a).map (·.1)).Sublist [key] := by
  cases a with
  | none => exact List.nil_sublist _
  | some a => exact List.Sublist.refl _

theorem plain_unlessUnset {α : Type} {key : String} {write : α → Tree} {a : Option α}
    (h : ∀ x ∈ a.toList, Plain (write x)) : ∀ f ∈ unlessUnset key write a, Plain f.2 := by
  cases a with
  | none => simp [unlessUnset]
  | some a => simpa [unlessUnset] using h

/-- The keys of the settings of a node, in the order in which they are written. -/
def nodeKeys : List String :=
  ["host", "port", "password", "database", "max_total", "max_idle", "max_wait_ms"]

theorem keys_nodeFields (n : NodeSettings) : ((nodeFields n).map (·.1)).Sublist nodeKeys := by
  have hkeys : nodeKeys = ["host", "port"] ++ ["password"] ++ ["database"] ++ ["max_total"] ++ ["max_idle"] ++
      ["max_wait_ms"] := rfl
  simp only [hkeys, nodeFields, List.map_append]
  refine .append (.append (.append (.append (.append (.refl _) ?_) (.refl _)) ?_) ?_) ?_ <;>
    exact keys_unlessUnset ..

theorem sheet_of_keys {n : Nat} {plain tabled : List (String × Tree)} (keys : List String)
    (hbare : ∀ k ∈ keys, Bare k) (hnodup : keys.Nodup)
    (hkeys : ((plain ++ tabled).map (·.1)).Sublist keys) (hplain : ∀ f ∈ plain, Plain f.2)
    (htabled : ∀ f ∈ tabled, Tabled n f.2) : Sheet (n + 1) (plain ++ tabled) :=
  .mk (fun _ hf => hbare _ (hkeys.subset (List.mem_map_of_mem hf))) (hkeys.nodup hnodup) hplain htabled

theorem sheet_of_plain {fs : List (String × Tree)} (keys : List String) (hbare : ∀ k ∈ keys, Bare k)
    (hnodup : keys.Nodup) (hkeys : (fs.map (·.1)).Sublist keys) (hplain : ∀ f ∈ fs, Plain f.2) (n : Nat) :
    Sheet (n + 1) fs := by
  rw [← List.append_nil fs] at hkeys ⊢
  exact sheet_of_keys keys hbare hnodup hkeys hplain (by simp)

theorem sheet_node {n : NodeSettings} (h : ∀ k ∈ n.counts, (k : Int) ≤ Int64.maxValue.toInt) (k : Nat) :
    Sheet (k + 1) (nodeFields n) := by
  refine sheet_of_plain nodeKeys (by decide +kernel) (by decide) (keys_nodeFields n) ?_ k
  simp only [NodeSettings.counts, List.forall_mem_append, List.forall_mem_cons] at h
  obtain ⟨⟨⟨⟨hport, hdatabase, -⟩, htotal⟩, hidle⟩, hwait⟩ := h
  simp only [nodeFields, List.forall_mem_append, List.forall_mem_cons, and_assoc]
  exact ⟨.text _, .count _ hport, by simp, plain_unlessUnset fun x _ => .text x, .count _ hdatabase,
    by simp, plain_unlessUnset fun x hx => .count x (htotal x hx),
    plain_unlessUnset fun x hx => .count x (hidle x hx),
    plain_unlessUnset fun x hx => .count x (hwait x hx)⟩

/-- A list of tables is an array of tables where it has items. -/
theorem tabled_list {α : Type} {write : α → List (String × Tree)} {n : Nat} {l : List α}
    (hne : l ≠ []) (h : ∀ a ∈ l, Sheet n (write a)) : Tabled n (.list (l.map (.table ∘ write))) := by
  obtain ⟨a, l, rfl⟩ := List.exists_cons_of_ne_nil hne
  obtain ⟨ha, hl⟩ := List.forall_mem_cons.1 h
  have := Tabled.tables (List.forall_mem_cons.2 ⟨ha, List.forall_mem_map.2 hl⟩)
  rwa [← List.map_cons, List.map_map] at this

theorem sheet_shard {s : ShardSettings}
    (h : ∀ n ∈ s.nodes, ∀ k ∈ n.counts, (k : Int) ≤ Int64.maxValue.toInt) (k : Nat) :
    Sheet (k + 2) (shardFields s) := by
  have hname : ∀ f ∈ unlessUnset "name" .text s.name, Plain f.2 := plain_unlessUnset fun x _ => .text x
  have hkeys : ((shardFields s).map (·.1)).Sublist ["name", "nodes"] := by
    rw [shardFields, List.map_append]
    exact (keys_unlessUnset "name" _ _).append (.refl ["nodes"])
  by_cases hne : s.nodes = []
  · refine sheet_of_plain _ (by decide +kernel) (by decide) hkeys ?_ (k + 1)
    rw [shardFields, hne]
    exact List.forall_mem_append.2 ⟨hname, List.forall_mem_singleton.2 .noItems⟩
  · refine sheet_of_keys _ (by decide +kernel) (by decide) hkeys hname (List.forall_mem_singleton.2 ?_)
    exact tabled_list hne fun n hn => sheet_node (h n hn) k

/-- The tables that are always written. -/
def tableFields (s : Settings) : List (String × Tree) := s.fields.take 4

theorem fields_eq (s : Settings) :
    s.fields = s.tableFields ++ [("shards", .list (s.shards.map (.table ∘ shardFields)))] := rfl

theorem tabled_tableFields {s : Settings} (h : s.Storable) : ∀ f ∈ s.tableFields, Tabled 2 f.2 := by
  have hcounts := h.counts
  simp only [Settings.counts, List.forall_mem_append, List.forall_mem_cons] at hcounts
  obtain ⟨⟨⟨⟨⟨hconnect, -⟩, hread⟩, hkeepalive⟩, hvirtual, htotal, hidle, hwait, -⟩, -⟩ := hcounts
  simp only [tableFields, fields, List.take_succ_cons, List.take_zero, List.forall_mem_cons]
  refine ⟨.table ?_, .table ?_, .table ?_, .table ?_, by simp⟩
  · have hkeys := (((List.Sublist.refl ["connect_timeout_ms"]).append
      (keys_unlessUnset "read_timeout_ms" count s.client.readTimeout)).append
      (keys_unlessUnset "keepalive_sec" count s.client.keepalive))
    refine sheet_of_plain ["connect_timeout_ms", "read_timeout_ms", "keepalive_sec"]
      (by decide +kernel) (by decide) ?_ ?_ 1
    · rw [List.map_append]
      exact hkeys
    · refine List.forall_mem_append.2 ⟨List.forall_mem_cons.2 ⟨.count _ hconnect, ?_⟩, ?_⟩
      · exact plain_unlessUnset fun x hx => .count x (hread x hx)
      · exact plain_unlessUnset fun x hx => .count x (hkeepalive x hx)
  · refine sheet_of_plain ["virtual_nodes", "hashing", "key_tags"] (by decide +kernel) (by decide)
      (.refl _) ?_ 1
    simp only [List.forall_mem_cons]
    exact ⟨.count _ hvirtual, .text _, .boolean _, by simp⟩
  · refine sheet_of_plain ["max_total", "max_idle", "max_wait_ms"] (by decide +kernel) (by decide)
      (.refl _) ?_ 1
    simp only [List.forall_mem_cons]
    exact ⟨.count _ htotal, .count _ hidle, .count _ hwait, by simp⟩
  · refine sheet_of_plain ["level", "format"] (by decide +kernel) (by decide) (.refl _) ?_ 1
    simp only [List.forall_mem_cons]
    exact ⟨.text _, .text _, by simp⟩

/-- The text of settings is read back as their fields, of which a list without shards comes first. -/
theorem read_save {s : Settings} (h : s.Storable) : ∃ text fs, s.save = .ok text ∧
    Toml.read text = some (.table fs) ∧ ∀ key, fs.find? (·.1 = key) = s.fields.find? (·.1 = key) := by
  have htables := tabled_tableFields h
  have hkeys : (s.fields.map (·.1)).Sublist ["client", "sharding", "pool", "logging", "shards"] := .refl _
  have hshards : ∀ shard ∈ s.shards, Sheet 2 (shardFields shard) := by
    intro shard hshard
    refine sheet_shard (fun n hn k hk => h.counts k ?_) 0
    refine List.mem_append_right _ (List.mem_flatMap.2 ⟨shard, hshard, List.mem_flatMap.2 ⟨n, hn, hk⟩⟩)
  by_cases hne : s.shards = []
  · have hplain : ∀ f ∈ [("shards", Tree.list [])], Plain f.2 := List.forall_mem_singleton.2 .noItems
    have hfields : s.fields = s.tableFields ++ [("shards", .list [])] := by
      rw [fields_eq, hne]
      rfl
    have hsheet : Sheet 3 ([("shards", .list [])] ++ s.tableFields) :=
      sheet_of_keys ["shards", "client", "sharding", "pool", "logging"] (by decide +kernel) (by decide)
        (.refl _) hplain htables
    obtain ⟨text, hwrite, hread⟩ := read_write hsheet (by decide)
    refine ⟨text, _, by rw [save, hfields, write_swap hplain htables, hwrite], hread, fun key => ?_⟩
    rw [hfields, List.find?_append, List.find?_append]
    by_cases hkey : "shards" = key
    · subst hkey
      rfl
    · simp [hkey]
  · have hsheet : Sheet 3 ([] ++ s.fields) := by
      refine sheet_of_keys _ (by decide +kernel) (by decide) hkeys (by simp) ?_
      rw [fields_eq]
      exact List.forall_mem_append.2 ⟨htables, List.forall_mem_singleton.2 (tabled_list hne hshards)⟩
    rw [List.nil_append] at hsheet
    obtain ⟨text, hwrite, hread⟩ := read_write hsheet (by decide)
    exact ⟨text, s.fields, by rw [save, hwrite], hread, fun key => rfl⟩

/-! ### Reading fields -/

/-- What stands under a key. -/
def lookup (fs : List (String × Tree)) (key : String) : Option Tree := (fs.find? (·.1 = key)).map (·.2)

theorem lookup_append (fs gs : List (String × Tree)) (key : String) :
    lookup (fs ++ gs) key = (lookup fs key).or (lookup gs key) := by
  simp [lookup, List.find?_append, Option.map_or]

theorem lookup_nil (key : String) : lookup [] key = none := rfl

theorem lookup_cons (k : String) (v : Tree) (fs : List (String × Tree)) (key : String) :
    lookup ((k, v) :: fs) key = if k = key then some v else lookup fs key := by
  by_cases h : k = key <;> simp [lookup, h]

theorem lookup_unlessUnset {α : Type} (k : String) (write : α → Tree) (a : Option α) (key : String) :
    lookup (unlessUnset k write a) key = if k = key then a.map write else none := by
  cases a <;> by_cases h : k = key <;> simp [lookup, unlessUnset, h]

section

variable {α : Type} {r : Tree → Option α} {w : α → Tree}

theorem required_some {a : α} {t : Tree} (h : r t = some a) : required r (some t) = some a := h

theorem defaulted_some {a b : α} {t : Tree} (h : r t = some a) : defaulted b r (some t) = some a := h

/-- A field that is left out when it is unset is read as unset, and else as what it was set to. -/
theorem optional_map {a : Option α} (hnull : ∀ x, w x ≠ .null) (h : ∀ x ∈ a.toList, r (w x) = some x) :
    optional r (a.map w) = some a := by
  cases a with
  | none => rfl
  | some x =>
    have hx := h x (List.mem_singleton.2 rfl)
    have hnull := hnull x
    rw [Option.map_some]
    generalize w x = t at hx hnull
    cases t <;> simp_all [Settings.optional]

end

theorem asNat?_count {n bound : Nat} (h : n < bound) : (count n).asNat? bound = some n := by
  simp [count, Tree.asNat?, h]

theorem toInt_maxValue : Int64.maxValue.toInt = 9223372036854775807 := by decide

/-- Numbers that fit sixty-four signed bits are counts. -/
theorem asNat?_of_fits {n : Nat} (h : (n : Int) ≤ Int64.maxValue.toInt) :
    (count n).asNat? countBound = some n := by
  rw [toInt_maxValue] at h
  have hbound : countBound = 2 ^ 64 := rfl
  exact asNat?_count (by omega)

theorem count_ne_null (n : Nat) : count n ≠ .null := nofun

/-- A count that may be unset. -/
theorem optional_count {a : Option Nat} (h : ∀ n ∈ a.toList, (n : Int) ≤ Int64.maxValue.toInt) :
    optional (·.asNat? countBound) (a.map count) = some a :=
  optional_map count_ne_null fun n hn => asNat?_of_fits (h n hn)

theorem optional_text (a : Option String) : optional Tree.asText? (a.map .text) = some a :=
  optional_map nofun fun _ _ => rfl

theorem readClient_table (fs : List (String × Tree)) :
    readClient .toml (.table fs) = (do
      let connectTimeout ← required (·.asNat? countBound) (lookup fs "connect_timeout_ms")
      let readTimeout ← optional (·.asNat? countBound) (lookup fs "read_timeout_ms")
      let keepalive ← optional (·.asNat? countBound) (lookup fs "keepalive_sec")
      some { connectTimeout, readTimeout, keepalive }) := rfl

theorem readClient_fields {c : ClientSettings} (hconnect : (c.connectTimeout : Int) ≤ Int64.maxValue.toInt)
    (hread : ∀ n ∈ c.readTimeout.toList, (n : Int) ≤ Int64.maxValue.toInt)
    (hkeepalive : ∀ n ∈ c.keepalive.toList, (n : Int) ≤ Int64.maxValue.toInt) :
    readClient .toml (.table (("connect_timeout_ms", count c.connectTimeout) ::
      unlessUnset "read_timeout_ms" count c.readTimeout ++
      unlessUnset "keepalive_sec" count c.keepalive)) = some c := by
  rw [readClient_table]
  simp only [lookup_append, lookup_cons, lookup_unlessUnset, String.reduceEq, if_true,
    if_false, Option.none_or, Option.or_none]
  rw [required_some (asNat?_of_fits hconnect), optional_count hread, optional_count hkeepalive]
  rfl

theorem readNode_table (fs : List (String × Tree)) :
    readNode .toml (.table fs) = (do
      let host ← required Tree.asText? (lookup fs "host")
      let port ← required (·.asNat? UInt16.size) (lookup fs "port")
      let password ← optional Tree.asText? (lookup fs "password")
      let database ← defaulted 0 (·.asNat? UInt32.size) (lookup fs "database")
      let maxTotal ← optional (·.asNat? countBound) (lookup fs "max_total")
      let maxIdle ← optional (·.asNat? countBound) (lookup fs "max_idle")
      let maxWait ← optional (·.asNat? countBound) (lookup fs "max_wait_ms")
      some { host, port, password, database, maxTotal, maxIdle, maxWait }) := rfl

theorem readNode_fields {n : NodeSettings} (hcounts : ∀ k ∈ n.counts, (k : Int) ≤ Int64.maxValue.toInt)
    (hport : n.port < UInt16.size) (hdatabase : n.database < UInt32.size) :
    readNode .toml (.table (nodeFields n)) = some n := by
  simp only [NodeSettings.counts, List.forall_mem_append] at hcounts
  obtain ⟨⟨⟨-, htotal⟩, hidle⟩, hwait⟩ := hcounts
  rw [readNode_table]
  simp only [nodeFields, lookup_append, lookup_cons, lookup_nil, lookup_unlessUnset,
    String.reduceEq, if_true, if_false, Option.none_or, Option.or_none]
  rw [required_some (asNat?_count hport), optional_text, defaulted_some (asNat?_count hdatabase),
    optional_count htotal, optional_count hidle, optional_count hwait]
  rfl

theorem mapM_map_eq_some {α β : Type} {w : α → β} {r : β → Option α} {l : List α}
    (h : ∀ a ∈ l, r (w a) = some a) : (l.map w).mapM r = some l := by
  induction l with
  | nil => rfl
  | cons a l ih =>
    obtain ⟨ha, hl⟩ := List.forall_mem_cons.1 h
    rw [List.map_cons, List.mapM_cons, ha, ih hl]
    rfl

/-- A list of tables that are read back is read back. -/
theorem required_list {α : Type} {w : α → List (String × Tree)} {r : Tree → Option α} {l : List α}
    (h : ∀ a ∈ l, r (.table (w a)) = some a) :
    required (fun t => t.asList?.bind (·.mapM r)) (some (.list (l.map (.table ∘ w)))) = some l :=
  mapM_map_eq_some h

theorem readShard_table (fs : List (String × Tree)) :
    readShard .toml (.table fs) = (do
      let name ← optional Tree.asText? (lookup fs "name")
      let nodes ← required (fun t => t.asList?.bind (·.mapM (readNode .toml))) (lookup fs "nodes")
      some { name, nodes }) := rfl

theorem readShard_fields {s : ShardSettings}
    (h : ∀ n ∈ s.nodes, readNode .toml (.table (nodeFields n)) = some n) :
    readShard .toml (.table (shardFields s)) = some s := by
  rw [readShard_table]
  simp only [shardFields, lookup_append, lookup_cons, lookup_nil, lookup_unlessUnset,
    String.reduceEq, if_true, if_false, Option.none_or, Option.or_none]
  rw [optional_text, required_list h]
  rfl

theorem readSharding_table (fs : List (String × Tree)) :
    readSharding .toml (.table fs) = (do
      let virtualNodes ← required (·.asNat? countBound) (lookup fs "virtual_nodes")
      let hashing ← required (fun t => (t.choice? .toml).bind Hashing.ofName?) (lookup fs "hashing")
      let keyTags ← required Tree.asBool? (lookup fs "key_tags")
      some { virtualNodes, hashing, keyTags }) := rfl

theorem readSharding_fields {c : ShardingSettings} (h : (c.virtualNodes : Int) ≤ Int64.maxValue.toInt) :
    readSharding .toml (.table [("virtual_nodes", count c.virtualNodes), ("hashing", .text c.hashing.name),
      ("key_tags", .boolean c.keyTags)]) = some c := by
  have hhashing : required (fun t => (t.choice? .toml).bind Hashing.ofName?)
      (some (.text c.hashing.name)) = some c.hashing := Hashing.ofName?_name c.hashing
  rw [readSharding_table]
  simp only [lookup_cons, String.reduceEq, if_true, if_false]
  rw [required_some (asNat?_of_fits h), hhashing]
  rfl

theorem readLimits_table (fs : List (String × Tree)) :
    readLimits .toml (.table fs) = (do
      let maxTotal ← required (·.asNat? countBound) (lookup fs "max_total")
      let maxIdle ← required (·.asNat? countBound) (lookup fs "max_idle")
      let maxWait ← required (·.asNat? countBound) (lookup fs "max_wait_ms")
      some { maxTotal, maxIdle, maxWait }) := rfl

theorem readLimits_fields {l : PoolLimits} (htotal : (l.maxTotal : Int) ≤ Int64.maxValue.toInt)
    (hidle : (l.maxIdle : Int) ≤ Int64.maxValue.toInt) (hwait : (l.maxWait : Int) ≤ Int64.maxValue.toInt) :
    readLimits .toml (.table [("max_total", count l.maxTotal), ("max_idle", count l.maxIdle),
      ("max_wait_ms", count l.maxWait)]) = some l := by
  rw [readLimits_table]
  simp only [lookup_cons, String.reduceEq, if_true, if_false]
  rw [required_some (asNat?_of_fits htotal), required_some (asNat?_of_fits hidle),
    required_some (asNat?_of_fits hwait)]
  rfl

theorem ofTree?_table (fs : List (String × Tree)) :
    ofTree? .toml (.table fs) = (do
      let client ← defaulted {} (readClient .toml) (lookup fs "client")
      let sharding ← defaulted {} (readSharding .toml) (lookup fs "sharding")
      let pool ← defaulted {} (readLimits .toml) (lookup fs "pool")
      let logging ← defaulted {} (readLogging .toml) (lookup fs "logging")
      let shards ← required (fun t => t.asList?.bind (·.mapM (readShard .toml))) (lookup fs "shards")
      some { client, sharding, pool, logging, shards }) := rfl

/-- The fields of settings are read as the settings. -/
theorem ofTree?_fields {s : Settings} (h : s.Storable) : ofTree? .toml (.table s.fields) = some s := by
  have hcounts := h.counts
  simp only [Settings.counts, List.forall_mem_append, List.forall_mem_cons] at hcounts
  obtain ⟨⟨⟨⟨⟨hconnect, -⟩, hread⟩, hkeepalive⟩, hvirtual, htotal, hidle, hwait, -⟩, hnodes⟩ := hcounts
  have hshards : ∀ shard ∈ s.shards, readShard .toml (.table (shardFields shard)) = some shard := by
    intro shard hshard
    refine readShard_fields fun n hn => ?_
    obtain ⟨hport, hdatabase⟩ := h.kinds shard hshard n hn
    refine readNode_fields (fun k hk => hnodes k ?_) hport hdatabase
    exact List.mem_flatMap.2 ⟨shard, hshard, List.mem_flatMap.2 ⟨n, hn, hk⟩⟩
  rw [ofTree?_table]
  simp only [fields, lookup_cons, String.reduceEq, if_true, if_false]
  rw [defaulted_some (readClient_fields hconnect hread hkeepalive),
    defaulted_some (readSharding_fields hvirtual),
    defaulted_some (readLimits_fields htotal hidle hwait), required_list hshards]
  rfl

/-- **Settings that are saved are loaded again.** The text that is written for settings says just these
settings, whatever their texts are and whichever of their fields are unset, and a file that holds the text
is loaded as the settings if they are valid, and else refused for what is wrong with them. -/
theorem saved_settings_load (s : Settings) (h : s.Storable) :
    ∃ text, s.save = .ok text ∧ (Toml.read text).bind (ofTree? .toml) = some s ∧
      load (utf8 text) = s.check.mapError .invalid := by
  obtain ⟨text, fs, hsave, hread, hfind⟩ := read_save h
  have hsame : lookup fs = lookup s.fields := by
    funext key
    rw [lookup, lookup, hfind]
  have htree : (Toml.read text).bind (ofTree? .toml) = some s := by
    rw [hread, Option.bind_some, ofTree?_table, hsame, ← ofTree?_table, ofTree?_fields h]
  have hdecode : Utf8.decode? (utf8 text) = some text := by
    rw [Utf8.decode?, Utf8.decode_utf8]
    rfl
  refine ⟨text, hsave, htree, ?_⟩
  simp only [load, hdecode, htree]

/-- Settings with unset fields, a shard without a name and one without nodes, and a password that holds
quotes of both kinds, a line break, a backslash and a control. -/
theorem saved_settings_load_of_unset :
    let s : Settings := {
      client := { connectTimeout := 1, readTimeout := none, keepalive := none }
      shards := [
        { nodes := [{ host := "é", port := 65535, maxIdle := some 0,
                      password := some "'''\"\"\"\n\\\r\x07\"" }] },
        { name := some "", nodes := [] }] }
    s.Storable ∧ s.check = .error (.emptyShard 1) ∧
      ∃ text, s.save = .ok text ∧ (Toml.read text).bind (ofTree? .toml) = some s ∧
        load (utf8 text) = .error (.invalid (.emptyShard 1)) := by
  intro s
  have hstorable : s.Storable := ⟨by decide, by decide⟩
  have hcheck : s.check = .error (.emptyShard 1) := by decide +kernel
  obtain ⟨text, hsave, htree, hload⟩ := saved_settings_load s hstorable
  exact ⟨hstorable, hcheck, text, hsave, htree, by rw [hload, hcheck]; rfl⟩

end Settings

end ShardFleet
