import ShardFleet.Proofs.Numerals
import ShardFleet.Settings.Basic

/-!
# Valid settings

What settings must be to be accepted, said of all their nodes at once rather than of one after the other.
The check knows nodes by their names, and a name can be read in one way only: so two nodes that are
taken for one have the same host, port and database, whatever stands in the text of the host.
-/

namespace ShardFleet

/-! ### The names of nodes -/

theorem notMem_utf8_natural {b : UInt8} (h : ¬ (0x30 ≤ b ∧ b ≤ 0x39)) (n : Nat) :
    b ∉ utf8 (toString n) :=
  fun hmem => h ((Resp.Numeral.digits_repr n).1.digit b hmem)

theorem utf8_nodeId (host : String) (port database : Nat) :
    utf8 (nodeId host port database) =
      utf8 host ++ 0x3A :: utf8 (toString port) ++ 0x2F :: utf8 (toString database) := by
  change utf8 (host ++ ":" ++ toString port ++ "/" ++ toString database) = _
  simp only [utf8_append, List.append_assoc]
  rfl

/-- A name has one host, one port and one database. -/
theorem nodeId_inj {host host' : String} {port port' database database' : Nat} :
    nodeId host port database = nodeId host' port' database' ↔
      (host, port, database) = (host', port', database') := by
  constructor
  · intro h
    have hbytes := congrArg utf8 h
    simp only [utf8_nodeId] at hbytes
    -- A host may have colons and slashes, but no number has: so the last ones of a name are its marks.
    obtain ⟨haddress, hdatabase⟩ := append_cons_inj_of_back
      (notMem_utf8_natural (by decide) database) (notMem_utf8_natural (by decide) database') hbytes
    obtain ⟨hhost, hport⟩ := append_cons_inj_of_back
      (notMem_utf8_natural (by decide) port) (notMem_utf8_natural (by decide) port') haddress
    rw [utf8_injective hhost, utf8_natural_injective hport, utf8_natural_injective hdatabase]
  · rintro ⟨⟩
    rfl

/-! ### Validity -/

/-- Whether a pool with these bounds can be used: it lends a connection, keeps no more of them than it
lends, and lets a borrower wait. -/
structure PoolLimits.Usable (l : PoolLimits) : Prop where
  lends : 1 ≤ l.maxTotal
  keeps : l.maxIdle ≤ l.maxTotal
  waits : 0 < l.maxWait

/-- Whether a node can be reached and used, where the bounds that it does not have are `defaults`. -/
structure NodeSettings.Usable (defaults : PoolLimits) (n : NodeSettings) : Prop where
  /-- There is something in the host besides white space. -/
  host : ∃ c ∈ n.host.toList, Text.isBlank c = false
  port : n.port ≠ 0
  bounds : (n.limits defaults).Usable

namespace Settings

/-- Whether settings can be used. -/
structure Valid (s : Settings) : Prop where
  connects : 0 < s.client.connectTimeout
  /-- Replies are given some time if there is a limit to it. -/
  reads : ∀ ms ∈ s.client.readTimeout, 0 < ms
  labels : 0 < s.sharding.virtualNodes
  defaults : s.pool.Usable
  shards : s.shards ≠ []
  inhabited : ∀ shard ∈ s.shards, shard.nodes ≠ []
  nodes : ∀ n ∈ s.shards.flatMap (·.nodes), n.Usable s.pool
  /-- No two nodes, of one shard or of two, have the same host, port and database. -/
  distinct : ((s.shards.flatMap (·.nodes)).map fun n => (n.host, n.port, n.database)).Nodup
  level : s.logging.level ∈ ["error", "warn", "info", "debug", "trace"]
  format : s.logging.format ∈ ["json", "text"]

theorem violation_eq_nil_iff {condition : Bool} {v : Violation} :
    violation condition v = [] ↔ condition = false := by
  cases condition <;> simp [violation]

theorem limitViolations_eq_nil_iff {l : PoolLimits} : limitViolations l = [] ↔ l.Usable := by
  simp only [limitViolations, List.append_eq_nil_iff, violation_eq_nil_iff,
    decide_eq_false_iff_not]
  constructor
  · rintro ⟨⟨htotal, hidle⟩, hwait⟩
    exact ⟨by omega, by omega, by omega⟩
  · rintro ⟨hlends, hkeeps, hwaits⟩
    exact ⟨⟨by omega, by omega⟩, by omega⟩

theorem nodeViolations_eq_nil_iff {defaults : PoolLimits} {shard : Nat} {seen : List String}
    {n : NodeSettings} : nodeViolations defaults shard seen n = [] ↔ n.Usable defaults ∧ n.id ∉ seen := by
  simp only [nodeViolations, List.append_eq_nil_iff, violation_eq_nil_iff, Text.allBlank,
    List.all_eq_false, Bool.not_eq_true, decide_eq_false_iff_not, List.contains_eq_mem,
    limitViolations_eq_nil_iff]
  constructor
  · rintro ⟨⟨⟨hhost, hport⟩, hnew⟩, hbounds⟩
    exact ⟨⟨hhost, hport, hbounds⟩, hnew⟩
  · rintro ⟨⟨hhost, hport, hbounds⟩, hnew⟩
    exact ⟨⟨⟨hhost, hport⟩, hnew⟩, hbounds⟩

/-- The nodes of a shard are accepted if each can be used, and if no name is met twice or was before. -/
theorem nodesViolations_eq_nil_iff {defaults : PoolLimits} {shard : Nat} {seen : List String}
    {ns : List NodeSettings} : nodesViolations defaults shard seen ns = [] ↔
      (∀ n ∈ ns, n.Usable defaults) ∧ (ns.map (·.id)).Nodup ∧ ∀ id ∈ ns.map (·.id), id ∉ seen := by
  induction ns generalizing seen with
  | nil => simp [nodesViolations]
  | cons n ns ih =>
    simp only [nodesViolations, List.append_eq_nil_iff, nodeViolations_eq_nil_iff, ih,
      List.forall_mem_cons, List.map_cons, List.nodup_cons]
    constructor
    · rintro ⟨⟨hn, hnew⟩, hns, hnodup, hothers⟩
      exact ⟨⟨hn, hns⟩, ⟨fun h => hothers _ h List.mem_cons_self, hnodup⟩, hnew,
        fun id h hseen => hothers id h (List.mem_cons_of_mem _ hseen)⟩
    · rintro ⟨⟨hn, hns⟩, ⟨hfirst, hnodup⟩, hnew, hothers⟩
      refine ⟨⟨hn, hnew⟩, hns, hnodup, fun id h hseen => ?_⟩
      rcases List.mem_cons.1 hseen with rfl | hseen
      · exact hfirst h
      · exact hothers id h hseen

/-- Shards are accepted if none is empty, each node can be used, and no name is met twice, in one of
them or in several, or was before. -/
theorem shardsViolations_eq_nil_iff {defaults : PoolLimits} {shard : Nat} {seen : List String}
    {ss : List ShardSettings} : shardsViolations defaults shard seen ss = [] ↔
      (∀ s ∈ ss, s.nodes ≠ []) ∧ (∀ n ∈ ss.flatMap (·.nodes), n.Usable defaults) ∧
        ((ss.flatMap (·.nodes)).map (·.id)).Nodup ∧
        ∀ id ∈ (ss.flatMap (·.nodes)).map (·.id), id ∉ seen := by
  induction ss generalizing shard seen with
  | nil => simp [shardsViolations]
  | cons s ss ih =>
    simp only [shardsViolations, List.append_eq_nil_iff, violation_eq_nil_iff,
      List.isEmpty_eq_false_iff, nodesViolations_eq_nil_iff, ih, List.forall_mem_cons,
      List.flatMap_cons, List.map_append, List.nodup_append, List.forall_mem_append]
    constructor
    · rintro ⟨⟨hsome, hs, hnodup, hnew⟩, hsomes, hss, hnodups, hnews⟩
      refine ⟨⟨hsome, hsomes⟩, ⟨hs, hss⟩, ⟨hnodup, hnodups, ?_⟩, hnew,
        fun id h hseen => hnews id h (List.mem_append_right _ hseen)⟩
      rintro a ha b hb rfl
      exact hnews a hb (List.mem_append_left _ ha)
    · rintro ⟨⟨hsome, hsomes⟩, ⟨hs, hss⟩, ⟨hnodup, hnodups, hapart⟩, hnew, hnews⟩
      refine ⟨⟨hsome, hs, hnodup, hnew⟩, hsomes, hss, hnodups, fun id h hseen => ?_⟩
      rcases List.mem_append.1 hseen with hmem | hseen
      · exact hapart id hmem id h rfl
      · exact hnews id h hseen

theorem nodup_ids_iff {ns : List NodeSettings} : (ns.map (·.id)).Nodup ↔
    (ns.map fun n => (n.host, n.port, n.database)).Nodup := by
  simp only [List.Nodup, List.pairwise_map, NodeSettings.id, ne_eq, nodeId_inj]

theorem violations_eq_nil_iff {s : Settings} : s.violations = [] ↔ s.Valid := by
  simp only [violations, List.append_eq_nil_iff, violation_eq_nil_iff, decide_eq_false_iff_not,
    limitViolations_eq_nil_iff, shardsViolations_eq_nil_iff, nodup_ids_iff, Bool.not_eq_false',
    List.contains_eq_mem, decide_eq_true_eq, List.isEmpty_eq_false_iff]
  constructor
  · rintro ⟨⟨⟨⟨⟨⟨⟨hconnects, hreads⟩, hlabels⟩, hdefaults⟩, hshards⟩, hinhabited, hnodes, hdistinct, -⟩,
      hlevel⟩, hformat⟩
    refine ⟨Nat.pos_of_ne_zero hconnects, fun ms hms => Nat.pos_of_ne_zero fun h => ?_,
      Nat.pos_of_ne_zero hlabels, hdefaults, hshards, hinhabited, hnodes, hdistinct, hlevel, hformat⟩
    exact hreads (h ▸ hms)
  · intro h
    refine ⟨⟨⟨⟨⟨⟨⟨h.connects.ne', fun hreads => ?_⟩, h.labels.ne'⟩, h.defaults⟩, h.shards⟩,
      h.inhabited, h.nodes, h.distinct, by simp⟩, h.level⟩, h.format⟩
    exact absurd (h.reads 0 hreads) (Nat.lt_irrefl 0)

theorem check_eq_ok {s t : Settings} (h : s.check = .ok t) : s = t ∧ s.Valid :=
  ⟨(check_eq_ok_iff.1 h).2, violations_eq_nil_iff.1 (check_eq_ok_iff.1 h).1⟩

/-- **Settings are accepted exactly if they are valid**: each number is in its bounds, there are shards,
each of them has nodes, each node can be reached and used, and no two nodes are the same database of one
server. -/
theorem accepted_iff_valid (s : Settings) : (∃ t, s.check = .ok t) ↔ s.Valid := by
  constructor
  · rintro ⟨t, ht⟩
    exact (check_eq_ok ht).2
  · intro h
    exact ⟨s, check_eq_ok_iff.2 ⟨violations_eq_nil_iff.2 h, rfl⟩⟩

end Settings

end ShardFleet
