import ShardFleet.Proofs.BorrowFailures
import ShardFleet.Proofs.Construction
import ShardFleet.Proofs.Deadlines

/-!
# Reports of health

The checks of a report run at the same time, each on the pool of its own node, and a check that has not
ended at its limit is given up, whether it waits for capacity or for its reply. So a report says of every
node what `PING` brings when it is run there by itself and given up at the limit. Capacity comes back on
every way out of a check, and nothing else of a client changes than what its pools keep and count.
-/

namespace ShardFleet

variable {σ : Type} {N : Network σ}

/-! ### Capacity -/

theorem Pool.settle_active (fault : Option Fault) (c : Connection) (p : Pool) (w : Wire σ) :
    (p.settle N fault c w).1.active = (p.forget c).active := by
  unfold Pool.settle Pool.evict Pool.release
  split
  · rfl
  · dsimp only
    split <;> rfl

theorem Pool.lend_active {p p' : Pool} {r : Outcome Connection} {w w' : Wire σ}
    (h : p.lend N w = (r, p', w')) :
    (∃ c, r = .ok c ∧ c.lent = true ∧ p'.active = p.active + 1) ∨ (∃ f, r = .failed f ∧ p' = p) ∨
      r = .stalled ∧ p'.active = p.active + 1 := by
  obtain ⟨_, _, -, rfl, rfl, -⟩ | ⟨-, ⟨_, rfl, -, rfl⟩ | ⟨_, rfl, -, rfl⟩ | ⟨rfl, -, rfl⟩⟩ :=
    Pool.lend_ways h
  · exact .inl ⟨_, rfl, rfl, rfl⟩
  · exact .inl ⟨_, rfl, rfl, rfl⟩
  · exact .inr (.inl ⟨_, rfl, rfl⟩)
  · exact .inr (.inr ⟨rfl, rfl⟩)

/-- Only an attempt that is given up leaves capacity taken. -/
theorem Pool.attempt_active {command : Command} {p p' : Pool} {r : Outcome Resp.Value} {w w' : Wire σ}
    (h : p.attempt N command w = (r, p', w')) :
    p'.active = p.active + if r = .stalled then 1 else 0 := by
  unfold Pool.attempt at h
  rcases hl : p.lend N w with ⟨c | f | _, p₁, w₁⟩ <;> have hp := Pool.lend_active hl <;>
    simp only [hl] at h
  · obtain ⟨hlent, hactive⟩ : c.lent = true ∧ p₁.active = p.active + 1 := by simpa using hp
    have hback (fault : Option Fault) (w : Wire σ) :
        (p₁.settle N fault c.counted w).1.active = p.active := by
      rw [Pool.settle_active, Pool.forget, if_pos (show c.counted.lent = true from hlent)]
      simp [Pool.unclaim, hactive]
    rcases hr : c.request N command w₁ with ⟨v | f | _, w₂⟩ <;> simp only [hr] at h <;> cases h
    · simp [hback]
    · simp [hback]
    · simp [hactive]
  · obtain rfl : p₁ = p := by simpa using hp
    cases h
    simp
  · have hactive : p₁.active = p.active + 1 := by simpa using hp
    cases h
    simp [hactive]

/-- How many connections the pool of a name has lent, if there is one. -/
def Executor.active? (e : Executor) (id : String) : Option Nat := (e.pools.find? id).map (·.active)

theorem Executor.active?_setPool {e : Executor} {id : String} {p q : Pool} {f : Nat → Nat}
    (hp : e.pools.find? id = some p) (hq : q.active = f p.active) (other : String) :
    (e.setPool id q).active? other = (e.active? other).map fun a => if id = other then f a else a := by
  unfold active?
  rw [find?_setPool]
  split
  · rename_i h
    simp [h, hp, hq]
  · rename_i h
    simp [Ne.symm h, Function.comp_def]

namespace Health

variable {limit : Nat} {node : Node} {probe : Probe} {entry : NodeHealth} {e e' : Executor}
  {w w' : Wire σ}

/-- How much capacity of the pool of a name the check of a node holds: that of one connection while its
reply has not come. -/
def Probe.holds (id : String) (node : Node) : Probe → Nat
  | unanswered => if node.id = id then 1 else 0
  | _ => 0

/-- How much capacity of the pool of a name checks hold together. -/
def held (id : String) (checks : List (Node × Probe)) : Nat :=
  (checks.map fun (node, probe) => probe.holds id node).sum

theorem Starts.active (h : Starts N limit node e w probe e' w') (id : String) :
    e'.active? id = (e.active? id).map (· + probe.holds id node) := by
  cases h with
  | unpooled | waits | hurried => simp [Probe.holds]
  | @attempted p q r _ hp _ ha =>
    rw [Executor.active?_setPool (f := (· + if r = .stalled then 1 else 0)) hp (Pool.attempt_active ha)]
    cases r <;> simp [Probe.ofOutcome, Probe.holds, apply_ite]

theorem StartsAll.active {moment : Nat} {nodes : List Node} {probes : List Probe}
    (h : StartsAll N limit moment nodes e w probes e' w') (id : String) :
    e'.active? id = (e.active? id).map (· + held id (nodes.zip probes)) := by
  induction h with
  | nil => simp [held]
  | cons first _ ih =>
    rw [ih, first.active, Option.map_map]
    simp [held, Function.comp_def, Nat.add_assoc]

/-- Capacity comes back from a check that is given up while its reply has not come. -/
theorem unclaim_active {p : Pool} (hp : e.pool? node = some p) (id : String) :
    (e.setPool node.id p.unclaim).active? id =
      (e.active? id).map (· - Probe.unanswered.holds id node) := by
  rw [Executor.active?_setPool (f := (· - 1)) hp rfl]
  simp [Probe.holds, apply_ite]

/-- There is no capacity to come back where there is no pool. -/
theorem unpooled_active (hp : e.pool? node = none) (probe : Probe) (id : String) :
    e.active? id = (e.active? id).map (· - probe.holds id node) := by
  have hnone : e.active? node.id = none := Option.map_eq_none_iff.2 hp
  by_cases hid : node.id = id
  · simp [← hid, hnone]
  · cases probe <;> simp [Probe.holds, hid]

theorem Finishes.active (h : Finishes N limit node e w probe entry e' w') (id : String) :
    e'.active? id = (e.active? id).map (· - probe.holds id node) := by
  cases h with
  | done | starved | inVain => simp [Probe.holds]
  | unpooled hp => exact unpooled_active hp _ id
  | givenUp hp => exact unclaim_active hp id
  | @attempted p q r _ hp _ ha =>
    have hq : (if r = .stalled then q.unclaim else q).active = p.active := by
      split <;> simp [Pool.unclaim, Pool.attempt_active ha, *]
    rw [Executor.active?_setPool (f := fun a => a) hp hq]
    simp [Probe.holds]

theorem FinishesAll.active {checks : List (Node × Probe)} {report : List NodeHealth}
    (h : FinishesAll N limit checks e w report e' w') (id : String) :
    e'.active? id = (e.active? id).map (· - held id checks) := by
  induction h with
  | nil => simp [held]
  | cons first _ ih =>
    rw [ih, first.active, Option.map_map]
    simp [held, Function.comp_def, Nat.sub_sub]

theorem abandonAll_active (checks : List (Node × Probe)) (e : Executor) (id : String) :
    (abandonAll checks e).active? id = (e.active? id).map (· - held id checks) := by
  induction checks generalizing e with
  | nil => simp [abandonAll, held]
  | cons check checks ih =>
    obtain ⟨node, probe⟩ := check
    have hfirst : (abandonAll [(node, probe)] e).active? id =
        (e.active? id).map (· - probe.holds id node) := by
      cases probe with
      | done | waiting => simp [abandonAll, Probe.holds]
      | unanswered =>
        cases hp : e.pool? node with
        | none => simpa [abandonAll, hp] using unpooled_active hp .unanswered id
        | some p => simpa [abandonAll, hp] using unclaim_active hp id
    have hrest : abandonAll ((node, probe) :: checks) e =
        abandonAll checks (abandonAll [(node, probe)] e) := rfl
    rw [hrest, ih, hfirst, Option.map_map]
    simp [held, Function.comp_def, Nat.sub_sub]

/-- Checks leave every pool with the capacity that it had, in whichever way they end. -/
theorem Checks.active {nodes : List Node} {r : Outcome (List NodeHealth)}
    (h : Checks N limit nodes e w r e') (id : String) : e'.active? id = e.active? id := by
  cases h with
  | abandoned _ starts =>
    rw [abandonAll_active, starts.active, Option.map_map]
    simp [Function.comp_def]
  | made starts finishes =>
    rw [finishes.active, starts.active, Option.map_map]
    simp [Function.comp_def]

/-! ### What checks find -/

theorem verdict_eq_healthy_iff {r : Outcome Resp.Value} :
    verdict r = healthy ↔ r = .ok (.simple "PONG") := by
  cases r with
  | failed | stalled => simp [verdict]
  | ok v => cases v <;> simp [verdict, ofReply]

/-- How `PING` ends on each of some nodes if it is run there on the executor `e`, on all of them from the
same moment, and is given up after `limit` milliseconds. What it meets on the network is what the runs
before it have left there. -/
def pings (N : Network σ) (limit : Nat) (e : Executor) : List Node → Wire σ → List (Outcome Resp.Value)
  | [], _ => []
  | n :: ns, w =>
    let (r, _, w') := e.runPooled N n ping (w.limited limit)
    r :: pings N limit e ns { w' with clock := w.clock }

/-- What a check finds that is ended at its limit, where `p` is the pool of its node and has had no
capacity for it if it waits. -/
def Probe.finds (limit : Nat) (p : Pool) : Probe → Health
  | done h _ => h
  | waiting => if p.node.limits.maxWait ≤ limit then unhealthy p.exhaustion.message else timeout
  | unanswered => timeout

/-- Whether a check that was started is going to find `h`. -/
def Foretells (limit : Nat) (e : Executor) (check : Node × Probe) (h : Health) : Prop :=
  ∃ p, e.pool? check.1 = some p ∧ (check.2 = .waiting → p.isExhausted = true) ∧
    check.2.finds limit p = h

theorem Foretells.congr {check : Node × Probe} {h : Health} (hf : Foretells limit e check h)
    (hp : e'.pool? check.1 = e.pool? check.1) : Foretells limit e' check h := by
  unfold Foretells
  rw [hp]
  exact hf

theorem Starts.elsewhere (h : Starts N limit node e w probe e' w') {id : String} (hid : id ≠ node.id) :
    e'.pools.find? id = e.pools.find? id := by
  cases h with
  | unpooled | waits | hurried => rfl
  | attempted => rw [Executor.find?_setPool, if_neg hid]

theorem Finishes.elsewhere (h : Finishes N limit node e w probe entry e' w') {id : String}
    (hid : id ≠ node.id) : e'.pools.find? id = e.pools.find? id := by
  cases h with
  | done | unpooled | starved | inVain => rfl
  | givenUp | attempted => rw [Executor.find?_setPool, if_neg hid]

/-- A check that is started finds what `PING` brings that is run instead of it, and does the same on the
network as far as it gets. -/
theorem Starts.foretells (h : Starts N limit node e w probe e' w') (hlimit : 0 < limit)
    (hw : w.deadline = some (w.clock + limit)) {p q : Pool} {r : Outcome Resp.Value} {w'' : Wire σ}
    (hp : e.pool? node = some p) (hr : p.run N ping w = (r, q, w'')) :
    Foretells limit e' (node, probe) (verdict r) ∧
      ∀ clock, { w' with clock := clock } = { w'' with clock := clock } := by
  unfold Pool.run at hr
  cases h with
  | unpooled hnone => cases hp.symm.trans hnone
  | hurried hzero => exact absurd hzero hlimit.ne'
  | waits hpool hfull =>
    cases hp.symm.trans hpool
    simp only [hfull, if_true, Pool.starve, Wire.wait, hw, Nat.add_lt_add_iff_left] at hr
    by_cases hlong : limit < p.node.limits.maxWait
    · simp only [if_pos hlong] at hr
      cases hr
      exact ⟨⟨p, hp, fun _ => hfull, if_neg (Nat.not_le.2 hlong)⟩, fun clock => by simp [hw]⟩
    · simp only [if_neg hlong] at hr
      cases hr
      exact ⟨⟨p, hp, fun _ => hfull, if_pos (Nat.not_lt.1 hlong)⟩, fun clock => by simp [hw]⟩
  | @attempted _ _ r₁ _ hpool hfree ha =>
    cases hp.symm.trans hpool
    simp only [hfree, Bool.false_eq_true, if_false, ha] at hr
    cases r₁ with
    | ok | failed | stalled =>
      cases hr
      exact ⟨⟨_, Executor.find?_setPool_self .., by simp [Probe.ofOutcome], rfl⟩, fun _ => rfl⟩

/-- Checks that are started together find what `PING` brings that is run instead of each, as no two of
them use the same pool. -/
theorem StartsAll.foretells {moment : Nat} {nodes : List Node} {probes : List Probe}
    (h : StartsAll N limit moment nodes e w probes e' w') (hlimit : 0 < limit) (e₀ : Executor)
    (w₀ : Wire σ) (hids : (nodes.map (·.id)).Nodup)
    (hpools : ∀ n ∈ nodes, ∃ p, e₀.pool? n = some p ∧ e.pool? n = some p) (hclock : w₀.clock = moment)
    (hw : { w with clock := moment } = w₀.limited limit) :
    List.Forall₂ (Foretells limit e') (nodes.zip probes) ((pings N limit e₀ nodes w₀).map verdict) ∧
      ∀ id ∉ nodes.map (·.id), e'.pools.find? id = e.pools.find? id := by
  induction h generalizing w₀ with
  | nil => exact ⟨.nil, fun _ _ => rfl⟩
  | @cons n ns probe probes e e₁ e₂ w w₁ w₂ first _ ih =>
    obtain ⟨hn, hids⟩ := List.nodup_cons.1 hids
    obtain ⟨⟨p, hp, hp₁⟩, hpools⟩ := List.forall_mem_cons.1 hpools
    rcases hrun : p.run N ping (w₀.limited limit) with ⟨r, q, w'⟩
    -- Both courses of events come to the same network before each node, so the check of the first
    -- foretells its run, and the induction goes on from wires that differ in their clocks alone.
    have hlimited : (w₀.limited limit).deadline = some ((w₀.limited limit).clock + limit) := rfl
    rw [hw] at first
    obtain ⟨hfirst, hsame⟩ := first.foretells hlimit hlimited hp₁ hrun
    have hdeadline : w'.deadline = some (w₀.clock + limit) :=
      (Wire.InTime.run (N := N) ⟨hlimited, fun _ => Nat.le_add_right ..⟩ hrun).deadline
    have hpools₁ : ∀ m ∈ ns, ∃ p, e₀.pool? m = some p ∧ e₁.pool? m = some p := by
      intro m hm
      obtain ⟨p, hp, hp₁⟩ := hpools m hm
      have hid : m.id ≠ n.id := fun hid => hn (List.mem_map.2 ⟨m, hm, hid⟩)
      exact ⟨p, hp, (first.elsewhere hid).trans hp₁⟩
    have hw₁ : { w₁ with clock := moment } = { w' with clock := moment }.limited limit := by
      rw [hsame moment, Wire.limited, ← hclock, ← hdeadline]
    obtain ⟨htail, hkept⟩ := ih { w' with clock := moment } hids hpools₁ rfl hw₁
    have hping : pings N limit e₀ (n :: ns) w₀ =
        r :: pings N limit e₀ ns { w' with clock := moment } := by
      simp only [pings, Executor.runPooled, hp, hrun, hclock]
    rw [hping]
    refine ⟨.cons (hfirst.congr (hkept n.id hn)) htail, fun id hid => ?_⟩
    obtain ⟨hid, hids'⟩ := not_or.1 (mt List.mem_cons.2 hid)
    rw [hkept id hids', first.elsewhere hid]

theorem Finishes.node_eq (h : Finishes N limit node e w probe entry e' w') : entry.node = node := by
  cases h <;> rfl

theorem FinishesAll.nodes_eq {checks : List (Node × Probe)} {report : List NodeHealth}
    (h : FinishesAll N limit checks e w report e' w') : report.map (·.node) = checks.map (·.1) := by
  induction h with
  | nil => rfl
  | cons first _ ih => rw [List.map_cons, List.map_cons, first.node_eq, ih]

/-- A check that ends has found what was to be expected of it. -/
theorem Finishes.finds (h : Finishes N limit node e w probe entry e' w') {found : Health}
    (hf : Foretells limit e (node, probe) found) : entry.health = found := by
  obtain ⟨p, hp, hfull, rfl⟩ := hf
  dsimp only at hp hfull
  cases h with
  | done => rfl
  | unpooled hnone => cases hp.symm.trans hnone
  | givenUp => rfl
  | starved hpool hshort =>
    cases hp.symm.trans hpool
    exact (if_pos hshort.le).symm
  | inVain hpool hlong =>
    cases hp.symm.trans hpool
    simp only [Probe.finds, Nat.le_antisymm_iff, hlong, and_true]
  | attempted hpool hfree =>
    -- No other check has given capacity back to this pool.
    cases hp.symm.trans hpool
    cases hfree.symm.trans (hfull rfl)

theorem FinishesAll.finds {checks : List (Node × Probe)} {report : List NodeHealth}
    (h : FinishesAll N limit checks e w report e' w') {found : List Health}
    (hids : (checks.map (·.1.id)).Nodup) (hf : List.Forall₂ (Foretells limit e) checks found) :
    report.map (·.health) = found := by
  induction h generalizing found with
  | nil =>
    cases hf
    rfl
  | @cons node probe checks entry entries e e₁ e₂ w w₁ w₂ first _ ih =>
    obtain ⟨hcheck, hids⟩ := List.nodup_cons.1 hids
    cases hf with
    | cons hfirst hrest =>
    have hothers : ∀ c ∈ checks, e₁.pool? c.1 = e.pool? c.1 := fun c hc =>
      first.elsewhere fun hid => hcheck (List.mem_map.2 ⟨c, hc, hid⟩)
    have hrest₁ : List.Forall₂ (Foretells limit e₁) checks _ :=
      ((List.forall₂_and_left _ _).2 ⟨hothers, hrest⟩).imp fun _ _ h => h.2.congr h.1
    rw [List.map_cons, first.finds hfirst, ih hids hrest₁]

theorem StartsAll.length_eq {moment : Nat} {nodes : List Node} {probes : List Probe}
    (h : StartsAll N limit moment nodes e w probes e' w') : probes.length = nodes.length := by
  induction h with
  | nil => rfl
  | cons _ _ ih => rw [List.length_cons, List.length_cons, ih]

/-- A report says something of all nodes, in their order. -/
theorem Checks.nodes_eq {nodes : List Node} {report : List NodeHealth}
    (h : Checks N limit nodes e w (.ok report) e') : report.map (·.node) = nodes := by
  cases h with
  | made starts finishes => rw [finishes.nodes_eq, List.map_fst_zip starts.length_eq.ge]

/-! ### How long checks take -/

/-- Whether a check that has ended did not take longer than its limit. -/
def Probe.Prompt (limit : Nat) : Probe → Prop
  | done _ took => took ≤ limit
  | _ => True

theorem Starts.prompt (h : Starts N limit node e w probe e' w') (hN : N.Punctual)
    (hw : w.deadline = some (w.clock + limit)) :
    probe.Prompt limit ∧ w'.deadline = some (w.clock + limit) := by
  cases h with
  | unpooled | hurried => exact ⟨Nat.zero_le limit, hw⟩
  | waits => exact ⟨trivial, hw⟩
  | @attempted _ _ r _ _ _ ha =>
    have htime := Wire.InTime.attempt (N := N) ⟨hw, fun _ => Nat.le_add_right ..⟩ ha
    refine ⟨?_, htime.deadline⟩
    cases r with
    | ok | failed => exact Nat.sub_le_iff_le_add'.2 (htime.clock hN)
    | stalled => trivial

theorem StartsAll.prompt {moment : Nat} {nodes : List Node} {probes : List Probe}
    (h : StartsAll N limit moment nodes e w probes e' w') (hN : N.Punctual)
    (hw : w.deadline = some (moment + limit)) : ∀ probe ∈ probes, probe.Prompt limit := by
  induction h with
  | nil => exact fun _ h => nomatch h
  | cons first _ ih =>
    obtain ⟨hfirst, hdeadline⟩ := first.prompt hN hw
    exact List.forall_mem_cons.2 ⟨hfirst, ih hdeadline⟩

theorem Finishes.took_le (h : Finishes N limit node e w probe entry e' w') (hprobe : probe.Prompt limit) :
    entry.took ≤ limit := by
  cases h with
  | done => exact hprobe
  | starved _ hshort => exact hshort.le
  | unpooled | givenUp | inVain | attempted => exact Nat.le_refl limit

theorem FinishesAll.took_le {checks : List (Node × Probe)} {report : List NodeHealth}
    (h : FinishesAll N limit checks e w report e' w')
    (hchecks : ∀ check ∈ checks, check.2.Prompt limit) : ∀ entry ∈ report, entry.took ≤ limit := by
  induction h with
  | nil => exact fun _ h => nomatch h
  | cons first _ ih =>
    obtain ⟨hfirst, hrest⟩ := List.forall_mem_cons.1 hchecks
    exact List.forall_mem_cons.2 ⟨first.took_le hfirst, ih hrest⟩

/-! ### Reports -/

/-- What an entry of a report tells where `PING` ends in some way. -/
structure Tells (entry : NodeHealth) (r : Outcome Resp.Value) : Prop where
  health : entry.health = verdict r
  healthy : entry.health = .healthy ↔ r = .ok (.simple "PONG")

theorem forall₂_tells_iff {report : List NodeHealth} {rs : List (Outcome Resp.Value)} :
    List.Forall₂ Tells report rs ↔ report.map (·.health) = rs.map verdict := by
  rw [← List.forall₂_eq_eq_eq, List.forall₂_map_left_iff, List.forall₂_map_right_iff]
  exact ⟨fun h => h.imp fun _ _ => Tells.health,
    fun h => h.imp fun _ _ h => ⟨h, h ▸ verdict_eq_healthy_iff⟩⟩

/-- Checks that nobody gives up before their limit make a report, on what `PING` brings everywhere. -/
theorem Checks.tells {nodes : List Node} {r : Outcome (List NodeHealth)}
    (h : Checks N limit nodes e w r e') (hlimit : 0 < limit) (hids : (nodes.map (·.id)).Nodup)
    (hpools : ∀ n ∈ nodes, ∃ p, e.pool? n = some p) (hw : w.Lasts limit) :
    ∃ report, r = .ok report ∧ List.Forall₂ Tells report (pings N limit e nodes w) ∧
      (N.Punctual → ∀ entry ∈ report, entry.took ≤ limit) := by
  have hdeadline : earlier (some (w.clock + limit)) w.deadline = some (w.clock + limit) := by
    cases hd : w.deadline with
    | none => rfl
    | some d => exact congrArg some (Nat.min_eq_left (hw d hd))
  cases h with
  | abandoned early =>
    obtain ⟨d, hd, hlt⟩ := early
    exact absurd (hw d hd) (Nat.not_le.2 hlt)
  | @made probes report e₁ _ w₁ _ starts finishes =>
    rw [hdeadline] at starts
    have hids' : ((nodes.zip probes).map (·.1.id)).Nodup := by
      rw [← List.map_fst_zip starts.length_eq.ge, List.map_map] at hids
      exact hids
    obtain ⟨hforetells, -⟩ := starts.foretells hlimit e w hids
      (fun n hn => (hpools n hn).imp fun _ hp => ⟨hp, hp⟩) rfl rfl
    refine ⟨report, rfl, forall₂_tells_iff.2 (finishes.finds hids' hforetells), fun hN => ?_⟩
    have hprompt := starts.prompt hN rfl
    exact finishes.took_le fun check hcheck => hprompt _ (List.of_mem_zip hcheck).2

end Health

namespace Client

/-- The counters of pools are those of all nodes, in their order. -/
theorem Equipped.poolStats_nodes {c : Client} (hc : c.Equipped) : c.poolStats.map (·.1) = c.nodes := by
  have hpool : ∀ n ∈ c.nodes, ((c.executor.pool? n).map fun p => (n, p.stats)).map (·.1) = some n := by
    intro n hn
    obtain ⟨p, hp, -⟩ := hc.pools n hn
    rw [hp]
    rfl
  rw [poolStats, List.map_filterMap, List.filterMap_eq_map_iff_forall_eq_some.2 hpool, List.map_id']

namespace Scene

variable {s : Scene σ}

/-- What is true of a report of health that a client makes, where `nodes` are those of its settings. It
ends with `r` and leaves the scene `s'`. -/
structure Reported (N : Network σ) (s : Scene σ) (nodes : List Node) (r : Outcome (List NodeHealth))
    (s' : Scene σ) : Prop where
  unfailing : ∀ f, r ≠ .failed f
  /-- It has one entry for each node in configuration order. -/
  complete : ∀ report, r = .ok report → report.map (·.node) = nodes
  /-- So have the counters of pools, whatever happens before they are asked for. -/
  paired : ∀ later, (s'.run N later).client.poolStats.map (·.1) = nodes
  /-- Unless it is given up before the limit of its checks, it comes, and finds just those nodes healthy
  on which `PING` brings `PONG` within the limit. -/
  findings : s.wire.Lasts Health.standardLimit → ∃ report, r = .ok report ∧
    List.Forall₂ Health.Tells report
      (Health.pings N Health.standardLimit s.client.executor nodes s.wire) ∧
    (N.Punctual → ∀ entry ∈ report, entry.took ≤ Health.standardLimit)
  /-- All sessions stay what they were, with their phases. -/
  sessions : ∀ context, s'.session? context = s.session? context
  /-- All shards stay what they were, with their masters. -/
  router : s'.client.router = s.client.router
  subscriptions : s'.client.subscriptions = s.client.subscriptions
  /-- No pool has more or less capacity taken than before, in whichever way the checks end. -/
  capacity : ∀ id, s'.client.executor.active? id = s.client.executor.active? id

theorem reported (hs : s.client.Equipped) (hids : (s.client.nodes.map (·.id)).Nodup)
    {r : Outcome (List NodeHealth)} {c' : Client} {w' : Wire σ}
    (h : s.client.health N s.wire = (r, c', w')) : s.Reported N s.client.nodes r ⟨c', w'⟩ := by
  have hafter : s.after N (.call .health) = ⟨c', w'⟩ := by
    simp only [after, afterCall, Call.run, answered, h]
  have hequipped : (Scene.mk c' w').client.Equipped := hafter ▸ equipped_after hs (.call .health)
  have hnodes : c'.nodes = s.client.nodes := by
    rw [← nodes_after (N := N) s (.call .health), hafter]
  rcases hcheck : Health.checkAll N Health.standardLimit s.client.nodes s.client.executor s.wire with
    ⟨r₁, e', w₁⟩
  have hways := Health.checkAll_ways (N := N) Health.standardLimit s.client.nodes s.client.executor s.wire
  simp only [Client.health, hcheck] at h
  rw [hcheck] at hways
  cases h
  constructor
  · rintro f rfl
    cases hways
  · rintro report rfl
    exact hways.nodes_eq
  · intro later
    obtain ⟨hlater, hsame, -⟩ := equipped_run (N := N) hequipped later
    rw [hlater.poolStats_nodes, hsame, hnodes]
  · exact hways.tells (by decide) hids fun n hn => (hs.pools n hn).imp fun _ => And.left
  · exact hways.spares.sessions
  · rfl
  · rfl
  · exact hways.active

/-- **A report of health is complete and harmless**: whatever a client was used for before and whatever
its servers do, a report has one entry for every node of the settings, in their order, as have the
counters of pools at any later time. It finds just those nodes healthy on which `PING` brings `PONG`
within the limit, if it is run on each by itself. All sessions, masters and subscriptions stay what they
were, and all capacity that the checks took is given back. -/
theorem report_complete_and_harmless {settings : Settings} {client : Client}
    (h : build settings = .ok client) (N : Network σ) (net : σ) (moves : List (Move σ)) :
    let s := (start client net).run N moves
    ∃ r c' w', s.client.health N s.wire = (r, c', w') ∧
      s.Reported N ((settings.shards.flatMap (·.nodes)).map (·.toNode settings.pool)) r ⟨c', w'⟩ := by
  intro s
  obtain ⟨hequipped, hnodes, -⟩ := equipped_run (N := N) (s := start client net) (equipped_of_build h) moves
  have hids : (s.client.nodes.map (·.id)).Nodup := by
    rw [show s.client.nodes = client.nodes from hnodes]
    exact ids_of_build h
  refine ⟨_, _, _, rfl, ?_⟩
  rw [← nodes_of_build h, ← show s.client.nodes = client.nodes from hnodes]
  exact reported hequipped hids rfl

/-- One node has lent all that it may to a session, one is silent, and only the third is healthy. -/
theorem report_of_pinned_silent_and_healthy :
    let settings : Settings := {
      sharding := { virtualNodes := 1, hashing := .fnv1a }
      shards := [{ nodes := [{ host := "a", port := 1, maxTotal := some 1, maxIdle := some 1 },
        { host := "b", port := 1 }, { host := "c", port := 1 }] }] }
    let silence : Rehearsal.Rule :=
      { node := some "b:1/0", command := some "PING", action := .silent }
    ∃ client, build settings = .ok client ∧
      let s := (start client { rules := [silence] }).run Rehearsal.network [.call (.begin 1 [])]
      Rehearsal.network.Punctual ∧ s.wire.Lasts Health.standardLimit ∧
      ∃ report c' w', s.client.health Rehearsal.network s.wire = (.ok report, c', w') ∧
        report.map (fun n => (n.node.id, n.health, n.took)) = [
          ("a:1/0", .unhealthy "Operation timed out: borrow connection to a:1/0 after 1s", 1000),
          ("b:1/0", .timeout, 3000), ("c:1/0", .healthy, 0)] ∧
        s.Reported Rehearsal.network ((settings.shards.flatMap (·.nodes)).map (·.toNode settings.pool))
          (.ok report) ⟨c', w'⟩ := by
  intro settings silence
  obtain ⟨client, hbuild⟩ : ∃ client, build settings = .ok client := ⟨_, rfl⟩
  have hruns : ∀ client ∈ (build settings).toOption,
      let s := (start client { rules := [silence] }).run Rehearsal.network [.call (.begin 1 [])]
      s.wire.deadline = none ∧
      (s.client.health Rehearsal.network s.wire).1.map (·.map fun n => (n.node.id, n.health, n.took)) =
        .ok [("a:1/0", .unhealthy "Operation timed out: borrow connection to a:1/0 after 1s", 1000),
          ("b:1/0", .timeout, 3000), ("c:1/0", .healthy, 0)] := by decide +kernel
  obtain ⟨hdeadline, hfound⟩ := hruns client (by rw [hbuild]; rfl)
  obtain ⟨r, c', w', hhealth, hreported⟩ := report_complete_and_harmless hbuild Rehearsal.network
    { rules := [silence] } [.call (.begin 1 [])]
  refine ⟨client, hbuild, Rehearsal.network_punctual, by simp [Wire.Lasts, hdeadline], ?_⟩
  rw [hhealth] at hfound
  cases r with
  | ok report => exact ⟨report, c', w', hhealth, Outcome.ok.inj hfound, hreported⟩
  | failed | stalled => cases hfound

end Scene

end Client

end ShardFleet
