import ShardFleet.Client
import ShardFleet.Proofs.Relinking
import ShardFleet.Rehearsal.Recorder

/-!
# Promotions that fail

The links of a new order are made one after the other, and the chain has its new master only when all of
them are. A promotion that fails has therefore changed nothing on the side of the chain: it has told no
node anything, or it has told the nodes of the links up to the one that failed, which its fault names.
-/

namespace ShardFleet

namespace Chain

variable {τ : Type} {R : Runner τ}

/-- What a chain has run of its links when the `k`-th of them is the first to fail: the commands of the
links before it, which were accepted, and its own. -/
structure StopsAt (c : Chain) (links : List Link) (k : Nat) (l : Link) (f : Fault) (es : List Errand) :
    Prop where
  link : links[k]? = some l
  /-- The first `k + 1` links, in order, and nothing else. -/
  sent : es.map (fun e => (e.node, e.command)) = (links.take (k + 1)).map c.task
  outcomes : ∃ made, es = made ++ [⟨c.nodeAt l.node, c.linkCommand l, .failed f⟩] ∧
    ∀ e ∈ made, e.outcome.isOk = true

/-- The fault of a link that failed after `applied` links were made. -/
def linkFault (c : Chain) (l : Link) (applied : Nat) (f : Fault) : Fault :=
  .linkFailed (c.nodeAt l.node).id (c.linkCommand l).text applied f

theorem StopsAt.first {c : Chain} {l : Link} {ls : List Link} {f : Fault} :
    c.StopsAt (l :: ls) 0 l f [⟨c.nodeAt l.node, c.linkCommand l, .failed f⟩] :=
  ⟨rfl, rfl, [], rfl, by simp⟩

theorem StopsAt.next {c : Chain} {links : List Link} {k : Nat} {l : Link} {f : Fault}
    {es : List Errand} (h : c.StopsAt links k l f es) (l₀ : Link) (v : Resp.Value) :
    c.StopsAt (l₀ :: links) (k + 1) l f (⟨c.nodeAt l₀.node, c.linkCommand l₀, .ok v⟩ :: es) := by
  obtain ⟨hlink, hsent, made, rfl, haccepted⟩ := h
  refine ⟨hlink, ?_, _ :: made, rfl, List.forall_mem_cons.2 ⟨rfl, haccepted⟩⟩
  rw [List.map_cons, hsent]
  rfl

/-- Links stop at the first one, or they go on after it has been made. -/
theorem StopsAt.cons_cases {c : Chain} {l₀ : Link} {ls : List Link} {k : Nat} {l : Link} {f : Fault}
    {es : List Errand} (h : c.StopsAt (l₀ :: ls) k l f es) :
    (k = 0 ∧ l = l₀ ∧ es = [⟨c.nodeAt l.node, c.linkCommand l, .failed f⟩]) ∨
      ∃ j v es', k = j + 1 ∧ es = ⟨c.nodeAt l₀.node, c.linkCommand l₀, .ok v⟩ :: es' ∧
        c.StopsAt ls j l f es' := by
  obtain ⟨hlink, hsent, made, rfl, haccepted⟩ := h
  cases k with
  | zero =>
    cases hlink
    have hmade : made = [] := by simpa using congrArg List.length hsent
    exact .inl ⟨rfl, rfl, by rw [hmade, List.nil_append]⟩
  | succ j =>
    have hlt := (List.getElem?_eq_some_iff.1 hlink).1
    cases made with
    | nil =>
      have := congrArg List.length hsent
      simp only [List.nil_append, List.map_cons, List.map_nil, List.length_cons, List.length_nil,
        List.length_map, List.length_take] at this hlt
      omega
    | cons e made =>
      obtain ⟨hhead, htail⟩ := List.cons.inj hsent
      obtain ⟨hok, hrest⟩ := List.forall_mem_cons.1 haccepted
      obtain ⟨node, command, outcome⟩ := e
      obtain ⟨rfl, rfl⟩ := Prod.mk.inj hhead
      obtain ⟨v, rfl⟩ : ∃ v, outcome = .ok v := by
        cases outcome with
        | ok v => exact ⟨v, rfl⟩
        | failed | stalled => cases hok
      exact .inr ⟨j, v, _, rfl, rfl, hlink, htail, made, rfl, hrest⟩

theorem ran_cons_iff {s t : τ} {node : Node} {command : Command} {r : Outcome Resp.Value}
    {es : List Errand} : Ran R s (⟨node, command, r⟩ :: es) t ↔
      ∃ s', R node command s = (r, s') ∧ Ran R s' es t := by
  constructor
  · rintro (_ | ⟨first, rest⟩)
    exact ⟨_, first, rest⟩
  · rintro ⟨s', first, rest⟩
    exact .cons first rest

theorem ran_nil_iff {s t : τ} : Ran R s [] t ↔ t = s := by
  constructor
  · rintro ⟨⟩
    rfl
  · rintro rfl
    exact .nil _

/-- Making links fails exactly when they stop at one of them, with the fault that names it. -/
theorem relink_failed_iff (c : Chain) (applied : Nat) (links : List Link) (s t : τ) (g : Fault) :
    c.relink R applied links s = (.failed g, t) ↔
      ∃ k l f es, c.StopsAt links k l f es ∧ Ran R s es t ∧ g = c.linkFault l (applied + k) f := by
  induction links generalizing applied s with
  | nil =>
    refine ⟨fun h => by simp [relink] at h, ?_⟩
    rintro ⟨k, l, f, es, hstops, -⟩
    simpa using hstops.link
  | cons l₀ ls ih =>
    unfold relink
    rcases hr : R (c.nodeAt l₀.node) (c.linkCommand l₀) s with ⟨v | f₀ | _, s'⟩ <;> simp only [hr]
    -- The first link is made, and the others follow.
    · rw [ih]
      constructor
      · rintro ⟨k, l, f, es, hstops, hran, rfl⟩
        refine ⟨k + 1, l, f, _, hstops.next l₀ v, .cons hr hran, ?_⟩
        rw [Nat.add_right_comm, Nat.add_assoc]
      · rintro ⟨k, l, f, es, hstops, hran, rfl⟩
        obtain ⟨-, rfl, rfl⟩ | ⟨j, v', es', rfl, rfl, hlater⟩ := hstops.cons_cases
        · obtain ⟨_, hfirst, -⟩ := ran_cons_iff.1 hran
          cases hr.symm.trans hfirst
        · obtain ⟨_, hfirst, hrest⟩ := ran_cons_iff.1 hran
          cases hr.symm.trans hfirst
          refine ⟨j, l, f, es', hlater, hrest, ?_⟩
          rw [Nat.add_right_comm, Nat.add_assoc]
    -- The first link fails, and nothing follows it.
    · constructor
      · rintro h
        obtain ⟨rfl, rfl⟩ : c.linkFault l₀ applied f₀ = g ∧ s' = t := by simpa [linkFault] using h
        exact ⟨0, l₀, f₀, _, .first, .cons hr (.nil s'), rfl⟩
      · rintro ⟨k, l, f, es, hstops, hran, rfl⟩
        obtain ⟨rfl, rfl, rfl⟩ | ⟨j, v', es', rfl, rfl, hstops⟩ := hstops.cons_cases
        · obtain ⟨_, hfirst, hrest⟩ := ran_cons_iff.1 hran
          cases hr.symm.trans hfirst
          cases ran_nil_iff.1 hrest
          rfl
        · obtain ⟨_, hfirst, -⟩ := ran_cons_iff.1 hran
          cases hr.symm.trans hfirst
    · refine ⟨fun h => by simp at h, ?_⟩
      rintro ⟨k, l, f, es, hstops, hran, rfl⟩
      obtain ⟨-, rfl, rfl⟩ | ⟨j, v', es', rfl, rfl, -⟩ := hstops.cons_cases <;>
      · obtain ⟨_, hfirst, -⟩ := ran_cons_iff.1 hran
        cases hr.symm.trans hfirst

/-- A runner that keeps a log goes the way of the runner itself. -/
theorem ran_logged_iff {s t : τ × List Errand} {es : List Errand} :
    Ran R.logged s es t ↔ Ran R s.1 es t.1 ∧ t.2 = s.2 ++ es := by
  induction es generalizing s with
  | nil =>
    simp only [ran_nil_iff, List.append_nil]
    exact Prod.ext_iff
  | cons e es ih =>
    obtain ⟨node, command, r⟩ := e
    simp only [ran_cons_iff, ih]
    constructor
    · rintro ⟨s', hfirst, hrest, hlog⟩
      cases hfirst
      exact ⟨⟨_, rfl, hrest⟩, by simpa using hlog⟩
    · rintro ⟨⟨s', hfirst, hrest⟩, hlog⟩
      refine ⟨(s', s.2 ++ [⟨node, command, r⟩]), ?_, hrest, by simpa using hlog⟩
      rw [Runner.logged, hfirst]

theorem promote_failed_iff {c c' : Chain} {index : Nat} {s t : τ} {g : Fault} :
    c.promote R index s = (.failed g, c', t) ↔
      (c.nodes.length ≤ index ∧ g = c.outOfRange index ∧ c' = c ∧ t = s) ∨
        (index < c.nodes.length ∧ c' = c ∧ ∃ k l f es,
          c.StopsAt (Link.plan c.nodes.length index) k l f es ∧ Ran R s es t ∧
            g = c.linkFault l k f) := by
  unfold promote
  split
  · rename_i h
    have hiff := relink_failed_iff (R := R) c 0 (Link.plan c.nodes.length index) s t g
    simp only [Nat.zero_add] at hiff
    rw [← hiff, or_iff_right fun hle => Nat.not_le_of_lt h hle.1]
    rcases hr : c.relink R 0 (Link.plan c.nodes.length index) s with ⟨_ | f | _, s'⟩ <;>
      simp [h, hr, and_left_comm, eq_comm]
  · rename_i h
    simp [Nat.le_of_not_lt h, h, eq_comm]

/-- The node that is to be the master after a call. -/
def Call.index : Call → Nat
  | promote index => index
  | point index => index
  | reset => 0

theorem Call.target?_eq (call : Call) : call.target? = none ∧ call = .point call.index ∨
    call.target? = some call.index := by
  cases call
  · exact .inr rfl
  · exact .inl ⟨rfl, rfl⟩
  · exact .inr rfl

namespace Scene

/-- The ways that a call can fail: its fault, and the scene after it. -/
inductive Fails (R : Runner τ) (s : Scene τ) (call : Call) : Fault → Scene τ → Prop where
  /-- There is no node with the index, and nothing is sent. -/
  | refused (missing : s.chain.nodes.length ≤ call.index) :
    Fails R s call (.masterOutOfRange call.index s.chain.nodes.length) s
  /-- The links of the new order stop at the `k`-th of them, and no other is sent. -/
  | stopped {k l f es state} (relinks : call.target? = some call.index)
      (there : call.index < s.chain.nodes.length)
      (stops : s.chain.StopsAt (Link.plan s.chain.nodes.length call.index) k l f es)
      (ran : Ran R s.state es state) :
    Fails R s call (.linkFailed (s.chain.nodeAt l.node).id (s.chain.linkCommand l).text k f)
      { s with state, log := s.log ++ es }

theorem fails_of_target {s s' : Scene τ} {call : Call} {g : Fault}
    (h : call.target? = some call.index) :
    s.outcome R call = .failed g ∧ s.after R call = s' ↔ s.Fails R call g s' := by
  have hrun : s.outcome R call = .failed g ∧ s.after R call = s' ↔
      s.chain.promote R.logged call.index (s.state, s.log) =
        (.failed g, s'.chain, s'.state, s'.log) := by
    obtain ⟨chain, state, log⟩ := s'
    simp only [outcome, after, Call.run_of_target h, Scene.mk.injEq, Prod.ext_iff]
  rw [hrun, promote_failed_iff]
  obtain ⟨chain, state, log⟩ := s'
  constructor
  · rintro (⟨hmissing, rfl, rfl, hsame⟩ | ⟨hthere, rfl, k, l, f, es, hstops, hran, rfl⟩)
    · cases hsame
      exact .refused hmissing
    · obtain ⟨hran, rfl⟩ := ran_logged_iff.1 hran
      exact .stopped h hthere hstops hran
  · intro hfails
    cases hfails with
    | refused hmissing => exact .inl ⟨hmissing, rfl, rfl, rfl⟩
    | stopped _ hthere hstops hran =>
      exact .inr ⟨hthere, rfl, _, _, _, _, hstops, ran_logged_iff.2 ⟨hran, rfl⟩, rfl⟩

theorem fails_point {s s' : Scene τ} {index : Nat} {g : Fault} :
    s.outcome R (.point index) = .failed g ∧ s.after R (.point index) = s' ↔
      s.Fails R (.point index) g s' := by
  by_cases h : index < s.chain.nodes.length
  · simp only [outcome, after, Call.run, point, dif_pos h, reduceCtorEq, false_and, false_iff]
    rintro (hmissing | hrelinks)
    · exact Nat.not_le_of_lt h hmissing
    · cases hrelinks
  · simp only [outcome, after, Call.run, point, dif_neg h, Outcome.failed.injEq]
    constructor
    · rintro ⟨rfl, rfl⟩
      exact .refused (Nat.le_of_not_lt h)
    · rintro (hmissing | hrelinks)
      · exact ⟨rfl, rfl⟩
      · cases hrelinks

theorem chain_of_not_ok (s : Scene τ) (call : Call) (h : (s.outcome R call).isOk = false) :
    (s.after R call).chain = s.chain := by
  have hways := s.ways (R := R) call
  generalize s.outcome R call = r at h hways
  generalize s.after R call = s' at hways
  cases hways with
  | refused => rfl
  | pointed => cases h
  | made => cases h
  | missed => rfl

/-- **A promotion that fails stops at once and changes nothing on the side of the chain.** A call fails
in just two ways. Where there is no node with its index it is refused, and no node is told anything. Where
a link fails, for whatever reason, the nodes were told of the links up to that one and of no other, and the
fault tells the node of the link, its command, how many links were made before and what went wrong. A call
that does not succeed leaves the chain as it was. -/
theorem failed_promotion_atomic (R : Runner τ) (s : Scene τ) (call : Call) :
    (∀ g s', s.outcome R call = .failed g ∧ s.after R call = s' ↔ s.Fails R call g s') ∧
      ((s.outcome R call).isOk = false → (s.after R call).chain = s.chain) := by
  refine ⟨fun g s' => ?_, s.chain_of_not_ok call⟩
  obtain ⟨-, hpoint⟩ | htarget := call.target?_eq
  · rw [hpoint]
    exact fails_point
  · exact fails_of_target htarget

/-- A refused second link: the third node is never told, and the first one stays the master. -/
example :
    let c : Chain :=
      ⟨"s", [⟨"a", 1, none, 0, {}⟩, ⟨"b", 1, none, 0, {}⟩, ⟨"c", 1, none, 0, {}⟩], 0, by decide⟩
    let recorder : Rehearsal.Recorder := { fails := [("c", .data "busy")] }
    let (r, c', recorder) := c.promote Rehearsal.Recorder.run 1 recorder
    r = .failed (.linkFailed "c:1/0" "REPLICAOF b 1" 1 (.data "busy")) ∧ c' = c ∧
      recorder.log.map (·.1) = ["b:1/0", "c:1/0"] := by
  decide +kernel

end Scene

end Chain

namespace Ring

theorem setShard_self {α : Type} (r : Ring α) {index : Nat} {a : α} (h : r.shards[index]? = some a) :
    r.setShard index a = r := by
  obtain ⟨hlt, rfl⟩ := List.getElem?_eq_some_iff.1 h
  simp only [setShard, List.set_getElem_self]

end Ring

namespace Client

variable {σ : Type} {N : Network σ}

/-- A promotion that fails on a client routes as before. It failed as the chain of its shard did, whose
commands borrow connections of the pools. -/
theorem promote_failed {c : Client} {w : Wire σ} {shard index : Nat} {g : Fault}
    (h : (c.promote N shard index w).1 = .failed g) :
    (c.promote N shard index w).2.1.router = c.router ∧
      (c.shard shard = .error g ∨ ∃ chain s', c.shard shard = .ok chain ∧
        Chain.Scene.Fails (runner N) ⟨chain, (c.executor, w), []⟩ (.promote index) g s' ∧
        s'.state = ((c.promote N shard index w).2.1.executor, (c.promote N shard index w).2.2)) := by
  unfold promote at h ⊢
  cases hshard : c.shard shard with
  | error f =>
    simp only [hshard, Outcome.failed.injEq] at h ⊢
    exact ⟨trivial, .inl (congrArg _ h)⟩
  | ok chain =>
    rcases hp : chain.promote (runner N) index (c.executor, w) with ⟨r, chain', e, w'⟩
    simp only [hshard, hp] at h ⊢
    subst h
    have hsame : chain' = chain := by
      obtain ⟨-, -, hsame, -⟩ | ⟨-, hsame, -⟩ := Chain.promote_failed_iff.1 hp <;> exact hsame
    subst hsame
    refine ⟨?_, .inr ⟨chain', ?_⟩⟩
    · have hown : c.router.ring.shards[shard]? = some chain' := by
        unfold Client.shard at hshard
        split at hshard
        · cases hshard
          assumption
        · cases hshard
      simp only [Client.setShard, Ring.setShard_self _ hown]
    · obtain ⟨hmissing, rfl, -, hstate⟩ | ⟨hthere, -, k, l, f, es, hstops, hran, rfl⟩ :=
        Chain.promote_failed_iff.1 hp
      · exact ⟨_, rfl, .refused hmissing, hstate.symm⟩
      · exact ⟨_, rfl, .stopped rfl hthere hstops hran, rfl⟩

end Client

end ShardFleet
