import Mathlib.Data.List.Rotate
import Mathlib.Data.Nat.ModEq
import ShardFleet.Chain

/-!
# Making the links of a chain

A new order is made by one command for each node, up to the first command that fails, and the chain has
its new master only if none does. `Promotes` lists the ways that this can go, for any way of running
commands. A chain whose commands are kept then goes through any calls with a log of what it had run.
-/

namespace ShardFleet

namespace Chain

variable {τ : Type} {R : Runner τ}

/-- A command that a chain had run on a node, and how that ended. -/
structure Errand where
  node : Node
  command : Command
  outcome : Outcome Resp.Value
deriving DecidableEq, Repr

/-- What a link is made by: a command, and the node that is to run it. -/
def task (c : Chain) (l : Link) : Node × Command := (c.nodeAt l.node, c.linkCommand l)

/-- What a chain has run in making links: the command of every link, if all are accepted, and else up to
the first that is not. -/
inductive Relinks (c : Chain) : List Link → List Errand → (all : Bool) → Prop where
  | done : c.Relinks [] [] true
  | made {l ls v es all} (rest : c.Relinks ls es all) :
    c.Relinks (l :: ls) (⟨c.nodeAt l.node, c.linkCommand l, .ok v⟩ :: es) all
  | missed {l ls r} (unmade : r.isOk = false) :
    c.Relinks (l :: ls) [⟨c.nodeAt l.node, c.linkCommand l, r⟩] false

/-- What becomes of a state when errands are run one after the other. -/
inductive Ran (R : Runner τ) : τ → List Errand → τ → Prop where
  | nil (s) : Ran R s [] s
  | cons {node command r s s' s'' es} (first : R node command s = (r, s'))
      (rest : Ran R s' es s'') : Ran R s (⟨node, command, r⟩ :: es) s''

theorem relink_ways (R : Runner τ) (c : Chain) (applied : Nat) (links : List Link) (s : τ) :
    ∃ es, c.Relinks links es (c.relink R applied links s).1.isOk ∧
      Ran R s es (c.relink R applied links s).2 := by
  induction links generalizing applied s with
  | nil => exact ⟨[], .done, .nil s⟩
  | cons l ls ih =>
    unfold relink
    rcases hr : R (c.nodeAt l.node) (c.linkCommand l) s with ⟨v | f | _, s'⟩ <;> simp only [hr]
    · obtain ⟨es, hlinks, hran⟩ := ih (applied + 1) s'
      exact ⟨_, .made hlinks, .cons hr hran⟩
    · exact ⟨_, .missed rfl, .cons hr (.nil s')⟩
    · exact ⟨_, .missed rfl, .cons hr (.nil s')⟩

/-- The ways that making a node the master can go. -/
inductive Promotes (R : Runner τ) (index : Nat) (c : Chain) (s : τ) :
    Outcome (List Link) → Chain → τ → Prop where
  /-- There is no node with the index. -/
  | refused (none : c.nodes.length ≤ index) : Promotes R index c s (.failed (c.outOfRange index)) c s
  | made {es s'} (h : index < c.nodes.length)
      (links : c.Relinks (Link.plan c.nodes.length index) es true) (ran : Ran R s es s') :
    Promotes R index c s (.ok (Link.plan c.nodes.length index))
      { c with master := index, master_lt := h } s'
  | missed {es r s'} (h : index < c.nodes.length)
      (links : c.Relinks (Link.plan c.nodes.length index) es false) (ran : Ran R s es s')
      (unmade : r.isOk = false) : Promotes R index c s r c s'

theorem promote_ways (R : Runner τ) (index : Nat) (c : Chain) (s : τ) :
    Promotes R index c s (c.promote R index s).1 (c.promote R index s).2.1
      (c.promote R index s).2.2 := by
  unfold promote
  split
  · rename_i h
    obtain ⟨es, hlinks, hran⟩ := relink_ways R c 0 (Link.plan c.nodes.length index) s
    rcases hr : c.relink R 0 (Link.plan c.nodes.length index) s with ⟨_ | f | _, s'⟩ <;>
      simp only [hr] at hlinks hran ⊢
    · exact .made h hlinks hran
    · exact .missed h hlinks hran rfl
    · exact .missed h hlinks hran rfl
  · rename_i h
    exact .refused (Nat.le_of_not_lt h)

/-- The errands of links that were all made are the tasks of the links, and were accepted. -/
theorem Relinks.all_made {c : Chain} {links : List Link} {es : List Errand}
    (h : c.Relinks links es true) :
    es.map (fun e => (e.node, e.command)) = links.map c.task ∧ ∀ e ∈ es, e.outcome.isOk = true := by
  induction links generalizing es with
  | nil =>
    cases h
    simp
  | cons l ls ih =>
    cases h with
    | made rest =>
      obtain ⟨htasks, haccepted⟩ := ih rest
      rw [List.map_cons, List.map_cons, htasks]
      exact ⟨rfl, List.forall_mem_cons.2 ⟨rfl, haccepted⟩⟩

/-- Every errand is the task of one of the links. -/
theorem Relinks.mem {c : Chain} {links : List Link} {es : List Errand} {all : Bool}
    (h : c.Relinks links es all) : ∀ e ∈ es, ∃ l ∈ links, (e.node, e.command) = c.task l := by
  induction h with
  | done => simp
  | made _ ih =>
    refine List.forall_mem_cons.2 ⟨⟨_, List.mem_cons_self, rfl⟩, fun e he => ?_⟩
    obtain ⟨l, hl, htask⟩ := ih e he
    exact ⟨l, List.mem_cons_of_mem _ hl, htask⟩
  | missed => simp [task]

/-! ### The nodes in the order of replication -/

/-- The node that comes so many places after the first, where the first comes after the last. -/
def around (nodes : List Node) (k : Nat) : Node := nodes.getD (k % nodes.length) default

theorem around_eq_getElem {nodes : List Node} {k : Nat} (h : k % nodes.length < nodes.length) :
    around nodes k = nodes[k % nodes.length] := by
  rw [around, List.getD_eq_getElem?_getD, List.getElem?_eq_getElem h, Option.getD_some]

theorem around_of_lt {nodes : List Node} {k : Nat} (h : k < nodes.length) :
    around nodes k = nodes[k] := by
  rw [around_eq_getElem (by rwa [Nat.mod_eq_of_lt h])]
  simp only [Nat.mod_eq_of_lt h]

theorem around_mem {nodes : List Node} (h : nodes ≠ []) (k : Nat) : around nodes k ∈ nodes := by
  rw [around_eq_getElem (Nat.mod_lt k (List.length_pos_iff.2 h))]
  exact List.getElem_mem _

theorem around_congr {nodes : List Node} {j k : Nat} (h : j ≡ k [MOD nodes.length]) :
    around nodes j = around nodes k := by
  rw [around, around, h]

/-- Nodes that differ in `f` are at the same places only if they are the same. -/
theorem modEq_of_around {β : Type} {f : Node → β} {nodes : List Node} (hnodup : (nodes.map f).Nodup)
    (hne : nodes ≠ []) {j k : Nat} (h : f (around nodes j) = f (around nodes k)) :
    j ≡ k [MOD nodes.length] := by
  have hpos := List.length_pos_iff.2 hne
  rw [around_eq_getElem (Nat.mod_lt j hpos), around_eq_getElem (Nat.mod_lt k hpos)] at h
  have hj : j % nodes.length < (nodes.map f).length := by simpa using Nat.mod_lt j hpos
  have hk : k % nodes.length < (nodes.map f).length := by simpa using Nat.mod_lt k hpos
  have hsame : (nodes.map f)[j % nodes.length] = (nodes.map f)[k % nodes.length] := by simpa using h
  exact hnodup.getElem_inj_iff.1 hsame

/-- Two places that are less than one round apart are different. -/
theorem not_modEq_of_lt {n j k : Nat} (hjk : j < k) (hkn : k < j + n) : ¬ k ≡ j [MOD n] := by
  intro h
  have hdvd := (Nat.modEq_iff_dvd' hjk.le).1 h.symm
  have := Nat.le_of_dvd (by omega) hdvd
  omega

theorem length_pos (c : Chain) : 0 < c.nodes.length := Nat.zero_lt_of_lt c.master_lt

theorem nodes_ne_nil (c : Chain) : c.nodes ≠ [] := List.length_pos_iff.1 c.length_pos

theorem nodeAt_mod (c : Chain) (k : Nat) : c.nodeAt (k % c.nodes.length) = around c.nodes k := by
  have h := Nat.mod_lt k c.length_pos
  simp only [nodeAt, around, List.getD_eq_getElem?_getD, List.getElem?_eq_getElem h, Option.getD_some]

theorem order_eq_map (c : Chain) :
    c.order = (List.range' c.master c.nodes.length).map (around c.nodes) := by
  rw [order, ← List.rotate_eq_drop_append_take c.master_lt.le]
  refine List.ext_getElem (by simp) fun k hk _ => ?_
  have hmod := Nat.mod_lt (k + c.master) c.length_pos
  rw [List.getElem_rotate, List.getElem_map, List.getElem_range', Nat.one_mul, Nat.add_comm c.master,
    around_eq_getElem hmod]

theorem order_perm (c : Chain) : c.order.Perm c.nodes := by
  rw [order, ← List.rotate_eq_drop_append_take c.master_lt.le]
  exact List.rotate_perm ..

theorem length_order (c : Chain) : c.order.length = c.nodes.length := c.order_perm.length_eq

theorem getElem_order (c : Chain) {k : Nat} (h : k < c.order.length) :
    c.order[k] = around c.nodes (c.master + k) := by
  simp only [order_eq_map, List.getElem_map, List.getElem_range', Nat.one_mul]

/-- The command that makes a server replicate from another one, or from nobody. -/
def follow : Option Node → Command
  | none => .of "REPLICAOF" [utf8 "NO", utf8 "ONE"]
  | some m => .of "REPLICAOF" [utf8 m.host, utf8 s!"{m.port}"]

theorem toUpper_replicaof : "REPLICAOF".map Char.toUpper = "REPLICAOF" := by decide +kernel

theorem name_follow (upstream : Option Node) : (follow upstream).name = "REPLICAOF" := by
  cases upstream <;> exact toUpper_replicaof

/-- The tasks that make every one of some nodes replicate from the one before it, and the first one from
`upstream`. -/
def line : (upstream : Option Node) → List Node → List (Node × Command)
  | _, [] => []
  | upstream, n :: ns => (n, follow upstream) :: line (some n) ns

theorem line_around (nodes : List Node) (a k : Nat) :
    line (some (around nodes a)) ((List.range' (a + 1) k).map (around nodes)) =
      (List.range' a k).map fun j => (around nodes (j + 1), follow (some (around nodes j))) := by
  induction k generalizing a with
  | zero => rfl
  | succ k ih => simp only [List.range'_succ, List.map_cons, line, ih]

theorem task_detach {c : Chain} {index : Nat} (h : index < c.nodes.length) :
    c.task (.detach index) = (around c.nodes index, follow none) := by
  rw [← nodeAt_mod, Nat.mod_eq_of_lt h]
  rfl

theorem task_replicate (c : Chain) (j k : Nat) :
    c.task (.replicate (j % c.nodes.length) (k % c.nodes.length)) =
      (around c.nodes j, follow (some (around c.nodes k))) := by
  rw [← nodeAt_mod, ← nodeAt_mod]
  rfl

theorem plan_eq_cons {length : Nat} (h : 0 < length) (index : Nat) :
    Link.plan length index = .detach index :: (List.range' index (length - 1)).map fun k =>
      .replicate ((k + 1) % length) (k % length) := by
  rw [Link.plan, if_neg (Nat.ne_of_gt h), List.range'_eq_map_range, List.map_map]
  rfl

/-- All links after the first are made at other places than it. -/
theorem eq_replicate_of_mem {length index : Nat} {l : Link}
    (h : l ∈ (List.range' index (length - 1)).map fun k =>
      Link.replicate ((k + 1) % length) (k % length)) :
    ∃ k, ¬ k + 1 ≡ index [MOD length] ∧ l = .replicate ((k + 1) % length) (k % length) := by
  obtain ⟨k, hk, rfl⟩ := List.mem_map.1 h
  obtain ⟨hle, hlt⟩ := List.mem_range'_1.1 hk
  exact ⟨k, not_modEq_of_lt (by omega) (by omega), rfl⟩

/-- The links of a new order make its nodes a line. -/
theorem plan_tasks {c : Chain} {index : Nat} (h : index < c.nodes.length) :
    (Link.plan c.nodes.length index).map c.task =
      line none { c with master := index, master_lt := h }.order := by
  rw [order_eq_map, plan_eq_cons c.length_pos, List.map_cons, List.map_map, task_detach h]
  obtain ⟨rest, hlength⟩ := Nat.exists_eq_add_one.2 c.length_pos
  rw [hlength, List.range'_succ, List.map_cons, line, line_around, Nat.add_sub_cancel, ← hlength]
  simp only [Function.comp_def, task_replicate]

/-! ### Calls on a chain -/

/-- A call that changes the master of a chain. -/
inductive Call where
  | promote (index : Nat)
  /-- No node is told of the new master. -/
  | point (index : Nat)
  | reset
deriving DecidableEq, Repr

namespace Call

/-- The node that is to be the master after a call that makes all links anew. -/
def target? : Call → Option Nat
  | promote index => some index
  | point _ => none
  | reset => some 0

/-- Makes a call. -/
def run (R : Runner τ) : Call → Chain → τ → Outcome (List Link) × Chain × τ
  | promote index, c, s => c.promote R index s
  | point index, c, s =>
    match c.point index with
    | .ok c => (.ok [], c, s)
    | .error f => (.failed f, c, s)
  | reset, c, s => c.reset R s

theorem run_of_target {call : Call} {index : Nat} (h : call.target? = some index) (c : Chain) (s : τ) :
    call.run R c s = c.promote R index s := by
  cases call <;> cases h <;> rfl

end Call

/-- A runner that also keeps what it ran. -/
def Runner.logged (R : Runner τ) : Runner (τ × List Errand) := fun node command s =>
  let (r, t) := R node command s.1
  (r, t, s.2 ++ [⟨node, command, r⟩])

theorem Ran.logged {s t : τ × List Errand} {es : List Errand} (h : Ran R.logged s es t) :
    t.2 = s.2 ++ es := by
  induction h with
  | nil s => simp
  | cons first _ ih =>
    cases first
    simpa using ih

/-- A chain, the state that its commands work on, and all that it had run so far. -/
structure Scene (τ : Type) where
  chain : Chain
  state : τ
  log : List Errand := []

namespace Scene

section

variable (R : Runner τ)

/-- How a call ends that is made now. -/
def outcome (s : Scene τ) (call : Call) : Outcome (List Link) :=
  (call.run R.logged s.chain (s.state, s.log)).1

/-- The scene after a call. -/
def after (s : Scene τ) (call : Call) : Scene τ :=
  let (_, chain, state, log) := call.run R.logged s.chain (s.state, s.log)
  ⟨chain, state, log⟩

/-- The scene after some calls. -/
def run (s : Scene τ) (calls : List Call) : Scene τ := calls.foldl (after R) s

end

theorem run_concat (s : Scene τ) (calls : List Call) (call : Call) :
    s.run R (calls ++ [call]) = (s.run R calls).after R call := by
  simp [Scene.run, List.foldl_append]

/-- The ways that a call can go: what it answers, and the scene after it. -/
inductive Ways (s : Scene τ) (call : Call) : Outcome (List Link) → Scene τ → Prop where
  /-- There is no node with the index. -/
  | refused {f} : s.Ways call (.failed f) s
  | pointed {index} (asked : call = .point index) (h : index < s.chain.nodes.length) :
    s.Ways call (.ok []) { s with chain := { s.chain with master := index, master_lt := h } }
  | made {index es state} (asked : call.target? = some index) (h : index < s.chain.nodes.length)
      (links : s.chain.Relinks (Link.plan s.chain.nodes.length index) es true) :
    s.Ways call (.ok (Link.plan s.chain.nodes.length index))
      ⟨{ s.chain with master := index, master_lt := h }, state, s.log ++ es⟩
  | missed {index es r state} (asked : call.target? = some index) (h : index < s.chain.nodes.length)
      (links : s.chain.Relinks (Link.plan s.chain.nodes.length index) es false)
      (unmade : r.isOk = false) : s.Ways call r ⟨s.chain, state, s.log ++ es⟩

theorem ways_of_target {s : Scene τ} {call : Call} {index : Nat} (h : call.target? = some index) :
    s.Ways call (s.outcome R call) (s.after R call) := by
  have hways := promote_ways R.logged index s.chain (s.state, s.log)
  rcases hp : s.chain.promote R.logged index (s.state, s.log) with ⟨r, chain, state, log⟩
  simp only [outcome, after, Call.run_of_target h, hp] at hways ⊢
  cases hways with
  | refused => exact .refused
  | made hindex hlinks hran =>
    obtain rfl : log = _ := hran.logged
    exact .made h hindex hlinks
  | missed hindex hlinks hran unmade =>
    obtain rfl : log = _ := hran.logged
    exact .missed h hindex hlinks unmade

/-- Every call goes one of the ways of a call. -/
theorem ways (s : Scene τ) (call : Call) : s.Ways call (s.outcome R call) (s.after R call) := by
  cases call with
  | promote index => exact ways_of_target rfl
  | reset => exact ways_of_target rfl
  | point index =>
    by_cases h : index < s.chain.nodes.length
    · simp only [outcome, after, Call.run, point, dif_pos h]
      exact .pointed rfl h
    · simp only [outcome, after, Call.run, point, dif_neg h]
      exact .refused

theorem Ways.nodes {s s' : Scene τ} {call : Call} {r : Outcome (List Link)}
    (h : s.Ways call r s') : s'.chain.nodes = s.chain.nodes := by
  cases h <;> rfl

theorem nodes_run (s : Scene τ) (calls : List Call) :
    (s.run R calls).chain.nodes = s.chain.nodes := by
  induction calls using List.reverseRecOn with
  | nil => rfl
  | append_singleton calls call ih =>
    rw [run_concat]
    exact ((s.run R calls).ways call).nodes.trans ih

end Scene

end Chain

end ShardFleet
