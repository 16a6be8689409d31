import ShardFleet.Proofs.Capacity
import ShardFleet.Rehearsal.Script

/-!
# Openings at the same time

The opening of a session takes three steps: it looks whether the context has a session, borrows a
connection, and pins it. Openings that are under way at the same time may take their steps in any order
among each other, so that several may find the context free. One of them pins its connection, and each of
the others that borrowed one gives it back.
-/

namespace ShardFleet

variable {σ : Type} {N : Network σ}

/-! ### The steps of an opening -/

namespace Executor

/-- The ways that a step of an opening can go. -/
inductive Advances (N : Network σ) (context : Nat) (node : Node) :
    Opening → Executor → Wire σ → Opening → Executor → Wire σ → Prop where
  | refused {e w f} (cause : f = noPool node ∨
      f = .session (.alreadyOpen context) ∧ ∃ t, e.session? context = some t) :
    Advances N context node .asked e w (.done (.failed f)) e w
  | admitted {e w} (free : e.session? context = none) :
    Advances N context node .asked e w .admitted e w
  | missed {e w} : Advances N context node .admitted e w (.done (.failed (noPool node))) e w
  | unlent {e w f? e' w'} (unlent : Unlent N node.id e w f? e' w') :
    Advances N context node .admitted e w (.done (.without f?)) e' w'
  | lent {e w c e' w'} (lends : Lends N node.id e w c e' w') :
    Advances N context node .admitted e w (.holding c) e' w'
  /-- Another opening was quicker. -/
  | returned {e w c t} (taken : e.session? context = some t) :
    Advances N context node (.holding c) e w (.done (.failed (.session (.alreadyOpen context))))
      (e.release N c w).1 (e.release N c w).2
  | pinned {e w c} (free : e.session? context = none) :
    Advances N context node (.holding c) e w (.done (.ok ⟨context, node.id⟩))
      (e.setSession context { node, connection := some c }) w
  | ended {e w r} : Advances N context node (.done r) e w (.done r) e w

theorem Opening.advance_advances (context : Nat) (node : Node) (o : Opening) (e : Executor)
    (w : Wire σ) :
    Advances N context node o e w (o.advance N context node e w).1 (o.advance N context node e w).2.1
      (o.advance N context node e w).2.2 := by
  cases o with
  | asked =>
    cases hp : e.pool? node with
    | none =>
      simp only [advance, hp]
      exact .refused (.inl rfl)
    | some p =>
      cases hs : e.session? context with
      | none =>
        simp only [advance, hp, hs]
        exact .admitted hs
      | some t =>
        simp only [advance, hp, hs]
        exact .refused (.inr ⟨rfl, t, hs⟩)
  | admitted =>
    cases hp : e.pool? node with
    | none =>
      simp only [advance, hp]
      exact .missed
    | some p =>
      rcases hb : p.borrow N w with ⟨r, p', w'⟩
      obtain ⟨c, rfl, hc⟩ | ⟨f?, rfl, hu⟩ :=
        Pool.borrow_cases (show e.pools.find? node.id = some p from hp) hb
      · simp only [advance, hp, hb]
        exact .lent hc
      · cases f? <;> simp only [advance, hp, hb, Outcome.without] <;> exact .unlent hu
  | holding c =>
    cases hs : e.session? context with
    | none =>
      simp only [advance, bind, hs]
      exact .pinned hs
    | some t =>
      simp only [advance, bind, hs]
      exact .returned hs
  | done r => exact .ended

/-- An opening that fails with a connection in hand gives the connection back. -/
theorem Advances.release {context : Nat} {node : Node} {c : Connection} {f : Fault} {e e' : Executor}
    {w w' : Wire σ} (h : Advances N context node (.holding c) e w (.done (.failed f)) e' w') :
    e' = (e.release N c w).1 ∧ w' = (e.release N c w).2 := by
  cases h
  exact ⟨rfl, rfl⟩

theorem Advances.done {context : Nat} {node : Node} {r : Outcome SessionHandle} {o : Opening}
    {e e' : Executor} {w w' : Wire σ} (h : Advances N context node (.done r) e w o e' w') :
    o = .done r := by
  cases h
  rfl

theorem Advances.sessions {context other : Nat} {node : Node} {o o' : Opening} {e e' : Executor}
    {w w' : Wire σ} (h : Advances N context node o e w o' e' w') (ho : ∀ h, o' ≠ .done (.ok h)) :
    e'.session? other = e.session? other := by
  cases h with
  | unlent hu => cases hu <;> rfl
  | lent hl => rw [session?, hl.sessions, session?]
  | returned => exact session?_giveBack
  | pinned => exact absurd rfl (ho _)
  | _ => rfl

/-- How many steps an opening has before it at most. -/
def Opening.ahead : Opening → Nat
  | asked => 3
  | admitted => 2
  | holding _ => 1
  | done _ => 0

theorem Opening.done_of_ahead {o : Opening} (h : o.ahead = 0) : ∃ r, o = done r := by
  cases o with
  | done r => exact ⟨r, rfl⟩
  | _ => cases h

theorem Advances.ahead {context : Nat} {node : Node} {o o' : Opening} {e e' : Executor}
    {w w' : Wire σ} (h : Advances N context node o e w o' e' w') : o'.ahead ≤ o.ahead - 1 := by
  cases h <;> simp [Opening.ahead]

end Executor

/-! ### Several openings under way -/

/-- One of several openings. -/
structure Attempt where
  context : Nat
  node : Node
  stage : Executor.Opening := .asked
  /-- The connection that it borrowed, once it has. -/
  borrowed : Option Connection := none

namespace Attempt

/-- The attempt after its next step. -/
def moved (a : Attempt) (o : Executor.Opening) : Attempt :=
  { a with
    stage := o
    borrowed := match o with
      | .holding c => some c
      | _ => a.borrowed }

/-- Whether the attempt has a connection to a node in hand. -/
def holds (a : Attempt) (id : String) : Bool :=
  match a.stage with
  | .holding c => c.node = id
  | _ => false

/-- Whether the attempt has come to its end. -/
def Finished (a : Attempt) : Prop := ∃ r, a.stage = .done r

@[simp] theorem moved_stage (a : Attempt) (o : Executor.Opening) : (a.moved o).stage = o := rfl

/-- An attempt at its end stays as it is. -/
theorem moved_over {a : Attempt} {r : Outcome SessionHandle} (h : a.stage = .done r) :
    a.moved (.done r) = a := by
  simp [moved, ← h]

end Attempt

/-- Openings under way at the same time, with the executor and the wire that they work on. -/
structure Openings (σ : Type) where
  executor : Executor
  wire : Wire σ
  attempts : List Attempt

/-- What happens next. -/
inductive Turn (σ : Type) where
  /-- The opening with a number takes its next step. -/
  | advance (i : Nat)
  /-- The network and the time change by themselves. -/
  | meanwhile (net : σ) (clock : Nat) (deadline : Option Nat)

/-- Whether the opening with a number takes a step. -/
def Turn.advances (i : Nat) : Turn σ → Bool
  | advance j => i = j
  | meanwhile .. => false

namespace Openings

/-- Openings for contexts on nodes, none of which has taken a step. -/
def start (s : Scene σ) (calls : List (Nat × Node)) : Openings σ :=
  ⟨s.executor, s.wire, calls.map fun (context, node) => { context, node }⟩

/-- The openings after one of them took a step. -/
def advance (N : Network σ) (r : Openings σ) (i : Nat) : Openings σ :=
  match r.attempts[i]? with
  | none => r
  | some a =>
    let (o, e, w) := a.stage.advance N a.context a.node r.executor r.wire
    ⟨e, w, r.attempts.set i (a.moved o)⟩

/-- The openings after a turn. -/
def after (N : Network σ) (r : Openings σ) : Turn σ → Openings σ
  | .advance i => r.advance N i
  | .meanwhile net clock deadline => { r with wire := { r.wire with net, clock, deadline } }

/-- The openings after some turns. -/
def run (N : Network σ) (r : Openings σ) (turns : List (Turn σ)) : Openings σ :=
  turns.foldl (after N) r

/-- How many connections to a node openings have in hand. -/
def holdings (r : Openings σ) (id : String) : Nat := r.attempts.countP (·.holds id)

/-- Whether the opening with a number opened the session of a context. -/
def Wins (r : Openings σ) (i context : Nat) : Prop :=
  ∃ a h, r.attempts[i]? = some a ∧ a.context = context ∧ a.stage = .done (.ok h)

theorem run_concat (r : Openings σ) (turns : List (Turn σ)) (t : Turn σ) :
    r.run N (turns ++ [t]) = (r.run N turns).after N t := by
  simp [run, List.foldl_append]

/-- A step of an opening changes that opening only, and goes one of the ways of a step. -/
theorem advance_cases (r : Openings σ) (i : Nat) :
    (r.attempts[i]? = none ∧ r.advance N i = r) ∨
    ∃ a o, r.attempts[i]? = some a ∧ (r.advance N i).attempts = r.attempts.set i (a.moved o) ∧
      Executor.Advances N a.context a.node a.stage r.executor r.wire o (r.advance N i).executor
        (r.advance N i).wire := by
  cases ha : r.attempts[i]? with
  | none => exact .inl ⟨rfl, by simp only [advance, ha]⟩
  | some a =>
    have hstep := Executor.Opening.advance_advances (N := N) a.context a.node a.stage r.executor r.wire
    rcases ho : a.stage.advance N a.context a.node r.executor r.wire with ⟨o, e, w⟩
    rw [ho] at hstep
    exact .inr ⟨a, o, rfl, by simp only [advance, ha, ho], by simpa only [advance, ha, ho] using hstep⟩

/-! ### Attempts in the list of all -/

section

variable {attempts : List Attempt} {i j : Nat} {a b : Attempt}

theorem getElem?_set_cases (ha : attempts[i]? = some a) {a' : Attempt}
    (h : (attempts.set i a')[j]? = some b) : j = i ∧ b = a' ∨ j ≠ i ∧ attempts[j]? = some b := by
  obtain ⟨hi, -⟩ := List.getElem?_eq_some_iff.1 ha
  by_cases hij : j = i
  · rw [hij, List.getElem?_set_self hi] at h
    exact .inl ⟨hij, (Option.some.inj h).symm⟩
  · rw [List.getElem?_set_ne (Ne.symm hij)] at h
    exact .inr ⟨hij, h⟩

theorem set_same (ha : attempts[i]? = some a) : attempts.set i a = attempts := by
  obtain ⟨hi, rfl⟩ := List.getElem?_eq_some_iff.1 ha
  exact List.set_getElem_self hi

theorem countP_set_add (ha : attempts[i]? = some a) (a' : Attempt) (p : Attempt → Bool) :
    (attempts.set i a').countP p + (if p a then 1 else 0) =
      attempts.countP p + if p a' then 1 else 0 := by
  obtain ⟨hi, rfl⟩ := List.getElem?_eq_some_iff.1 ha
  have hle := List.boole_getElem_le_countP (p := p) hi
  rw [List.countP_set hi]
  omega

end

end Openings

/-! ### Pools while openings are under way -/

namespace Executor

variable {e e' : Executor} {w w' : Wire σ}

/-- How many connections to a node count as lent. -/
def activeAt (e : Executor) (id : String) : Nat := (e.pools.find? id).elim 0 (·.active)

theorem activeAt_setPool (e : Executor) (id other : String) (q : Pool) :
    (e.setPool id q).activeAt other = if other = id then q.active else e.activeAt other := by
  rw [activeAt, find?_setPool]
  split <;> rfl

theorem activeAt_of_find? {id : String} {p : Pool} (hp : e.pools.find? id = some p) :
    e.activeAt id = p.active := by
  rw [activeAt, hp, Option.elim_some]

theorem activeAt_unlent {id other : String} {f? : Option Fault} (h : Unlent N id e w f? e' w') :
    e'.activeAt other = e.activeAt other := by
  obtain ⟨p, hp, rfl, -⟩ := h.quiet
  rw [activeAt_setPool]
  split
  · rw [‹other = id›, activeAt_of_find? hp]
  · rfl

theorem activeAt_lend {id : String} {c : Connection} (h : Lends N id e w c e' w') (other : String) :
    e'.activeAt other = e.activeAt other + if other = id then 1 else 0 := by
  cases h with
  | kept hp | made hp =>
    rw [activeAt_setPool]
    split
    · rw [‹other = id›, activeAt_of_find? hp]
      rfl
    · rfl

theorem activeAt_settle {c : Connection} {v : Verdict} (h : Settles N c e w v e' w')
    (hc : c.lent = true) (other : String) :
    e'.activeAt other = e.activeAt other - if other = c.node then 1 else 0 := by
  have hforget (p : Pool) : (p.forget c).active = p.active - 1 := by
    simp [Pool.forget, hc, Pool.unclaim]
  cases h with
  | kept hp | surplus hp | evicted hp | lost hp =>
    rw [activeAt_setPool]
    split
    · rw [‹other = c.node›, activeAt_of_find? hp]
      exact hforget _
    · rfl

end Executor

namespace Openings

/-- Every connection in use is accounted for: pools count as lent what sessions and openings hold. -/
structure Counted (r : Openings σ) : Prop where
  housed : r.executor.Housed
  held : ∀ a ∈ r.attempts, ∀ c, a.stage = .holding c →
    c.node = a.node.id ∧ c.lent = true ∧ ∃ p, r.executor.pools.find? c.node = some p
  active : ∀ id, r.executor.activeAt id = r.executor.sessionsOn id + r.holdings id

theorem counted_start {s : Scene σ} (hs : s.executor.Accounted s.wire none)
    (calls : List (Nat × Node)) : (start s calls).Counted where
  housed := hs.housed
  held a ha c hc := by
    obtain ⟨⟨context, node⟩, -, rfl⟩ := List.mem_map.1 ha
    cases hc
  active id := by
    have hnone : (start s calls).holdings id = 0 := by
      refine List.countP_eq_zero.2 fun a ha => ?_
      obtain ⟨⟨context, node⟩, -, rfl⟩ := List.mem_map.1 ha
      simp [Attempt.holds]
    have hactive : s.executor.activeAt id = s.executor.sessionsOn id := by
      cases hp : s.executor.pools.find? id with
      | some p =>
        have := hs.active id p hp
        rw [Executor.activeAt_of_find? hp]
        simpa using this
      | none =>
        -- A session on a node that has no pool would have no connection.
        have hzero : s.executor.sessionsOn id = 0 := by
          refine List.countP_eq_zero.2 fun ⟨context, t⟩ ht hid => ?_
          obtain ⟨c, -, hn, hl⟩ := hs.pinned context t (Table.find?_eq_some_iff.2 ht)
          obtain ⟨p, hp'⟩ := hl.pool
          rw [hn, of_decide_eq_true hid, hp] at hp'
          cases hp'
        rw [hzero, Executor.activeAt, hp, Option.elim_none]
    rw [hnone]
    exact hactive

/-- A step of one opening, which takes a connection in hand or gives one up as pools and sessions do. -/
theorem Counted.of_step {r r' : Openings σ} {i : Nat} {a a' : Attempt} (h : r.Counted)
    (ha : r.attempts[i]? = some a) (hset : r'.attempts = r.attempts.set i a')
    (housed : r'.executor.Housed) (hpools : r.executor.pools.Covers r'.executor.pools)
    (hheld : ∀ c, a'.stage = .holding c →
      c.node = a'.node.id ∧ c.lent = true ∧ ∃ p, r'.executor.pools.find? c.node = some p)
    (hactive : ∀ id, r'.executor.activeAt id + r.executor.sessionsOn id + (if a.holds id then 1 else 0) =
      r.executor.activeAt id + r'.executor.sessionsOn id + (if a'.holds id then 1 else 0)) :
    r'.Counted where
  housed := housed
  held b hb c hc := by
    rw [hset] at hb
    rcases List.mem_or_eq_of_mem_set hb with hb | rfl
    · obtain ⟨hn, hl, hp⟩ := h.held b hb c hc
      exact ⟨hn, hl, hpools _ hp⟩
    · exact hheld c hc
  active id := by
    have hold := h.active id
    have hnew := hactive id
    have hcount := countP_set_add ha a' (·.holds id)
    simp only [holdings, hset] at hold ⊢
    omega

theorem Counted.step {r r' : Openings σ} {i : Nat} {a : Attempt} {o o' : Executor.Opening}
    (h : r.Counted) (ha : r.attempts[i]? = some a) (ho : a.stage = o)
    (hset : r'.attempts = r.attempts.set i (a.moved o'))
    (hstep : Executor.Advances N a.context a.node o r.executor r.wire o' r'.executor r'.wire) :
    r'.Counted := by
  have hmem := List.mem_of_getElem? ha
  obtain ⟨e, w, attempts⟩ := r
  obtain ⟨e', w', attempts'⟩ := r'
  simp only at hstep
  cases hstep with
  | refused | admitted | missed | ended =>
    exact h.of_step ha hset h.housed (fun _ hp => hp) (by simp [Attempt.moved])
      (by simp [Attempt.moved, Attempt.holds, ho])
  | unlent hu =>
    refine h.of_step ha hset (h.housed.unlent hu) (Executor.equips_unlent hu).covers
      (by simp [Attempt.moved]) fun id => ?_
    have hsessions : e'.sessionsOn id = e.sessionsOn id := by cases hu <;> rfl
    simp [Executor.activeAt_unlent hu, hsessions, Attempt.moved, Attempt.holds, ho]
  | @lent _ _ c _ _ hl =>
    obtain ⟨hn, hlent, p, rfl⟩ := hl.pool h.housed
    refine h.of_step ha hset (h.housed.lend hl) (Executor.equips_lend hl).covers ?_ fun id => ?_
    · rintro d hd
      cases hd
      exact ⟨hn, hlent, by simp [hn]⟩
    · have hactive := Executor.activeAt_lend hl id
      simp only [Attempt.holds, Attempt.moved, ho, hn, Executor.sessionsOn_setPool, hactive,
        decide_eq_true_eq, Bool.false_eq_true, if_false, eq_comm (a := id)]
      omega
  | @returned _ _ c t taken =>
    obtain ⟨hn, hlent, p, hp⟩ := h.held a hmem c ho
    have hs := Executor.release_settles (N := N) (w := w) hp
    refine h.of_step ha hset (h.housed.settle hs) (Executor.equips_settle hs).covers
      (by simp [Attempt.moved]) fun id => ?_
    have hactive := Executor.activeAt_settle hs hlent id
    have hsessions : (e.release N c w).1.sessionsOn id = e.sessionsOn id := by
      rw [Executor.sessionsOn, hs.sessions, Executor.sessionsOn]
    -- The opening itself has a connection to the node in hand, so that one counts as lent there.
    have hheld := h.active id
    have hcount := countP_set_add ha (a.moved (.done (.failed (.session (.alreadyOpen a.context)))))
      (·.holds id)
    simp only [Attempt.holds, Attempt.moved, ho, decide_eq_true_eq, Bool.false_eq_true,
      if_false, hsessions, hactive, eq_comm (a := id), holdings] at hcount hheld ⊢
    omega
  | @pinned _ _ c free =>
    obtain ⟨hn, -, p, hp⟩ := h.held a hmem c ho
    refine h.of_step ha hset (h.housed.setSession rfl hp) (fun _ hp => hp) (by simp [Attempt.moved])
      fun id => ?_
    have hactive : (e.setSession a.context { node := a.node, connection := some c }).activeAt id =
        e.activeAt id := rfl
    rw [Executor.sessionsOn_setSession free, hactive]
    simp only [Attempt.holds, Attempt.moved, ho, hn, decide_eq_true_eq, Bool.false_eq_true, if_false]
    omega

/-! ### Who opens a session -/

/-- What became of openings, where `e` is the executor before them all. -/
structure Decided (e : Executor) (r : Openings σ) : Prop where
  kept : ∀ context t, e.session? context = some t → r.executor.session? context = some t
  unborrowed : ∀ a ∈ r.attempts, a.stage = .asked ∨ a.stage = .admitted → a.borrowed = none
  borrowed : ∀ a ∈ r.attempts, ∀ c, a.stage = .holding c → a.borrowed = some c
  won : ∀ a ∈ r.attempts, ∀ h, a.stage = .done (.ok h) →
    h = ⟨a.context, a.node.id⟩ ∧ e.session? a.context = none ∧ ∃ c, a.borrowed = some c ∧
      r.executor.session? a.context = some { node := a.node, connection := some c }
  lost : ∀ a ∈ r.attempts, ∀ q, a.stage = .done q → a.borrowed ≠ none → q.isOk = false →
    q = .failed (.session (.alreadyOpen a.context)) ∧ ∃ t, r.executor.session? a.context = some t
  opened : ∀ context t, e.session? context = none → r.executor.session? context = some t →
    ∃ i, r.Wins i context
  single : ∀ context i j, r.Wins i context → r.Wins j context → i = j

theorem decided_start (s : Scene σ) (calls : List (Nat × Node)) :
    (start s calls).Decided s.executor := by
  have hasked : ∀ a ∈ (start s calls).attempts, a.stage = .asked ∧ a.borrowed = none := by
    intro a ha
    obtain ⟨⟨context, node⟩, -, rfl⟩ := List.mem_map.1 ha
    exact ⟨rfl, rfl⟩
  have hwins (i context : Nat) : ¬ (start s calls).Wins i context := by
    rintro ⟨a, h, ha, -, hstage⟩
    cases hstage.symm.trans (hasked a (List.mem_of_getElem? ha)).1
  refine ⟨fun _ _ ht => ht, fun a ha _ => (hasked a ha).2, ?_, ?_, ?_, ?_, ?_⟩
  · intro a ha c hc
    cases hc.symm.trans (hasked a ha).1
  · intro a ha h hstage
    cases hstage.symm.trans (hasked a ha).1
  · intro a ha q hstage
    cases hstage.symm.trans (hasked a ha).1
  · intro context t hnone ht
    cases hnone.symm.trans ht
  · exact fun context i j h => absurd h (hwins i context)

theorem wins_set {r r' : Openings σ} {i j context : Nat} {a a' : Attempt}
    (ha : r.attempts[i]? = some a) (hset : r'.attempts = r.attempts.set i a') :
    r'.Wins j context ↔
      j ≠ i ∧ r.Wins j context ∨ j = i ∧ a'.context = context ∧ ∃ h, a'.stage = .done (.ok h) := by
  constructor
  · rintro ⟨b, h, hb, hcontext, hstage⟩
    rw [hset] at hb
    rcases getElem?_set_cases ha hb with ⟨rfl, rfl⟩ | ⟨hne, hb⟩
    · exact .inr ⟨rfl, hcontext, h, hstage⟩
    · exact .inl ⟨hne, b, h, hb, hcontext, hstage⟩
  · rintro (⟨hne, b, h, hb, hcontext, hstage⟩ | ⟨rfl, hcontext, h, hstage⟩)
    · exact ⟨b, h, by rw [hset, List.getElem?_set_ne (Ne.symm hne), hb], hcontext, hstage⟩
    · have hi := (List.getElem?_eq_some_iff.1 ha).1
      exact ⟨a', h, by rw [hset, List.getElem?_set_self hi], hcontext, hstage⟩

/-- A step that opens no session. -/
theorem Decided.of_quiet {e : Executor} {r r' : Openings σ} {i : Nat} {a : Attempt}
    {o : Executor.Opening} (h : r.Decided e) (ha : r.attempts[i]? = some a)
    (hset : r'.attempts = r.attempts.set i (a.moved o))
    (hsessions : ∀ context, r'.executor.session? context = r.executor.session? context)
    (hold : ∀ q, a.stage ≠ .done q) (hnew : ∀ t, o ≠ .done (.ok t)) (hasked : o ≠ .asked)
    (hadmitted : o = .admitted → a.borrowed = none)
    (hlost : ∀ q, o = .done q → a.borrowed ≠ none →
      q = .failed (.session (.alreadyOpen a.context)) ∧
        ∃ t, r.executor.session? a.context = some t) : r'.Decided e := by
  have hmem {b : Attempt} (hb : b ∈ r'.attempts) : b ∈ r.attempts ∨ b = a.moved o :=
    List.mem_or_eq_of_mem_set (hset ▸ hb)
  have hwins (j context : Nat) : r'.Wins j context ↔ r.Wins j context := by
    rw [wins_set ha hset]
    constructor
    · rintro (⟨-, hw⟩ | ⟨-, -, t, ht⟩)
      · exact hw
      · exact absurd ht (hnew t)
    · rintro ⟨b, t, hb, hcontext, ht⟩
      refine .inl ⟨?_, b, t, hb, hcontext, ht⟩
      rintro rfl
      cases ha.symm.trans hb
      exact hold _ ht
  refine ⟨?_, ?_, ?_, ?_, ?_, ?_, ?_⟩
  · intro context t ht
    rw [hsessions]
    exact h.kept context t ht
  · intro b hb hstage
    rcases hmem hb with hb | rfl
    · exact h.unborrowed b hb hstage
    · rcases hstage with hstage | hstage
      · exact absurd hstage hasked
      · have ho : o = .admitted := hstage
        subst ho
        exact hadmitted rfl
  · intro b hb c hc
    rcases hmem hb with hb | rfl
    · exact h.borrowed b hb c hc
    · have ho : o = .holding c := hc
      rw [ho, Attempt.moved]
  · intro b hb t ht
    rcases hmem hb with hb | rfl
    · rw [hsessions]
      exact h.won b hb t ht
    · exact absurd ht (hnew t)
  · intro b hb q hq hborrowed hfail
    rw [hsessions]
    rcases hmem hb with hb | rfl
    · exact h.lost b hb q hq hborrowed hfail
    · have ho : o = .done q := hq
      subst ho
      exact hlost q rfl hborrowed
  · intro context t hnone ht
    rw [hsessions] at ht
    obtain ⟨j, hj⟩ := h.opened context t hnone ht
    exact ⟨j, (hwins j context).2 hj⟩
  · intro context j k hj hk
    exact h.single context j k ((hwins j context).1 hj) ((hwins k context).1 hk)

/-- The step that opens the session of a context that had none. -/
theorem Decided.of_pinned {e : Executor} {r r' : Openings σ} {i : Nat} {a : Attempt}
    {c : Connection} (h : r.Decided e) (ha : r.attempts[i]? = some a) (hc : a.stage = .holding c)
    (hset : r'.attempts = r.attempts.set i (a.moved (.done (.ok ⟨a.context, a.node.id⟩))))
    (free : r.executor.session? a.context = none)
    (hpin : r'.executor =
      r.executor.setSession a.context { node := a.node, connection := some c }) :
    r'.Decided e := by
  have hmem {b : Attempt} (hb : b ∈ r'.attempts) :
      b ∈ r.attempts ∨ b = a.moved (.done (.ok ⟨a.context, a.node.id⟩)) :=
    List.mem_or_eq_of_mem_set (hset ▸ hb)
  have hborrowed := h.borrowed a (List.mem_of_getElem? ha) c hc
  have hself : r'.executor.session? a.context = some { node := a.node, connection := some c } := by
    rw [hpin, Executor.session?_setSession_self]
  have hother {context : Nat} {t : Session} (ht : r.executor.session? context = some t) :
      r'.executor.session? context = some t := by
    rw [hpin, Executor.session?_setSession, if_neg, ht]
    rintro rfl
    cases free.symm.trans ht
  have hfree : e.session? a.context = none := by
    cases ht : e.session? a.context with
    | none => rfl
    | some t => cases free.symm.trans (h.kept _ t ht)
  -- Whoever won the context before would have left it bound.
  have hnone (j : Nat) : ¬ r.Wins j a.context := by
    rintro ⟨b, t, hb, hcontext, ht⟩
    obtain ⟨-, -, d, -, hs⟩ := h.won b (List.mem_of_getElem? hb) t ht
    rw [hcontext, free] at hs
    cases hs
  have hwins (j context : Nat) :
      r'.Wins j context ↔ j ≠ i ∧ r.Wins j context ∨ j = i ∧ a.context = context := by
    rw [wins_set ha hset]
    refine or_congr_right (and_congr_right fun _ => and_iff_left ?_)
    exact ⟨_, rfl⟩
  refine ⟨fun context t ht => hother (h.kept context t ht), ?_, ?_, ?_, ?_, ?_, ?_⟩
  · intro b hb hstage
    rcases hmem hb with hb | rfl
    · exact h.unborrowed b hb hstage
    · rcases hstage with hstage | hstage <;> cases hstage
  · intro b hb d hd
    rcases hmem hb with hb | rfl
    · exact h.borrowed b hb d hd
    · cases hd
  · intro b hb t ht
    rcases hmem hb with hb | rfl
    · obtain ⟨heq, hnone, d, hd, hs⟩ := h.won b hb t ht
      exact ⟨heq, hnone, d, hd, hother hs⟩
    · cases ht
      exact ⟨rfl, hfree, c, hborrowed, hself⟩
  · intro b hb q hq hb' hfail
    rcases hmem hb with hb | rfl
    · obtain ⟨heq, t, ht⟩ := h.lost b hb q hq hb' hfail
      exact ⟨heq, t, hother ht⟩
    · cases hq
      cases hfail
  · intro context t hnone ht
    by_cases hcontext : a.context = context
    · exact ⟨i, (hwins i context).2 (.inr ⟨rfl, hcontext⟩)⟩
    · rw [hpin, Executor.session?_setSession, if_neg (Ne.symm hcontext)] at ht
      obtain ⟨j, hj⟩ := h.opened context t hnone ht
      refine ⟨j, (hwins j context).2 (.inl ⟨?_, hj⟩)⟩
      rintro rfl
      obtain ⟨b, q, hb, hcontext', -⟩ := hj
      cases ha.symm.trans hb
      exact hcontext hcontext'
  · intro context j k hj hk
    rcases (hwins j context).1 hj with ⟨-, hj⟩ | ⟨rfl, hcontext⟩ <;>
      rcases (hwins k context).1 hk with ⟨-, hk⟩ | ⟨rfl, hcontext'⟩
    · exact h.single context j k hj hk
    · exact absurd (hcontext' ▸ hj) (hnone j)
    · exact absurd (hcontext ▸ hk) (hnone k)
    · rfl

theorem Decided.step {e : Executor} {r r' : Openings σ} {i : Nat} {a : Attempt}
    {o o' : Executor.Opening} (h : r.Decided e) (ha : r.attempts[i]? = some a) (ho : a.stage = o)
    (hset : r'.attempts = r.attempts.set i (a.moved o'))
    (hstep : Executor.Advances N a.context a.node o r.executor r.wire o' r'.executor r'.wire) :
    r'.Decided e := by
  have hmem := List.mem_of_getElem? ha
  have hquiet (hnew : ∀ t, o' ≠ .done (.ok t)) (hold : ∀ q, o ≠ .done q) (hasked : o' ≠ .asked)
      (hadmitted : o' = .admitted → a.borrowed = none)
      (hlost : ∀ q, o' = .done q → a.borrowed ≠ none →
        q = .failed (.session (.alreadyOpen a.context)) ∧
          ∃ t, r.executor.session? a.context = some t) : r'.Decided e :=
    h.of_quiet ha hset (fun _ => hstep.sessions hnew) (fun q hq => hold q (ho.symm.trans hq)) hnew
      hasked hadmitted hlost
  have hasked : a.stage = .asked → a.borrowed = none := fun hs => h.unborrowed a hmem (.inl hs)
  have hadmitted : a.stage = .admitted → a.borrowed = none := fun hs => h.unborrowed a hmem (.inr hs)
  obtain ⟨e₁, w₁, attempts⟩ := r
  obtain ⟨e₂, w₂, attempts'⟩ := r'
  simp only at hstep hquiet
  cases hstep with
  | refused | admitted =>
    exact hquiet (by simp) (by simp) (by simp) (by simp [hasked ho]) (by simp [hasked ho])
  | missed | lent => exact hquiet (by simp) (by simp) (by simp) (by simp) (by simp [hadmitted ho])
  | @unlent _ _ f? =>
    have hfail (t : SessionHandle) : (Outcome.without f? : Outcome SessionHandle) ≠ .ok t := by
      cases f? <;> simp [Outcome.without]
    exact hquiet (by simpa using hfail) (by simp) (by simp) (by simp) (by simp [hadmitted ho])
  | returned taken =>
    refine hquiet (by simp) (by simp) (by simp) (by simp) fun q hq _ => ?_
    cases hq
    exact ⟨rfl, _, taken⟩
  | pinned free => exact h.of_pinned ha ho hset free rfl
  | ended =>
    rw [Attempt.moved_over ho, set_same ha] at hset
    cases hset
    exact ⟨h.kept, h.unborrowed, h.borrowed, h.won, h.lost, h.opened, h.single⟩

/-- A finished opening that borrowed a connection opened the session, or found that there is one. -/
theorem Decided.ends {e : Executor} {r : Openings σ} {a : Attempt} (h : r.Decided e)
    (ha : a ∈ r.attempts) (hc : a.borrowed ≠ none) (hfinished : a.Finished) :
    (∃ t, a.stage = .done (.ok t)) ∨ a.stage = .done (.failed (.session (.alreadyOpen a.context))) ∧
      ∃ t, r.executor.session? a.context = some t := by
  obtain ⟨q, hq⟩ := hfinished
  cases hok : q.isOk with
  | true =>
    cases q with
    | ok t => exact .inl ⟨t, hq⟩
    | _ => cases hok
  | false =>
    obtain ⟨rfl, ht⟩ := h.lost a ha q hq hc hok
    exact .inr ⟨hq, ht⟩

theorem Decided.one {e : Executor} {r : Openings σ} {context : Nat} (h : r.Decided e)
    (hnone : e.session? context = none)
    (hfinished : ∀ a ∈ r.attempts, a.context = context → a.Finished)
    (hborrowed : ∃ a ∈ r.attempts, a.context = context ∧ a.borrowed ≠ none) :
    ∃! i, r.Wins i context := by
  obtain ⟨a, ha, rfl, hc⟩ := hborrowed
  have hwinner : ∃ i, r.Wins i a.context := by
    rcases h.ends ha hc (hfinished a ha rfl) with ⟨t, ht⟩ | ⟨-, t, ht⟩
    · obtain ⟨i, hi⟩ := List.getElem?_of_mem ha
      exact ⟨i, a, t, hi, rfl, ht⟩
    · exact h.opened a.context t hnone ht
  obtain ⟨i, hi⟩ := hwinner
  exact ⟨i, hi, fun j hj => h.single a.context j i hj hi⟩

/-! ### Every run -/

/-- Whether the opening with a number gave a connection back that it had in hand: the pool kept it, or
closed it because enough are kept, and counts it no more. -/
def GivesBack (N : Network σ) (r : Openings σ) (turns : List (Turn σ)) (i : Nat) (c : Connection) :
    Prop :=
  ∃ before, before ++ [.advance i] <+: turns ∧
    (∃ a, (r.run N before).attempts[i]? = some a ∧ a.stage = .holding c) ∧
    Settles N c (r.run N before).executor (r.run N before).wire .sound
      (r.run N (before ++ [.advance i])).executor (r.run N (before ++ [.advance i])).wire

theorem counted_run {s : Scene σ} (hs : s.executor.Accounted s.wire none) (calls : List (Nat × Node))
    (turns : List (Turn σ)) :
    ((start s calls).run N turns).Counted ∧ ((start s calls).run N turns).Decided s.executor := by
  induction turns using List.reverseRecOn with
  | nil => exact ⟨counted_start hs calls, decided_start s calls⟩
  | append_singleton turns t ih =>
    obtain ⟨hc, hd⟩ := ih
    rw [run_concat]
    cases t with
    | meanwhile =>
      exact ⟨⟨hc.housed, hc.held, hc.active⟩,
        ⟨hd.kept, hd.unborrowed, hd.borrowed, hd.won, hd.lost, hd.opened, hd.single⟩⟩
    | advance i =>
      rcases ((start s calls).run N turns).advance_cases (N := N) i with
        ⟨-, heq⟩ | ⟨a, o, ha, hset, hstep⟩
      · rw [after, heq]
        exact ⟨hc, hd⟩
      · exact ⟨hc.step ha rfl hset hstep, hd.step ha rfl hset hstep⟩

theorem calls_run (s : Scene σ) (calls : List (Nat × Node)) (turns : List (Turn σ)) (i : Nat) :
    (((start s calls).run N turns).attempts[i]?).map (fun a => (a.context, a.node)) = calls[i]? := by
  induction turns using List.reverseRecOn with
  | nil =>
    simp [run, start, Function.comp_def]
  | append_singleton turns t ih =>
    rw [run_concat, ← ih]
    cases t with
    | meanwhile => rfl
    | advance j =>
      rcases ((start s calls).run N turns).advance_cases (N := N) j with ⟨-, heq⟩ | ⟨a, o, ha, hset, -⟩
      · rw [after, heq]
      · rw [after, hset]
        by_cases hij : i = j
        · subst hij
          rw [List.getElem?_set_self (List.getElem?_eq_some_iff.1 ha).1, ha]
          rfl
        · rw [List.getElem?_set_ne (Ne.symm hij)]

/-- Three steps bring an opening to its end. -/
theorem ahead_run (s : Scene σ) (calls : List (Nat × Node)) (turns : List (Turn σ)) {i : Nat}
    {a : Attempt} (ha : ((start s calls).run N turns).attempts[i]? = some a) :
    a.stage.ahead ≤ 3 - turns.countP (·.advances i) := by
  induction turns using List.reverseRecOn generalizing a with
  | nil =>
    have := List.mem_of_getElem? ha
    obtain ⟨⟨context, node⟩, -, rfl⟩ := List.mem_map.1 this
    exact Nat.le_refl _
  | append_singleton turns t ih =>
    rw [run_concat] at ha
    rw [List.countP_append, List.countP_singleton]
    cases t with
    | meanwhile => exact ih ha
    | advance j =>
      rcases ((start s calls).run N turns).advance_cases (N := N) j with
        ⟨hnone, heq⟩ | ⟨b, o, hb, hset, hstep⟩
      · rw [after, heq] at ha
        have hij : i ≠ j := by
          rintro rfl
          cases hnone.symm.trans ha
        simpa [Turn.advances, hij] using ih ha
      · rw [after, hset] at ha
        rcases getElem?_set_cases hb ha with ⟨rfl, rfl⟩ | ⟨hij, ha⟩
        · have hless := hstep.ahead
          have hbefore := ih hb
          have hone : (Turn.advance i : Turn σ).advances i = true := decide_eq_true rfl
          rw [hone, if_pos rfl, Attempt.moved_stage]
          omega
        · simpa [Turn.advances, hij] using ih ha

theorem givesBack_run {s : Scene σ} (hs : s.executor.Accounted s.wire none) (calls : List (Nat × Node))
    (turns : List (Turn σ)) {i : Nat} {a : Attempt} {c : Connection} {f : Fault}
    (ha : ((start s calls).run N turns).attempts[i]? = some a) (hc : a.borrowed = some c)
    (hf : a.stage = .done (.failed f)) : (start s calls).GivesBack N turns i c := by
  induction turns using List.reverseRecOn generalizing a with
  | nil =>
    obtain ⟨⟨context, node⟩, -, rfl⟩ := List.mem_map.1 (List.mem_of_getElem? ha)
    cases hc
  | append_singleton turns t ih =>
    have hearlier {a : Attempt} (ha : ((start s calls).run N turns).attempts[i]? = some a)
        (hc : a.borrowed = some c) (hf : a.stage = .done (.failed f)) :
        (start s calls).GivesBack N (turns ++ [t]) i c := by
      obtain ⟨before, hpre, hback⟩ := ih ha hc hf
      exact ⟨before, hpre.trans (List.prefix_append _ _), hback⟩
    obtain ⟨hcounted, hdecided⟩ := counted_run (N := N) hs calls turns
    rw [run_concat] at ha
    cases t with
    | meanwhile => exact hearlier ha hc hf
    | advance j =>
      rcases ((start s calls).run N turns).advance_cases (N := N) j with
        ⟨-, heq⟩ | ⟨b, o, hb, hset, hstep⟩
      · rw [after, heq] at ha
        exact hearlier ha hc hf
      · rw [after, hset] at ha
        rcases getElem?_set_cases hb ha with ⟨rfl, rfl⟩ | ⟨-, ha⟩
        · -- The step that brought the opening to its end is the one that gave the connection back.
          have hmem := List.mem_of_getElem? hb
          have ho : o = .done (.failed f) := hf
          subst ho
          generalize hstage : b.stage = stage at hstep
          rcases stage with _ | _ | d | q
          · cases (hdecided.unborrowed b hmem (.inl hstage)).symm.trans hc
          · cases (hdecided.unborrowed b hmem (.inr hstage)).symm.trans hc
          · cases (hdecided.borrowed b hmem d hstage).symm.trans hc
            obtain ⟨-, -, p, hp⟩ := hcounted.held b hmem c hstage
            refine ⟨turns, List.prefix_refl _, ⟨b, hb, hstage⟩, ?_⟩
            obtain ⟨he, hw⟩ := hstep.release
            rw [run_concat, after, he, hw]
            exact Executor.release_settles hp
          · exact hearlier hb hc (hstage.trans hstep.done.symm)
        · exact hearlier ha hc hf

theorem Wins.attempt {r : Openings σ} {i context : Nat} (h : r.Wins i context) :
    ∃ a ∈ r.attempts, r.attempts[i]? = some a ∧ a.context = context ∧ ∃ t, a.stage = .done (.ok t) := by
  obtain ⟨a, t, ha, hcontext, hstage⟩ := h
  exact ⟨a, List.mem_of_getElem? ha, ha, hcontext, t, hstage⟩

/-- What openings come to that are made at the same time, for the calls `calls` and in the order
`turns`. -/
structure Atomic (N : Network σ) (s : Scene σ) (calls : List (Nat × Node)) (turns : List (Turn σ))
    (r : Openings σ) : Prop where
  /-- Each attempt is the call with its number. -/
  made : ∀ i : Nat, (r.attempts[i]?).map (fun a : Attempt => (a.context, a.node)) = calls[i]?
  /-- A call has come to its end after three steps. -/
  ends : ∀ (i : Nat) a, r.attempts[i]? = some a → 3 ≤ turns.countP (·.advances i) → a.Finished
  /-- No context has more than one session. -/
  single : ∀ context, r.executor.sessions.keys.count context ≤ 1
  /-- A session from before stays as it was, and no call opens another in its place. -/
  kept : ∀ context t, s.executor.session? context = some t →
    r.executor.session? context = some t ∧ ∀ i, ¬ r.Wins i context
  /-- A call that succeeds has pinned the connection that it borrowed. -/
  pinned : ∀ a ∈ r.attempts, ∀ h, a.stage = .done (.ok h) → h = ⟨a.context, a.node.id⟩ ∧
    ∃ c, a.borrowed = some c ∧
      r.executor.session? a.context = some { node := a.node, connection := some c }
  /-- Of the calls for a context that had no session, one of which borrowed a connection, exactly one
  succeeds once all of them are finished. -/
  one : ∀ context, s.executor.session? context = none →
    (∀ a ∈ r.attempts, a.context = context → a.Finished) →
    (∃ a ∈ r.attempts, a.context = context ∧ a.borrowed ≠ none) → ∃! i, r.Wins i context
  /-- Every other call that borrowed a connection fails, since there is a session, after it gave its
  connection back. -/
  others : ∀ (i : Nat) a c, r.attempts[i]? = some a → a.borrowed = some c → a.Finished →
    r.Wins i a.context ∨ a.stage = .done (.failed (.session (.alreadyOpen a.context))) ∧
      (start s calls).GivesBack N turns i c
  /-- What a pool counts as lent are the sessions on its node and what calls have in hand of it. -/
  active : ∀ id p, r.executor.pools.find? id = some p →
    p.active = r.executor.sessionsOn id + r.holdings id
  balanced : (∀ a ∈ r.attempts, a.Finished) → ∀ id p, r.executor.pools.find? id = some p →
    p.active = r.executor.sessionsOn id

/-- **Opening a session is atomic**, however many openings are under way at the same time, for whichever
contexts and nodes, and in whatever order they take their steps. -/
theorem opening_atomic (N : Network σ) (nodes : List Node) (net : σ) (moves : List (Move σ))
    (calls : List (Nat × Node)) (turns : List (Turn σ)) :
    Atomic N ((Scene.start nodes net).run N moves) calls turns
      ((start ((Scene.start nodes net).run N moves) calls).run N turns) := by
  have hs := Scene.accounted_run (N := N) nodes net moves
  generalize (Scene.start nodes net).run N moves = s at hs
  obtain ⟨hcounted, hdecided⟩ := counted_run (N := N) hs calls turns
  have hgives {i a c f} := givesBack_run (N := N) hs calls turns (i := i) (a := a) (c := c) (f := f)
  have hahead {i a} := ahead_run (N := N) s calls turns (i := i) (a := a)
  have hcalls := calls_run (N := N) s calls turns
  generalize hr : (start s calls).run N turns = r at *
  have hactive : ∀ id p, r.executor.pools.find? id = some p →
      p.active = r.executor.sessionsOn id + r.holdings id := by
    intro id p hp
    rw [← hcounted.active id, Executor.activeAt_of_find? hp]
  refine ⟨hcalls, ?_, ?_, ?_, ?_, ?_, ?_, hactive, ?_⟩
  · intro i a ha hthree
    have hle := hahead ha
    exact Executor.Opening.done_of_ahead (by omega)
  · exact fun context => List.nodup_iff_count_le_one.1 r.executor.sessions.distinct context
  · intro context t ht
    refine ⟨hdecided.kept context t ht, fun i hi => ?_⟩
    obtain ⟨a, ha, -, rfl, q, hq⟩ := hi.attempt
    obtain ⟨-, hnone, -⟩ := hdecided.won a ha q hq
    cases hnone.symm.trans ht
  · intro a ha h hstage
    obtain ⟨heq, -, hc⟩ := hdecided.won a ha h hstage
    exact ⟨heq, hc⟩
  · exact fun context hnone hfinished hc => hdecided.one hnone hfinished hc
  · intro i a c ha hc hfinished
    have hmem := List.mem_of_getElem? ha
    rcases hdecided.ends hmem (by simp [hc]) hfinished with ⟨t, ht⟩ | ⟨hf, -⟩
    · exact .inl ⟨a, t, ha, rfl, ht⟩
    · exact .inr ⟨hf, hgives ha hc hf⟩
  · intro hfinished id p hp
    have hnone : r.holdings id = 0 := by
      refine List.countP_eq_zero.2 fun a ha => ?_
      obtain ⟨q, hq⟩ := hfinished a ha
      simp [Attempt.holds, hq]
    rw [hactive id p hp, hnone, Nat.add_zero]

/-- Two openings for one context look, borrow and pin in turn. Both borrow a connection. -/
theorem one_of_two_wins :
    let node : Node := { host := "a", port := 1 }
    let calls := [(7, node), (7, node)]
    let turns : List (Turn Rehearsal.Stage) :=
      [.advance 0, .advance 1, .advance 0, .advance 1, .advance 0, .advance 1]
    let s := start (Scene.start [node] ({} : Rehearsal.Stage)) calls
    let r := s.run Rehearsal.network turns
    r.attempts.map (fun a => a.borrowed.map (·.link)) = [some 0, some 1] ∧ (∃! i, r.Wins i 7) ∧
      ∀ (i : Nat) a c, r.attempts[i]? = some a → a.borrowed = some c → r.Wins i 7 ∨
        a.stage = .done (.failed (.session (.alreadyOpen 7))) ∧
          s.GivesBack Rehearsal.network turns i c := by
  intro node calls turns s r
  have hatomic : Atomic Rehearsal.network (Scene.start [node] {}) calls turns r :=
    opening_atomic Rehearsal.network [node] {} [] calls turns
  have hborrowed : r.attempts.map (fun a => a.borrowed.map (·.link)) = [some 0, some 1] := by
    decide +kernel
  have hcontexts : ∀ a ∈ r.attempts, a.context = 7 := by decide +kernel
  have hfinished : ∀ a ∈ r.attempts, a.Finished := by
    have hahead : ∀ a ∈ r.attempts, a.stage.ahead = 0 := by decide +kernel
    exact fun a ha => Executor.Opening.done_of_ahead (hahead a ha)
  refine ⟨hborrowed, hatomic.one 7 rfl (fun a ha _ => hfinished a ha) ?_, fun i a c ha hc => ?_⟩
  · have hsome : ∃ a ∈ r.attempts, a.borrowed.map (·.link) = some 0 :=
      List.mem_map.1 (hborrowed ▸ List.mem_cons_self)
    obtain ⟨a, ha, hlink⟩ := hsome
    exact ⟨a, ha, hcontexts a ha, fun hnone => by simp [hnone] at hlink⟩
  · have hmem := List.mem_of_getElem? ha
    have hothers := hatomic.others i a c ha hc (hfinished a hmem)
    rwa [hcontexts a hmem] at hothers

end Openings

end ShardFleet
