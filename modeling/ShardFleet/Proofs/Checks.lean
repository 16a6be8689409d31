import ShardFleet.Health

/-!
# The ways of a check

What the check of a node can come to when it is started, and when it is ended at its limit. What is true
of a report of health follows from these ways, for the check of one node first and then for all.
-/

namespace ShardFleet.Health

variable {σ : Type}

/-- What a check finds whose call ends in some way. -/
def verdict : Outcome Resp.Value → Health
  | .ok v => ofReply v
  | .failed f => unhealthy f.message
  | .stalled => timeout

section

variable (N : Network σ) (limit : Nat)

/-- The ways of a check that is started. -/
inductive Starts (node : Node) (e : Executor) (w : Wire σ) : Probe → Executor → Wire σ → Prop where
  | unpooled (none : e.pool? node = none) :
    Starts node e w (.done (unhealthy (Executor.noPool node).message) 0) e w
  | waits {p} (pool : e.pool? node = some p) (full : p.isExhausted = true) : Starts node e w .waiting e w
  /-- There is no time to make a connection. -/
  | hurried (none : limit = 0) : Starts node e w (.done timeout 0) e w
  | attempted {p q r w'} (pool : e.pool? node = some p) (free : p.isExhausted = false)
      (attempt : p.attempt N ping w = (r, q, w')) :
    Starts node e w (.ofOutcome (w'.clock - w.clock) r) (e.setPool node.id q) w'

/-- The ways of checks that are started together, at some moment. -/
inductive StartsAll (moment : Nat) :
    List Node → Executor → Wire σ → List Probe → Executor → Wire σ → Prop where
  | nil {e w} : StartsAll moment [] e w [] e w
  | cons {n ns probe probes e e₁ e₂ w w₁ w₂}
      (first : Starts N limit n e { w with clock := moment } probe e₁ w₁)
      (rest : StartsAll moment ns e₁ { w₁ with clock := max w.clock w₁.clock } probes e₂ w₂) :
    StartsAll moment (n :: ns) e w (probe :: probes) e₂ w₂

/-- The ways of a check that is ended at its limit. -/
inductive Finishes (node : Node) (e : Executor) (w : Wire σ) :
    Probe → NodeHealth → Executor → Wire σ → Prop where
  | done {h took} : Finishes node e w (.done h took) ⟨node, h, took⟩ e w
  | unpooled {probe} (none : e.pool? node = none) : Finishes node e w probe ⟨node, timeout, limit⟩ e w
  /-- Its reply has not come, and it gives its capacity back. -/
  | givenUp {p} (pool : e.pool? node = some p) :
    Finishes node e w .unanswered ⟨node, timeout, limit⟩ (e.setPool node.id p.unclaim) w
  /-- Its wait for capacity had ended before. -/
  | starved {p} (pool : e.pool? node = some p) (short : p.node.limits.maxWait < limit) :
    Finishes node e w .waiting ⟨node, unhealthy p.exhaustion.message, p.node.limits.maxWait⟩ e w
  | inVain {p} (pool : e.pool? node = some p) (long : limit ≤ p.node.limits.maxWait)
      (full : p.isExhausted = true) :
    Finishes node e w .waiting
      ⟨node, if p.node.limits.maxWait = limit then unhealthy p.exhaustion.message else timeout, limit⟩ e w
  /-- There is capacity at last. -/
  | attempted {p q r w'} (pool : e.pool? node = some p) (free : p.isExhausted = false)
      (attempt : p.attempt N ping w = (r, q, w')) :
    Finishes node e w .waiting ⟨node, verdict r, limit⟩
      (e.setPool node.id (if r = .stalled then q.unclaim else q)) w'

/-- The ways of checks that are ended at their limit, one after the other. -/
inductive FinishesAll : List (Node × Probe) → Executor → Wire σ →
    List NodeHealth → Executor → Wire σ → Prop where
  | nil {e w} : FinishesAll [] e w [] e w
  | cons {node probe checks entry entries e e₁ e₂ w w₁ w₂}
      (first : Finishes N limit node e w probe entry e₁ w₁)
      (rest : FinishesAll checks e₁ w₁ entries e₂ w₂) :
    FinishesAll ((node, probe) :: checks) e w (entry :: entries) e₂ w₂

/-- The ways of checks of some nodes that are made together. -/
inductive Checks (nodes : List Node) (e : Executor) (w : Wire σ) :
    Outcome (List NodeHealth) → Executor → Prop where
  /-- They are given up before their limit. -/
  | abandoned {probes e₁ w₁} (early : ∃ d ∈ w.deadline, d < w.clock + limit)
      (starts : StartsAll N limit w.clock nodes e
        { w with deadline := earlier (some (w.clock + limit)) w.deadline } probes e₁ w₁) :
    Checks nodes e w .stalled (abandonAll (nodes.zip probes) e₁)
  | made {probes report e₁ e₂ w₁ w₂}
      (starts : StartsAll N limit w.clock nodes e
        { w with deadline := earlier (some (w.clock + limit)) w.deadline } probes e₁ w₁)
      (finishes : FinishesAll N limit (nodes.zip probes) e₁ w₁ report e₂ w₂) :
    Checks nodes e w (.ok report) e₂

end

variable {N : Network σ} (limit : Nat)

theorem start_ways (node : Node) (e : Executor) (w : Wire σ) :
    Starts N limit node e w (start N limit node e w).1 (start N limit node e w).2.1
      (start N limit node e w).2.2 := by
  unfold start
  split
  · exact .unpooled ‹_›
  · rename_i p hp
    split
    · exact .waits hp ‹_›
    · rename_i hfull
      split
      · rename_i hnow
        have hnow : limit = 0 ∧ p.idle = [] := by simpa using hnow
        exact .hurried hnow.1
      · exact .attempted hp (by simpa using hfull) rfl

theorem startAll_ways (moment : Nat) (nodes : List Node) (e : Executor) (w : Wire σ) :
    StartsAll N limit moment nodes e w (startAll N limit moment nodes e w).1
      (startAll N limit moment nodes e w).2.1 (startAll N limit moment nodes e w).2.2 := by
  induction nodes generalizing e w with
  | nil => exact .nil
  | cons n ns ih => exact .cons (start_ways limit n e _) (ih _ _)

theorem finish_ways (node : Node) (probe : Probe) (e : Executor) (w : Wire σ) :
    Finishes N limit node e w probe (finish N limit node probe e w).1
      (finish N limit node probe e w).2.1 (finish N limit node probe e w).2.2 := by
  unfold finish
  split
  · exact .done
  · exact .unpooled ‹_›
  · exact .givenUp ‹_›
  · exact .unpooled ‹_›
  · rename_i p hp
    dsimp only
    split
    · exact .starved hp ‹_›
    · rename_i hlong
      split
      · exact .inVain hp (Nat.le_of_not_lt hlong) ‹_›
      · rename_i hfull
        have hfree : p.isExhausted = false := by simpa using hfull
        rcases ha : p.attempt N ping w with ⟨v | f | _, q, w'⟩
        · exact .attempted hp hfree ha
        · exact .attempted hp hfree ha
        · exact .attempted hp hfree ha

theorem finishAll_ways (checks : List (Node × Probe)) (e : Executor) (w : Wire σ) :
    FinishesAll N limit checks e w (finishAll N limit checks e w).1
      (finishAll N limit checks e w).2.1 (finishAll N limit checks e w).2.2 := by
  induction checks generalizing e w with
  | nil => exact .nil
  | cons check checks ih => exact .cons (finish_ways limit check.1 check.2 e w) (ih _ _)

theorem checkAll_ways (nodes : List Node) (e : Executor) (w : Wire σ) :
    Checks N limit nodes e w (checkAll N limit nodes e w).1 (checkAll N limit nodes e w).2.1 := by
  have hstarts := startAll_ways (N := N) limit w.clock nodes e
    { w with deadline := earlier (some (w.clock + limit)) w.deadline }
  unfold checkAll
  dsimp only
  split
  · rename_i hearly
    refine .abandoned ?_ hstarts
    cases hd : w.deadline with
    | none => simp [hd] at hearly
    | some d =>
      rw [hd, Option.any_some, Bool.and_eq_true, decide_eq_true_eq] at hearly
      exact ⟨d, rfl, hearly.1⟩
  · exact .made hstarts (finishAll_ways limit _ _ _)

end ShardFleet.Health
