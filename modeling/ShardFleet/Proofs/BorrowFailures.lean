import ShardFleet.Proofs.Lending

/-!
# Borrows that fail

A borrow fails for one of two reasons: all capacity is taken for as long as a caller may wait, or a
connection has to be made and cannot be. To tell the one from the other, whatever fault the network
may raise, it is noted how every attempt to make a link ended. A borrow that fails leaves its pool as
it was.
-/

namespace ShardFleet

variable {σ : Type}

/-! ### Attempts to make links -/

/-- A network with the ends of all attempts to make a link, in order. -/
structure Noted (σ : Type) where
  net : σ
  attempts : List (Outcome Unit) := []

/-- A network on which the ends of attempts to make a link are noted. -/
def Network.noted (N : Network σ) : Network (Noted σ) where
  connect link node now deadline s :=
    match N.connect link node now deadline s.net with
    | (r, t, net) => (r, t, { net, attempts := s.attempts ++ [r] })
  send link c now s :=
    match N.send link c now s.net with
    | (r, net) => (r, { s with net })
  receive link now deadline s :=
    match N.receive link now deadline s.net with
    | (r, t, net) => (r, t, { s with net })
  close link now s := { s with net := N.close link now s.net }
  patience := N.patience
  backlog link s := N.backlog link s.net

variable {N : Network σ}

theorem Wire.connect_noted {node : Node} {w w' : Wire (Noted σ)} {r : Outcome Nat}
    (h : w.connect N.noted node = (r, w')) :
    w'.net.attempts = w.net.attempts ++ [r.map fun _ => ()] := by
  simp only [Wire.connect, Network.noted] at h
  rcases hn : N.connect w.opened node w.clock w.deadline w.net.net with ⟨_ | f | _, t, net⟩ <;>
    simp only [hn] at h <;> cases h <;> rfl

/-- Whether a call that waits `ms` milliseconds is not given up before. -/
def Wire.Lasts (w : Wire σ) (ms : Nat) : Prop := ∀ d ∈ w.deadline, w.clock + ms ≤ d

theorem Wire.wait_fst (ms : Nat) (w : Wire σ) : (w.wait ms).1 = true ↔ w.Lasts ms := by
  unfold Wire.wait Wire.Lasts
  cases w.deadline with
  | none => simp
  | some d =>
    simp only [Option.mem_def, Option.some.injEq, forall_eq']
    split <;> simp <;> omega

namespace Lending

variable {node : Node}

theorem Sound.isExhausted {s : Lending σ} (h : s.Sound node) :
    s.pool.isExhausted = true ↔ s.pool.stats.active = node.limits.maxTotal := by
  have hbound := h.bound
  simp only [Pool.isExhausted, h.same, Pool.stats, decide_eq_true_eq]
  omega

/-- What is true of a borrow from a pool in use that ends with `r`, and leaves the pool `p` and the
wire `w`. -/
structure Candid (N : Network σ) (node : Node) (s : Lending (Noted σ)) (r : Outcome Connection)
    (p : Pool) (w : Wire (Noted σ)) : Prop where
  /-- The pool itself fails it where all capacity is taken, if the caller waits long enough. -/
  exhausted : (r = .failed s.pool.exhaustion ∧ w.net.attempts = s.wire.net.attempts) ↔
    s.pool.stats.active = node.limits.maxTotal ∧ s.wire.Lasts node.limits.maxWait
  /-- A connection that cannot be made fails it where there is capacity and none is kept. -/
  unconnected : ∀ f, (r = .failed f ∧ w.net.attempts = s.wire.net.attempts ++ [.failed f]) ↔
    s.pool.stats.active < node.limits.maxTotal ∧ s.pool.idle = [] ∧
      (s.wire.connect N.noted node).1 = .failed f
  /-- Nothing else fails it. -/
  blamed : ∀ f, r = .failed f →
    f = s.pool.exhaustion ∧ w.net.attempts = s.wire.net.attempts ∨
      w.net.attempts = s.wire.net.attempts ++ [.failed f]
  /-- It comes to nothing without a trace: all counters, what is kept in its order and the number of
  the next connection stay, and no link is made, used or closed. -/
  kept : r.isOk = false → p = s.pool ∧ s.wire.Quiet w
  /-- It succeeds where there is capacity, and a connection is kept or can be made. -/
  lends : r.isOk = true ↔ s.pool.stats.active < node.limits.maxTotal ∧
    (s.pool.idle ≠ [] ∨ (s.wire.connect N.noted node).1.isOk = true)

/-- Where all capacity is taken, a borrow waits in vain. -/
theorem candid_of_exhausted {s : Lending (Noted σ)} (h : s.Sound node)
    (hfull : s.pool.isExhausted = true) {r : Outcome Connection} {p : Pool} {w : Wire (Noted σ)}
    (hb : s.pool.borrow N.noted s.wire = (r, p, w)) : s.Candid N node r p w := by
  have hactive := h.isExhausted.1 hfull
  have htime := Wire.wait_fst node.limits.maxWait s.wire
  simp only [Pool.borrow, Pool.borrowWithin, hfull, if_true, Pool.starve, h.same] at hb
  rcases hw : s.wire.wait node.limits.maxWait with ⟨_ | _, w₁⟩ <;>
    have hnet := Wire.wait_net hw <;> simp only [hw] at hb htime <;> cases hb
  · exact ⟨by simp [← htime], by simp [hactive], by simp, fun _ => ⟨rfl, Wire.wait_quiet hw⟩,
      by simp [Outcome.isOk, hactive]⟩
  · refine ⟨by simp [hactive, ← htime, hnet], by simp [hactive, hnet], fun f hf => ?_,
      fun _ => ⟨rfl, Wire.wait_quiet hw⟩, by simp [Outcome.isOk, hactive]⟩
    cases hf
    exact .inl ⟨rfl, by rw [hnet]⟩

/-- Where there is capacity, a borrow fails only where a connection has to be made and cannot be. -/
theorem candid_of_free {s : Lending (Noted σ)} (h : s.Sound node)
    (hfree : s.pool.isExhausted = false) {r : Outcome Connection} {p : Pool} {w : Wire (Noted σ)}
    (hb : s.pool.borrow N.noted s.wire = (r, p, w)) : s.Candid N node r p w := by
  have hactive : s.pool.stats.active < node.limits.maxTotal := by
    have hne := mt h.isExhausted.2 (by simp [hfree])
    have hbound := h.bound
    simp only [Pool.stats] at hne ⊢
    omega
  have hnot : s.pool.stats.active ≠ node.limits.maxTotal := hactive.ne
  rcases hl : s.pool.lend N.noted s.wire with ⟨r₁, p₁, w₁⟩
  simp only [Pool.borrow, Pool.borrowWithin, hfree, Bool.false_eq_true, if_false, hl] at hb
  obtain ⟨c, rest, hi, rfl, -, rfl⟩ |
    ⟨hi, ⟨link, rfl, hw, -⟩ | ⟨f, rfl, hw, rfl⟩ | ⟨rfl, hw, rfl⟩⟩ := Pool.lend_ways hl <;>
    cases hb
  · exact ⟨by simp [hnot], by simp [hi], by simp, by simp [Outcome.isOk],
      by simp [Outcome.isOk, hactive, hi]⟩
  · have hattempts := Wire.connect_noted hw
    rw [h.same] at hw
    exact ⟨by simp [hnot], by simp [hw], by simp, by simp [Outcome.isOk],
      by simp [Outcome.isOk, hactive, hw]⟩
  · have hattempts := Wire.connect_noted hw
    have hquiet := (Wire.connect_failed hw).2
    rw [h.same] at hw
    refine ⟨by simp [hnot, hattempts], fun g => ?_, fun g hg => ?_, fun _ => ⟨rfl, hquiet⟩,
      by simp [Outcome.isOk, hi, hw]⟩
    · simp [hattempts, Outcome.map, hactive, hi, hw]
    · cases hg
      exact .inr hattempts
  · have hquiet := Wire.connect_stalled hw
    rw [h.same] at hw
    exact ⟨by simp [hnot], by simp [hw], by simp, fun _ => ⟨rfl, hquiet⟩,
      by simp [Outcome.isOk, hi, hw]⟩

/-- **A borrow fails for a reason, and without a trace**: just where all capacity stays taken, or
where none is and a connection neither is kept nor can be made, and then the pool is as before, so
that the next borrow fails only if there is a reason for it again. -/
theorem failed_borrow_leaves_no_trace (N : Network σ) (node : Node) (net : σ)
    (dealings : List (Dealing (Noted σ))) :
    let s := (start node { net }).run N.noted dealings
    ∃ r p w, s.pool.borrow N.noted s.wire = (r, p, w) ∧ s.Candid N node r p w := by
  intro s
  obtain ⟨h, -⟩ := sound_run (N := N.noted) node { net } dealings
  rcases hb : s.pool.borrow N.noted s.wire with ⟨r, p, w⟩
  refine ⟨r, p, w, rfl, ?_⟩
  cases hf : s.pool.isExhausted with
  | true => exact candid_of_exhausted h hf hb
  | false => exact candid_of_free h hf hb

end Lending

end ShardFleet
