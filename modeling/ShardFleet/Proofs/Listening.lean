import Mathlib
import ShardFleet.Subscription.Registry

/-!
# What listeners do

A listener takes one step after the other: it hears a frame, loses its connection, finds nothing, or
ends because nobody holds it. However long it is let run, nothing else happens to its subscription.
-/

namespace ShardFleet

/-- A frame that is no notice is a rejection or breaks the protocol. -/
theorem Notice.fault_ofFrame {v : Resp.Value} {f : Fault} (h : ofFrame v = .error f) :
    (∃ m, f = .data m) ∨ ∃ p, f = .protocol p := by
  cases v with
  | array items =>
    simp only [ofFrame, ofItems] at h
    repeat' split at h
    all_goals cases h
    exact .inr ⟨_, rfl⟩
  | error m =>
    cases h
    exact .inl ⟨_, rfl⟩
  | _ =>
    cases h
    exact .inr ⟨_, rfl⟩

namespace Subscription

variable {σ : Type} {N : Network σ}

/-- One step of a listener. -/
inductive Stirs (N : Network σ) : Subscription × Wire σ → Subscription × Wire σ → Prop where
  | heard {s w deadline v w'} (active : s.listener.isRunning = true)
      (arrived : w.receiveBefore N deadline s.connection.link = (.ok v, w')) :
    Stirs N (s, w) (s.stepped N (s.listener.hear v) w')
  | lost {s w deadline f w'} (active : s.listener.isRunning = true)
      (failed : w.receiveBefore N deadline s.connection.link = (.failed f, w')) :
    Stirs N (s, w) (s.stepped N (s.listener.fail f) w')
  | waited {s w deadline w'} (active : s.listener.isRunning = true)
      (nothing : w.receiveBefore N deadline s.connection.link = (.stalled, w')) :
    Stirs N (s, w) (s, w')
  | abandoned {s w} (active : s.listener.isRunning = true) (unheld : s.held = false) :
    Stirs N (s, w) (s.stepped N (s.listener.abandon, []) w)

/-- What a step leaves of a subscription: if it led out of the loop, the listener has said so and taken
itself off the counter. -/
theorem stepped_fst (r : Listener × List Callback) (s : Subscription) (w : Wire σ) :
    (s.stepped N r w).1 = { s with
      listener := { r.1 with isActive := r.1.isRunning && r.1.isActive }
      calls := s.calls ++ r.2
      departures := s.departures + if r.1.isRunning then 0 else 1 } := by
  unfold stepped
  split
  · rename_i running
    simp [running]
  · rename_i left
    simp [left, finish]

/-- Any number of steps of a listener. -/
abbrev Advances (N : Network σ) : Subscription × Wire σ → Subscription × Wire σ → Prop :=
  Relation.ReflTransGen (Stirs N)

variable {s s' : Subscription} {w w' : Wire σ}

theorem listen_stirs {deadline : Option Nat} {b : Bool} (active : s.listener.isRunning = true)
    (h : s.listen N deadline w = (b, s', w')) : Stirs N (s, w) (s', w') := by
  unfold listen at h
  rcases hr : w.receiveBefore N deadline s.connection.link with ⟨v | f | _, w₁⟩ <;>
    simp only [hr] at h <;> cases h
  · exact .heard active hr
  · exact .lost active hr
  · exact .waited active hr

theorem drain_advances (fuel : Nat) (s : Subscription) (w : Wire σ) :
    Advances N (s, w) (s.drain N fuel w) := by
  induction fuel generalizing s w with
  | zero => exact .refl
  | succ fuel ih =>
    unfold drain
    split
    · exact .refl
    · rename_i hactive
      have active : s.listener.isRunning = true := by simpa using hactive
      rcases hl : s.listen N (some w.clock) w with ⟨_ | _, s₁, w₁⟩
      · exact .single (listen_stirs active hl)
      · exact .head (listen_stirs active hl) (ih s₁ w₁)

theorem settle_advances (s : Subscription) (w : Wire σ) : Advances N (s, w) (s.settle N w) := by
  have hdrain := drain_advances (N := N) (N.backlog s.connection.link w.net) s w
  unfold settle
  rcases hs : s.drain N (N.backlog s.connection.link w.net) w with ⟨s₁, w₁⟩
  rw [hs] at hdrain
  dsimp only
  split
  · rename_i hended
    obtain ⟨active, unheld⟩ : s₁.listener.isRunning = true ∧ s₁.held = false := by
      simpa using hended
    exact hdrain.tail (.abandoned active unheld)
  · exact hdrain

/-- What a listener does is told to nobody, and nobody takes hold of it. -/
theorem kept_advances {x y : Subscription × Wire σ} (h : Advances N x y) :
    y.1.told = x.1.told ∧ y.1.held = x.1.held := by
  induction h with
  | refl => exact ⟨rfl, rfl⟩
  | tail _ hstep ih => cases hstep <;> simpa only [stepped_fst] using ih

/-- A listener that has taken itself off the counter does not come back. -/
theorem departures_advances {x y : Subscription × Wire σ} (h : Advances N x y) :
    x.1.departures ≤ y.1.departures := by
  induction h with
  | refl => exact Nat.le_refl _
  | tail _ hstep ih =>
    refine Nat.le_trans ih ?_
    cases hstep with
    | heard | lost | abandoned =>
      rw [stepped_fst]
      exact Nat.le_add_right ..
    | waited => exact Nat.le_refl _

/-- A subscription that nobody holds has ended once it has taken what arrived for it. -/
theorem isRunning_drop (s : Subscription) (w : Wire σ) :
    (s.drop N w).1.listener.isRunning = false := by
  obtain ⟨-, hheld⟩ := kept_advances (drain_advances (N := N) (N.backlog s.connection.link w.net)
    { s with held := false } w)
  unfold drop settle
  dsimp only at hheld ⊢
  split
  · rw [stepped_fst]
    rfl
  · rename_i hended
    rw [hheld] at hended
    simpa using hended

/-- A listener that is let run until `enough` holds takes some steps, and it runs until then unless it
has ended before. -/
theorem runUntil_advances {enough : Listener → Bool} {fuel : Nat} {b : Bool}
    (h : s.runUntil N enough fuel w = (b, s', w')) :
    Advances N (s, w) (s', w') ∧
      (b = true → s'.listener.isRunning = false ∨ enough s'.listener = true) := by
  induction fuel generalizing s w with
  | zero =>
    cases h
    exact ⟨.refl, by simp⟩
  | succ fuel ih =>
    have hdrain := drain_advances (N := N) (N.backlog s.connection.link w.net) s w
    unfold runUntil at h
    rcases hs : s.drain N (N.backlog s.connection.link w.net) w with ⟨s₁, w₁⟩
    rw [hs] at hdrain
    simp only [hs] at h
    split at h
    · rename_i hdone
      cases h
      exact ⟨hdrain, fun _ => by simpa using hdone⟩
    · rename_i hgoing
      have active : s₁.listener.isRunning = true := by
        simp only [Bool.or_eq_true, not_or, Bool.not_eq_true', Bool.not_eq_false] at hgoing
        exact hgoing.1
      rcases hl : s₁.listen N none w₁ with ⟨_ | _, s₂, w₂⟩ <;> simp only [hl] at h
      · cases h
        exact ⟨hdrain.tail (listen_stirs active hl), by simp⟩
      · obtain ⟨hrest, hb⟩ := ih h
        exact ⟨(hdrain.tail (listen_stirs active hl)).trans hrest, hb⟩

/-- A wait for acknowledgements is refused, or lets the listener run. If it ends well the listener still
runs, and the acknowledgements are taken. -/
theorem awaitAcks_advances {count : Nat} {r : Outcome Unit} (h : s.awaitAcks N count w = (r, s', w')) :
    (ackLimit ≤ count ∧ r = .failed (.session .tooManyNames) ∧ s' = s ∧ w' = w) ∨
    ∃ s₁, Advances N (s, w) (s₁, w') ∧
      ((r = .ok () ∧ s₁.listener.isRunning = true ∧ count ≤ s₁.listener.acks ∧
          s' = { s₁ with listener := { s₁.listener with acks := s₁.listener.acks - count } }) ∨
        (r = .stalled ∧ s' = s₁) ∨
        (r = .failed s₁.deadEnd ∧ s₁.listener.isRunning = false ∧ s' = { s₁ with told := true })) := by
  unfold awaitAcks at h
  split at h
  · rename_i hlimit
    cases h
    exact .inl ⟨hlimit, rfl, rfl, rfl⟩
  · right
    split at h
    · rename_i hready
      obtain ⟨active, hacks⟩ : s.listener.isRunning = true ∧ count ≤ s.listener.acks := by
        simpa using hready
      cases h
      exact ⟨s, .refl, .inl ⟨rfl, active, hacks, rfl⟩⟩
    · rcases hr : s.run N (count ≤ ·.acks) w with ⟨_ | _, s₁, w₁⟩ <;> simp only [hr] at h
      · obtain ⟨hadvances, -⟩ := runUntil_advances hr
        cases h
        exact ⟨_, hadvances, .inr (.inl ⟨rfl, rfl⟩)⟩
      · obtain ⟨hadvances, hdone⟩ := runUntil_advances hr
        split at h
        · rename_i active
          have hacks : count ≤ s₁.listener.acks := by
            obtain hended | henough := hdone rfl
            · rw [active] at hended
              cases hended
            · simpa using henough
          cases h
          exact ⟨s₁, hadvances, .inl ⟨rfl, active, hacks, rfl⟩⟩
        · rename_i hended
          cases h
          exact ⟨s₁, hadvances, .inr (.inr ⟨rfl, by simpa using hended, rfl⟩)⟩

end Subscription

namespace Subscriptions

variable {σ : Type} {N : Network σ} {r : Subscriptions} {w w' : Wire σ}

/-- One step of one of the listeners. -/
inductive Stirs (N : Network σ) : Subscriptions × Wire σ → Subscriptions × Wire σ → Prop where
  | one {r : Subscriptions} {w w' : Wire σ} {i s s'} (here : r.started[i]? = some s)
      (stirs : Subscription.Stirs N (s, w) (s', w')) : Stirs N (r, w) (r.put i s s', w')

/-- Any number of steps of listeners. -/
abbrev Advances (N : Network σ) : Subscriptions × Wire σ → Subscriptions × Wire σ → Prop :=
  Relation.ReflTransGen (Stirs N)

variable {i : Nat} {s s' : Subscription}

theorem advances_of (here : r.started[i]? = some s) (h : Subscription.Advances N (s, w) (s', w')) :
    Advances N (r, w) (r.put i s s', w') := by
  generalize hlast : (s', w') = last at h
  induction h generalizing s' w' with
  | refl =>
    cases hlast
    rw [put_self here]
  | @tail mid _ hfirst hstep ih =>
    subst hlast
    have hstep' := Stirs.one (getElem?_put_self here) hstep
    rw [put_put (Subscription.departures_advances hfirst)
      (Subscription.departures_advances (.single hstep))] at hstep'
    exact (ih rfl).tail hstep'

theorem settleOne_advances (i : Nat) (r : Subscriptions) (w : Wire σ) :
    Advances N (r, w) (r.settleOne N i w) := by
  unfold settleOne
  split
  · exact .refl
  · rename_i here
    split
    · exact advances_of here (Subscription.settle_advances ..)
    · exact .refl

/-- To let every listener take what has arrived for it is to let them take steps. -/
theorem settle_advances (r : Subscriptions) (w : Wire σ) : Advances N (r, w) (r.settle N w) := by
  unfold settle
  generalize List.range r.started.length = numbers
  induction numbers generalizing r w with
  | nil => exact .refl
  | cons i numbers ih => exact (settleOne_advances i r w).trans (ih ..)

end Subscriptions

end ShardFleet
