import ShardFleet.Subscription.Basic

/-!
# All subscriptions of a client

Every subscription whose listener was started, in that order, and a counter that all listeners share:
`start` makes it go up for a listener, and the listener makes it go down when it ends.
-/

namespace ShardFleet

/-- The subscriptions that were started, by number. -/
structure Subscriptions where
  started : List Subscription := []
  /-- The counter of the listeners that run. -/
  active : Nat := 0
deriving DecidableEq, Repr

namespace Subscriptions

variable {σ : Type} (N : Network σ)

/-- The subscription with a number. -/
def find? (r : Subscriptions) (number : Nat) : Option Subscription := r.started[number]?

/-- Puts what has become of the subscription with a number in its place. The counter has gone down as
often as the listener has taken itself off it meanwhile. -/
def put (number : Nat) (before after : Subscription) (r : Subscriptions) : Subscriptions :=
  ⟨r.started.set number after, r.active - (after.departures - before.departures)⟩

/-- Adds a subscription whose listener was started, if one was: the counter has gone up by one, and
down again if the listener has ended since. -/
def add : Option Subscription → Subscriptions → Subscriptions
  | none, r => r
  | some s, r => ⟨r.started ++ [s], r.active + 1 - s.departures⟩

section

variable {r : Subscriptions} {i : Nat} {s s' s'' : Subscription}

@[simp] theorem started_put (number : Nat) (before after : Subscription) (r : Subscriptions) :
    (r.put number before after).started = r.started.set number after := rfl

@[simp] theorem started_add (s : Option Subscription) (r : Subscriptions) :
    (r.add s).started = r.started ++ s.toList := by
  cases s with
  | none => exact (List.append_nil _).symm
  | some s => rfl

theorem getElem?_put_self (here : r.started[i]? = some s) :
    (r.put i s s').started[i]? = some s' :=
  List.getElem?_set_self (List.getElem?_eq_some_iff.1 here).1

/-- What becomes of a subscription that is put in its place, and of all others, which stay as they are. -/
theorem exists_put {R : Subscription → Subscription → Prop} (refl : ∀ t, R t t)
    (here : r.started[i]? = some s) (h : R s s') {j : Nat} {t : Subscription}
    (ht : r.started[j]? = some t) : ∃ t', (r.put i s s').started[j]? = some t' ∧ R t t' := by
  by_cases hij : i = j
  · subst hij
    cases here.symm.trans ht
    exact ⟨s', getElem?_put_self here, h⟩
  · exact ⟨t, (List.getElem?_set_ne hij).trans ht, refl t⟩

theorem put_self (here : r.started[i]? = some s) : r.put i s s = r := by
  obtain ⟨_, rfl⟩ := List.getElem?_eq_some_iff.1 here
  simp [put]

/-- What has become of a subscription in two parts of a run is put in its place once. -/
theorem put_put (h : s.departures ≤ s'.departures) (h' : s'.departures ≤ s''.departures) :
    (r.put i s s').put i s' s'' = r.put i s s'' := by
  have hcount : r.active - (s'.departures - s.departures) - (s''.departures - s'.departures) =
      r.active - (s''.departures - s.departures) := by omega
  simp only [put, List.set_set, hcount]

/-- A listener that was started and has taken steps since is counted as one that is added now. -/
theorem put_add (h : s.departures = 0) :
    (r.add (some s)).put r.started.length s s' = r.add (some s') := by
  simp [put, add, h]

end

/-- Subscribes, as `Subscription.start` does, and answers the number of the subscription. -/
def start (topic : Topic) (names : List String) (r : Subscriptions) (p : Pool) (w : Wire σ) :
    Outcome Nat × Subscriptions × Pool × Wire σ :=
  match Subscription.start N topic names p w with
  | (⟨outcome, s⟩, p, w) => (outcome.map fun _ => r.started.length, r.add s, p, w)

/-- Lets the listener of the subscription with a number take what has arrived for it. -/
def settleOne (number : Nat) (r : Subscriptions) (w : Wire σ) : Subscriptions × Wire σ :=
  match r.started[number]? with
  | none => (r, w)
  | some s =>
    if s.listener.isRunning then
      let (s', w) := s.settle N w
      (r.put number s s', w)
    else (r, w)

/-- Lets every listener take what has arrived for it, in turn. -/
def settle (r : Subscriptions) (w : Wire σ) : Subscriptions × Wire σ :=
  (List.range r.started.length).foldl (fun (r, w) i => r.settleOne N i w) (r, w)

/-- Does something with the subscription that has a number, and then lets every listener take what
has arrived for it. Nothing is answered where there is none. -/
def act {α : Type} (f : Subscription → Wire σ → α × Subscription × Wire σ) (number : Nat)
    (r : Subscriptions) (w : Wire σ) : Option α × Subscriptions × Wire σ :=
  match r.started[number]? with
  | none => (none, r, w)
  | some s =>
    let (a, s', w) := f s w
    let (r, w) := settle N (r.put number s s') w
    (some a, r, w)

end Subscriptions

end ShardFleet
