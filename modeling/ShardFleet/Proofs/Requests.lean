import ShardFleet.Proofs.ClientCalls
import ShardFleet.Proofs.Listening

/-!
# What is asked of subscriptions

Whatever the holder of a subscription asks of it, and whatever its listener does meanwhile, comes down
to a few small steps. What one of them keeps is kept by all requests, and by the attempt to subscribe
from the moment at which its listener is started.
-/

namespace ShardFleet

/-- The connection that a pool makes next, if it is a dedicated one. -/
def Pool.dedicated (p : Pool) (link : Nat) : Connection :=
  { id := p.created + 1, node := p.node.id, link, dedicated := true }

namespace Subscription

variable {σ : Type} {N : Network σ}

/-- One step of a subscription: of its listener or of its holder. -/
inductive Works (N : Network σ) : Subscription × Wire σ → Subscription × Wire σ → Prop where
  | stirred {x y} (stirs : Stirs N x y) : Works N x y
  /-- The listener takes a command. -/
  | commanded {s w} (active : s.listener.isRunning = true) (c : Command) : Works N (s, w) (s.send N c w)
  /-- Somebody who waited for acknowledgements takes them. -/
  | collected {s w} (count : Nat) :
    Works N (s, w) ({ s with listener := { s.listener with acks := s.listener.acks - count } }, w)
  /-- Somebody is told how the listener ended. -/
  | learned {s w} : Works N (s, w) ({ s with told := true }, w)
  | released {s w} : Works N (s, w) ({ s with held := false }, w)

/-- Any number of steps of a subscription. -/
abbrev Proceeds (N : Network σ) : Subscription × Wire σ → Subscription × Wire σ → Prop :=
  Relation.ReflTransGen (Works N)

variable {s s' : Subscription} {w w' : Wire σ}

theorem proceeds_advances {x y : Subscription × Wire σ} (h : Advances N x y) : Proceeds N x y :=
  Relation.ReflTransGen.mono (fun _ _ => .stirred) _ _ h

theorem proceeds_awaitAcks {count : Nat} {r : Outcome Unit}
    (h : s.awaitAcks N count w = (r, s', w')) : Proceeds N (s, w) (s', w') := by
  obtain ⟨-, -, rfl, rfl⟩ | ⟨s₁, hadvances, hends⟩ := awaitAcks_advances h
  · exact .refl
  · have hlistened := proceeds_advances hadvances
    obtain ⟨-, -, -, rfl⟩ | ⟨-, rfl⟩ | ⟨-, -, rfl⟩ := hends
    · exact hlistened.tail (.collected count)
    · exact hlistened
    · exact hlistened.tail .learned

theorem proceeds_extend {topic : Topic} {names : List String} {r : Outcome Unit}
    (h : s.extend N topic names w = (r, s', w')) : Proceeds N (s, w) (s', w') := by
  unfold extend at h
  split at h
  · cases h
    exact .refl
  split at h
  · cases h
    exact .refl
  rename_i hgoing
  have active : s.listener.isRunning = true := by simpa using hgoing
  split at h
  · rename_i hacks
    rcases ha : s.awaitAcks N names.length w with ⟨r₁, s₁, w₁⟩
    -- Enough acknowledgements came unasked, so that the listener has not been let run.
    have active₁ : s₁.listener.isRunning = true := by
      unfold awaitAcks at ha
      split at ha
      · cases ha
        exact active
      · rw [if_pos (by simp [active, hacks])] at ha
        cases ha
        exact active
    simp only [ha] at h
    cases h
    exact (proceeds_awaitAcks ha).tail (.commanded active₁ _)
  · exact .head (.commanded active _) (proceeds_awaitAcks h)

theorem proceeds_drop (s : Subscription) (w : Wire σ) : Proceeds N (s, w) (s.drop N w) :=
  .head .released (proceeds_advances (settle_advances ..))

theorem proceeds_join {r : Outcome Unit} (h : s.join N w = (r, s', w')) :
    Proceeds N (s, w) (s', w') := by
  unfold join at h
  split at h
  · cases h
    exact proceeds_drop s w
  · rcases hrun : s.run N (fun _ => false) w with ⟨_ | _, s₁, w₁⟩ <;> simp only [hrun] at h
    all_goals have hlistened := proceeds_advances (runUntil_advances hrun).1
    · cases h
      exact hlistened.trans (proceeds_drop s₁ w₁)
    · split at h <;> cases h <;> exact (hlistened.tail .released).tail .learned

/-- What is asked of a subscription is done in steps. -/
theorem proceeds_request (request : Request) {r : Outcome Unit}
    (h : request.run N s w = (r, s', w')) : Proceeds N (s, w) (s', w') := by
  cases request with
  | extend topic names => exact proceeds_extend h
  | leave topic names =>
    simp only [Request.run, leave, control] at h
    split at h
    · cases h
      exact .single (.commanded ‹_› _)
    · cases h
      exact .refl
  | join => exact proceeds_join h
  | drop =>
    cases h
    exact proceeds_drop s w

/-! ### Attempts to subscribe -/

/-- A subscription whose listener has just been started. -/
def fresh (p : Pool) (link : Nat) : Subscription :=
  { node := p.node, connection := p.dedicated link }

/-- The ways in which an attempt to subscribe goes. -/
inductive Launches (N : Network σ) (topic : Topic) (names : List String) (p : Pool) (w : Wire σ) :
    Started → Pool → Wire σ → Prop where
  | unnamed (none : names = []) :
    Launches N topic names p w ⟨.failed (.session (.noNames topic.joinCommand)), .none⟩ p w
  /-- There is no connection, and a fault unless the attempt was given up. -/
  | unconnected {f? w'} (named : names ≠ [])
      (connect : w.connect N p.node = (.without f?, w')) :
    Launches N topic names p w ⟨.without f?, none⟩ p w'
  | unsent {link w₁ f w₂} (named : names ≠ []) (connect : w.connect N p.node = (.ok link, w₁))
      (send : w₁.send N link p.node.id (command topic.joinCommand names) = (.error f, w₂)) :
    Launches N topic names p w ⟨.failed f, none⟩ { p with created := p.created + 1 }
      (w₂.close N link)
  | established {link w₁ w₂ s w'} (named : names ≠ [])
      (connect : w.connect N p.node = (.ok link, w₁))
      (send : w₁.send N link p.node.id (command topic.joinCommand names) = (.ok (), w₂))
      (awaits : (fresh p link).awaitAcks N names.length w₂ = (.ok (), s, w')) :
    Launches N topic names p w ⟨.ok (), some s⟩ { p with created := p.created + 1 } w'
  /-- The names are not acknowledged, and the holder lets go of the subscription. -/
  | unanswered {link w₁ w₂ r s w₃} (named : names ≠ [])
      (connect : w.connect N p.node = (.ok link, w₁))
      (send : w₁.send N link p.node.id (command topic.joinCommand names) = (.ok (), w₂))
      (awaits : (fresh p link).awaitAcks N names.length w₂ = (r, s, w₃)) (missed : r ≠ .ok ()) :
    Launches N topic names p w ⟨r, some (s.drop N w₃).1⟩ { p with created := p.created + 1 }
      (s.drop N w₃).2

/-- An attempt to subscribe goes no other way. -/
theorem start_launches {topic : Topic} {names : List String} {p p' : Pool} {r : Started}
    (h : start N topic names p w = (r, p', w')) : Launches N topic names p w r p' w' := by
  unfold start at h
  split at h
  · rename_i hnone
    cases h
    exact .unnamed (by simpa using hnone)
  rename_i hnamed
  have named : names ≠ [] := by simpa using hnamed
  unfold Pool.openDedicated Pool.connect at h
  rcases hc : w.connect N p.node with ⟨link | f | _, w₁⟩ <;> simp only [hc] at h
  · simp only [Connection.send] at h
    rcases hs : w₁.send N link p.node.id (command topic.joinCommand names) with ⟨f | _, w₂⟩ <;>
      simp only [hs] at h
    · cases h
      exact .unsent named hc hs
    · rcases ha : (fresh p link).awaitAcks N names.length w₂ with ⟨r₁, s₁, w₃⟩
      have ha' := ha
      simp only [fresh, Pool.dedicated] at ha'
      simp only [ha'] at h
      rcases r₁ with _ | f | _ <;> cases h
      · exact .established named hc hs ha
      · exact .unanswered named hc hs ha nofun
      · exact .unanswered named hc hs ha nofun
  · cases h
    have hc : w.connect N p.node = (.without (some f), w') := hc
    exact .unconnected named hc
  · cases h
    have hc : w.connect N p.node = (.without none, w') := hc
    exact .unconnected named hc

end Subscription

end ShardFleet
