import Mathlib.Tactic.SplitIfs
import ShardFleet.Proofs.Deeds
import ShardFleet.Rehearsal.Servers

/-!
# Calls that are given up

A call keeps the moment at which it will be given up while it goes on. On a network that is punctual no
call goes on beyond that moment, whatever it is that the call waits for.
-/

namespace ShardFleet

variable {σ : Type} {N : Network σ}

theorem Wire.connect_deadline {node : Node} {r : Outcome Nat} {w w' : Wire σ}
    (h : w.connect N node = (r, w')) : w'.deadline = w.deadline := by
  unfold Wire.connect at h
  split at h <;> cases h <;> rfl

theorem Wire.send_deadline {link : Nat} {node : String} {c : Command} {r : Except Fault Unit}
    {w w' : Wire σ} (h : w.send N link node c = (r, w')) : w'.deadline = w.deadline := by
  unfold Wire.send at h
  split at h <;> cases h <;> rfl

/-- Whether calls that wait end no later than they are given up. -/
structure Network.Punctual (N : Network σ) : Prop where
  connect : ∀ link node now d s, now ≤ d → (N.connect link node now (some d) s).2.1 ≤ d
  receive : ∀ link now d s, now ≤ d → (N.receive link now (some d) s).2.1 ≤ d

/-- The reply to a command is waited for no longer than the network is patient. -/
theorem Network.receiveReply_time (link : Nat) (node : String) (command : Command) (now : Nat)
    (deadline : Option Nat) (s : σ) : (N.receiveReply link node command now deadline s).2.1 =
      (N.receive link now (earlier ((N.patience command).map (now + ·)) deadline) s).2.1 := by
  unfold Network.receiveReply
  dsimp only
  rcases N.receive link now (earlier ((N.patience command).map (now + ·)) deadline) s with
    ⟨_ | _ | _, t, s'⟩
  · rfl
  · rfl
  · dsimp only
    split_ifs <;> rfl

theorem Network.Punctual.receiveReply (hN : N.Punctual) (link : Nat) (node : String) (command : Command)
    (s : σ) {now d : Nat} (h : now ≤ d) :
    (N.receiveReply link node command now (some d) s).2.1 ≤ d := by
  rw [Network.receiveReply_time]
  cases N.patience command with
  | none => exact hN.receive link now d s h
  | some ms =>
    have ht := hN.receive link now (min (now + ms) d) s (by omega)
    exact ht.trans (Nat.min_le_right _ _)

/-! ### Punctual networks -/

/-- Rehearsed servers are waited for no longer than a call goes on. -/
theorem Rehearsal.network_punctual : Rehearsal.network.Punctual where
  connect link node now d s h := by
    simp only [Rehearsal.network]
    split <;> exact h
  receive link now d s h := by
    simp only [Rehearsal.network]
    split
    · exact h
    · split
      · exact max_le h (Nat.le_refl d)
      · exact h

/-- Whether streams are made in no time, and readings end no later than they are given up. -/
structure ByteNetwork.Punctual (B : ByteNetwork σ) : Prop where
  dial : ∀ link node now s, (B.dial link node now s).2.1 = now
  read : ∀ link now d s, now ≤ d → (B.read link now (some d) s).2.1 ≤ d

namespace Stream

variable {B : ByteNetwork σ} {link now d : Nat}

theorem frame_time (hB : B.Punctual) (fuel : Nat) (l : Link) (s : σ) (h : now ≤ d) :
    (frame B fuel link l now (some d) s).2.2.1 ≤ d := by
  induction fuel generalizing l now s with
  | zero =>
    unfold frame
    split <;> exact h
  | succ fuel ih =>
    unfold frame
    split
    · exact h
    · exact h
    · have ht := hB.read link now d s h
      rcases hr : B.read link now (some d) s with ⟨b | _ | reason | _, t, s'⟩ <;> rw [hr] at ht
      · exact ih _ _ ht
      · exact ht
      · exact ht
      · exact ht

theorem bare_punctual (hB : B.Punctual) (patience : Option Nat) : (bare B patience).Punctual where
  connect link node now d s h := by
    have ht := hB.dial link node now s.net
    simp only [bare]
    rcases hd : B.dial link node now s.net with ⟨_ | _, t, net⟩ <;> rw [hd] at ht <;> exact ht.trans_le h
  receive link now d s h := by
    simp only [bare]
    split
    · exact h
    · rename_i l _
      exact frame_time hB _ l s.net h

theorem greet_time {N : Network (State σ)} (hN : N.Punctual) (node : String) (commands : List Command)
    (s : State σ) (h : now ≤ d) : (greet N link node commands now (some d) s).2.1 ≤ d := by
  induction commands generalizing now s with
  | nil => exact h
  | cons c cs ih =>
    have ht : (N.request link node c now (some d) s).2.1 ≤ d := by
      unfold Network.request
      split
      · exact hN.receiveReply link node c _ h
      · exact h
      · exact h
    unfold greet
    rcases hr : N.request link node c now (some d) s with ⟨_ | _ | _, t, s'⟩ <;> rw [hr] at ht
    · exact ih _ ht
    · exact ht
    · exact ht

/-- Frames over byte streams come as punctually as their bytes. -/
theorem network_punctual (hB : B.Punctual) (patience : Option Nat) : (network B patience).Punctual where
  connect link node now d s h := by
    have hbare := bare_punctual hB patience
    have ht := hbare.connect link node now d s h
    simp only [network]
    rcases hc : (bare B patience).connect link node now (some d) s with ⟨_ | _ | _, t, s'⟩ <;>
      rw [hc] at ht
    · exact greet_time hbare _ _ _ ht
    · exact ht
    · exact ht
  receive := (bare_punctual hB patience).receive

end Stream

/-! ### Calls in time -/

/-- Whether a wire is not past the deadline `d` of the call in progress, on a network that is punctual. -/
structure Wire.InTime (N : Network σ) (d : Nat) (w : Wire σ) : Prop where
  deadline : w.deadline = some d
  clock : N.Punctual → w.clock ≤ d

namespace Wire.InTime

variable {d : Nat} {w w' : Wire σ}

theorem connect {node : Node} {r : Outcome Nat} (hw : w.InTime N d)
    (h : w.connect N node = (r, w')) : w'.InTime N d where
  deadline := (Wire.connect_deadline h).trans hw.deadline
  clock hN := by
    have ht := hN.connect w.opened node w.clock d w.net (hw.clock hN)
    unfold Wire.connect at h
    rw [hw.deadline] at h
    rcases hc : N.connect w.opened node w.clock (some d) w.net with ⟨_ | _ | _, t, net⟩ <;>
      simp only [hc] at h ht <;> cases h <;> exact ht

theorem send {link : Nat} {node : String} {command : Command} {r : Except Fault Unit}
    (hw : w.InTime N d) (h : w.send N link node command = (r, w')) : w'.InTime N d where
  deadline := (Wire.send_deadline h).trans hw.deadline
  clock hN := by
    unfold Wire.send at h
    split at h <;> cases h <;> exact hw.clock hN

theorem record (hw : w.InTime N d) (event : WireEvent) : (w.record event).InTime N d :=
  ⟨hw.deadline, hw.clock⟩

theorem receiveReply {link : Nat} {node : String} {command : Command} {r : Outcome Resp.Value}
    (hw : w.InTime N d) (h : w.receiveReply N link node command = (r, w')) : w'.InTime N d := by
  unfold Wire.receiveReply at h
  rcases hr : N.receiveReply link node command w.clock w.deadline w.net with ⟨r', t, net⟩
  rw [hr] at h
  cases h
  refine ⟨hw.deadline, fun hN => ?_⟩
  have ht := hN.receiveReply link node command w.net (hw.clock hN)
  rw [← hw.deadline, hr] at ht
  exact ht

theorem close (hw : w.InTime N d) (link : Nat) : (w.close N link).InTime N d :=
  ⟨hw.deadline, hw.clock⟩

theorem wait {ms : Nat} {b : Bool} (hw : w.InTime N d) (h : w.wait ms = (b, w')) : w'.InTime N d := by
  unfold Wire.wait at h
  rw [hw.deadline] at h
  dsimp only at h
  split at h <;> cases h
  · exact ⟨rfl, fun hN => max_le (hw.clock hN) (Nat.le_refl d)⟩
  · exact ⟨rfl, fun _ => by dsimp only; omega⟩

theorem request {c : Connection} {command : Command} {r : Outcome Resp.Value} (hw : w.InTime N d)
    (h : c.request N command w = (r, w')) : w'.InTime N d := by
  unfold Connection.request Wire.request at h
  rcases hs : w.send N c.link c.node command with ⟨_ | _, w₁⟩ <;> rw [hs] at h <;>
    have hw₁ := hw.send hs
  · cases h
    exact hw₁.record _
  · cases h
    exact (hw₁.receiveReply rfl).record _

theorem settle (hw : w.InTime N d) (fault : Option Fault) (c : Connection) (p : Pool) :
    (p.settle N fault c w).2.InTime N d := by
  unfold Pool.settle Pool.evict Pool.release
  split
  · exact hw.close c.link
  · dsimp only
    split
    · exact hw
    · exact hw.close c.link

theorem lend {p p' : Pool} {r : Outcome Connection} (hw : w.InTime N d)
    (h : p.lend N w = (r, p', w')) : w'.InTime N d := by
  obtain ⟨_, _, -, -, -, rfl⟩ | ⟨-, ⟨_, -, hc, -⟩ | ⟨_, -, hc, -⟩ | ⟨-, hc, -⟩⟩ := Pool.lend_ways h
  · exact hw
  · exact hw.connect hc
  · exact hw.connect hc
  · exact hw.connect hc

theorem attempt {command : Command} {p p' : Pool} {r : Outcome Resp.Value} (hw : w.InTime N d)
    (h : p.attempt N command w = (r, p', w')) : w'.InTime N d := by
  unfold Pool.attempt at h
  rcases hl : p.lend N w with ⟨c | f | _, p₁, w₁⟩ <;> have hw₁ := hw.lend hl <;>
    simp only [hl] at h
  · rcases hr : c.request N command w₁ with ⟨v | f | _, w₂⟩ <;> have hw₂ := hw₁.request hr <;>
      simp only [hr] at h <;> cases h
    · exact hw₂.settle _ _ _
    · exact hw₂.settle _ _ _
    · exact hw₂
  · cases h
    exact hw₁
  · cases h
    exact hw₁

theorem run {command : Command} {p p' : Pool} {r : Outcome Resp.Value} (hw : w.InTime N d)
    (h : p.run N command w = (r, p', w')) : w'.InTime N d := by
  unfold Pool.run at h
  split at h
  · unfold Pool.starve at h
    rcases hwait : w.wait p.node.limits.maxWait with ⟨_ | _, w₁⟩ <;> simp only [hwait] at h <;>
      cases h <;> exact hw.wait hwait
  · rcases ha : p.attempt N command w with ⟨v | f | _, p₁, w₁⟩ <;> simp only [ha] at h <;>
      cases h <;> exact hw.attempt ha

end Wire.InTime

end ShardFleet
