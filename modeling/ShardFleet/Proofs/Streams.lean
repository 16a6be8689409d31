import ShardFleet.Proofs.Deeds
import ShardFleet.Proofs.Framing
import ShardFleet.Stream

/-!
# What passes over streams

A network of byte streams that keeps a log of what passes over them, and what the network of frames
makes of it: a request writes one command and takes one frame, on its own link only. So as long as
requests end well, as many frames were taken from a link as commands were written on it.
-/

namespace ShardFleet

/-- Something that passed over a stream. -/
inductive Traffic where
  | dialled (link : Nat)
  | wrote (link : Nat) (b : Bytes)
  | arrived (link : Nat) (b : Bytes)
deriving DecidableEq, Repr

/-- The link over which something passed. -/
def Traffic.link : Traffic → Nat
  | .dialled link | .wrote link _ | .arrived link _ => link

/-- What passed over the stream that a link has now. -/
structure Transcript where
  /-- How many streams the link had so far. A stream that does not get through its greeting is given
  up, and the number of its link is used again. -/
  dials : Nat := 0
  /-- What was written, piece by piece. -/
  written : List Bytes := []
  arrived : Bytes := []
deriving DecidableEq, Repr

/-- The transcript of a link with one thing more. -/
def Transcript.add (link : Nat) (t : Transcript) : Traffic → Transcript
  | .dialled other => if other = link then { dials := t.dials + 1 } else t
  | .wrote other b => if other = link then { t with written := t.written ++ [b] } else t
  | .arrived other b => if other = link then { t with arrived := t.arrived ++ b } else t

/-- The state of a network with a log of its traffic. -/
structure Logged (σ : Type) where
  net : σ
  log : List Traffic := []

/-- The transcript of a link. -/
def Logged.script {σ : Type} (s : Logged σ) (link : Nat) : Transcript :=
  s.log.foldl (Transcript.add link) {}

/-- A network with its state changed and something more in its log. -/
def Logged.record {σ : Type} (s : Logged σ) (net : σ) (traffic : List Traffic) : Logged σ :=
  ⟨net, s.log ++ traffic⟩

/-- A network of byte streams that keeps a log. A piece that is written is logged however the writing
ends, since some of it may have gone out. -/
def ByteNetwork.logged {σ : Type} (B : ByteNetwork σ) : ByteNetwork (Logged σ) where
  dial link node now s :=
    match B.dial link node now s.net with
    | (.ok _, t, net) => (.ok (), t, s.record net [.dialled link])
    | (.error reason, t, net) => (.error reason, t, s.record net [])
  write link b now s :=
    match B.write link b now s.net with
    | (r, net) => (r, s.record net [.wrote link b])
  read link now deadline s :=
    match B.read link now deadline s.net with
    | (.bytes b, t, net) => (.bytes b, t, s.record net [.arrived link b])
    | (r, t, net) => (r, t, s.record net [])
  shutdown link now s := s.record (B.shutdown link now s.net) []
  pending link s := B.pending link s.net

section

variable {σ : Type} {s : Logged σ} {net : σ} {link other : Nat} {b : Bytes}

@[simp] theorem Logged.script_record_nil : (s.record net []).script link = s.script link := by
  simp [Logged.record, Logged.script]

@[simp] theorem Logged.script_record (t : Traffic) :
    (s.record net [t]).script link = (s.script link).add link t := by
  simp [Logged.record, Logged.script]

theorem Logged.script_of_untouched (h : ∀ t ∈ s.log, t.link ≠ link) : s.script link = {} := by
  rcases s with ⟨net, log⟩
  induction log using List.reverseRecOn with
  | nil => rfl
  | append_singleton log t ih =>
    have ht : t.link ≠ link := h t (by simp)
    have hlog : Logged.script ⟨net, log⟩ link = {} := ih fun t ht => h t (by simp [ht])
    rw [← hlog]
    show (Logged.record ⟨net, log⟩ net [t]).script link = _
    rw [Logged.script_record]
    cases t <;> exact if_neg ht

end

namespace Stream

variable {σ : Type} {B : ByteNetwork σ} {patience : Option Nat}

/-- Whether all that changed between two states is about one link. -/
structure Apart (link : Nat) (s s' : State (Logged σ)) : Prop where
  links : ∀ other ≠ link, s'.links.find? other = s.links.find? other
  script : ∀ other ≠ link, s'.net.script other = s.net.script other

/-- Whether as many frames were taken from a link as commands were written on it, and these are
their values. -/
structure Synced (s : State (Logged σ)) (link : Nat) (vs : List Resp.Value) : Prop where
  takes : ∃ l, s.links.find? link = some l ∧ Resp.Takes (s.net.script link).arrived vs l.buffer
  written : vs.length = (s.net.script link).written.length

theorem Apart.refl (link : Nat) (s : State (Logged σ)) : Apart link s s :=
  ⟨fun _ _ => rfl, fun _ _ => rfl⟩

theorem Apart.trans {link : Nat} {s₁ s₂ s₃ : State (Logged σ)} (h : Apart link s₁ s₂)
    (h' : Apart link s₂ s₃) : Apart link s₁ s₃ :=
  ⟨fun other hne => (h'.links other hne).trans (h.links other hne),
    fun other hne => (h'.script other hne).trans (h.script other hne)⟩

theorem Synced.apart {link other : Nat} {s s' : State (Logged σ)} {vs : List Resp.Value}
    (h : Synced s other vs) (ha : Apart link s s') (hne : other ≠ link) : Synced s' other vs := by
  constructor
  · rw [ha.links other hne, ha.script other hne]
    exact h.takes
  · rw [ha.script other hne]
    exact h.written

/-! ### Readings -/

/-- Whether some bytes arrived on a link between two states of a network, and nothing else passed. -/
structure Hears (link : Nat) (chunk : Bytes) (s s' : Logged σ) : Prop where
  arrived : s'.script link = { s.script link with arrived := (s.script link).arrived ++ chunk }
  others : ∀ other ≠ link, s'.script other = s.script other

theorem Hears.silence (link : Nat) (s : Logged σ) : Hears link [] s s :=
  ⟨by simp, fun _ _ => rfl⟩

theorem Hears.trans {link : Nat} {b c : Bytes} {s₁ s₂ s₃ : Logged σ} (h : Hears link b s₁ s₂)
    (h' : Hears link c s₂ s₃) : Hears link (b ++ c) s₁ s₃ :=
  ⟨by simp [h'.arrived, h.arrived], fun other hne => (h'.others other hne).trans (h.others other hne)⟩

theorem logged_read {link now t : Nat} {deadline : Option Nat} {s s' : Logged σ} {r : Reading}
    (h : B.logged.read link now deadline s = (r, t, s')) :
    Hears link (match r with | .bytes b => b | _ => []) s s' := by
  simp only [ByteNetwork.logged] at h
  rcases hr : B.read link now deadline s.net with ⟨b | _ | reason | _, t₁, net⟩ <;>
    simp only [hr] at h <;> cases h
  · exact ⟨by simp [Transcript.add], fun other hne => by simp [Transcript.add, hne.symm]⟩
  all_goals exact ⟨by simp, fun _ _ => by simp⟩

/-- Reading a frame takes in a chunk of bytes, of which the frame is made together with those that were
there before. No fault of it is a rejection. -/
theorem frame_reads {link : Nat} {deadline : Option Nat} {fuel : Nat} {l l' : Link} {now t : Nat}
    {s s' : Logged σ} {r : Outcome Resp.Value}
    (h : frame B.logged fuel link l now deadline s = (r, l', t, s')) :
    ∃ chunk, Hears link chunk s s' ∧
      (∀ v, r = .ok v → Resp.parse (l.buffer ++ chunk) = .found v l'.buffer) ∧
      ∀ f, r = .failed f → ∀ m, f ≠ .data m := by
  fun_induction frame B.logged fuel link l now deadline s
  case case1 hp =>
    cases h
    exact ⟨[], .silence .., by simp [hp], by simp⟩
  case case2 hp =>
    cases h
    exact ⟨[], .silence .., by simp, by simp⟩
  case case3 hp =>
    cases h
    exact ⟨[], .silence .., by simp, by simp⟩
  case case4 hr ih =>
    obtain ⟨chunk, hhears, hframe, hfault⟩ := ih h
    refine ⟨_, (logged_read hr).trans hhears, fun v hv => ?_, hfault⟩
    rw [← List.append_assoc]
    exact hframe v hv
  all_goals
    rename_i hr
    cases h
    exact ⟨[], logged_read hr, by simp, by simp [gone]⟩

/-! ### Requests -/

/-- A command was written on a link where the frames `vs` had been taken, and the frame that was taken
for it is `v`. -/
structure Exchanges (link : Nat) (c : Command) (vs : List Resp.Value) (v : Resp.Value)
    (s s' : State (Logged σ)) : Prop where
  synced : Synced s' link (vs ++ [v])
  written : (s'.net.script link).written = (s.net.script link).written ++ [c.encode]
  dials : (s'.net.script link).dials = (s.net.script link).dials

theorem send_writes {link now : Nat} {c : Command} {s s' : State (Logged σ)} {r : Sending}
    (h : (bare B.logged patience).send link c now s = (r, s')) :
    Apart link s s' ∧ (r = .sent → s'.links = s.links ∧ s'.net.script link =
      { s.net.script link with written := (s.net.script link).written ++ [c.encode] }) ∧
      ∀ f, r = .lost f ∨ r = .refused f → ∀ m, f ≠ .data m := by
  simp only [bare] at h
  cases hl : s.links.find? link with
  | none =>
    simp only [hl] at h
    cases h
    exact ⟨.refl link s, by simp, by simp [unknown]⟩
  | some l =>
    simp only [hl, ByteNetwork.logged] at h
    have hother {net : σ} (other : Nat) (hne : other ≠ link) :
        (s.net.record net [.wrote link c.encode]).script other = s.net.script other := by
      rw [Logged.script_record, Transcript.add, if_neg hne.symm]
    rcases hw : B.write link c.encode now s.net.net with ⟨reason | _, net⟩ <;>
      simp only [hw] at h <;> cases h
    · exact ⟨⟨fun _ _ => rfl, hother⟩, by simp, by simp [gone]⟩
    · exact ⟨⟨fun _ _ => rfl, hother⟩, by simp [Transcript.add], by simp⟩

theorem receive_takes {link now t : Nat} {deadline : Option Nat} {s s' : State (Logged σ)}
    {r : Outcome Resp.Value}
    (h : (bare B.logged patience).receive link now deadline s = (r, t, s')) :
    Apart link s s' ∧ (s'.net.script link).written = (s.net.script link).written ∧
      (s'.net.script link).dials = (s.net.script link).dials ∧
      (∀ v l vs, r = .ok v → s.links.find? link = some l →
        Resp.Takes (s.net.script link).arrived vs l.buffer →
        ∃ l', s'.links.find? link = some l' ∧
          Resp.Takes (s'.net.script link).arrived (vs ++ [v]) l'.buffer) ∧
      ∀ f, r = .failed f → ∀ m, f ≠ .data m := by
  simp only [bare] at h
  cases hl : s.links.find? link with
  | none =>
    simp only [hl] at h
    cases h
    exact ⟨.refl link s, rfl, rfl, by simp, by simp [unknown]⟩
  | some l =>
    simp only [hl] at h
    rcases hf : frame B.logged (B.logged.pending link s.net + 1) link l now deadline s.net with
      ⟨r₁, l', t₁, net⟩
    obtain ⟨chunk, hhears, hframe, hfault⟩ := frame_reads hf
    rw [hf] at h
    cases h
    refine ⟨⟨fun other hne => ?_, hhears.others⟩, by rw [hhears.arrived], by rw [hhears.arrived],
      ?_, hfault⟩
    · exact Table.find?_insert .. |>.trans (if_neg hne)
    · rintro v _ vs hv ⟨rfl⟩ htakes
      refine ⟨l', Table.find?_insert_self .., ?_⟩
      rw [hhears.arrived]
      exact (htakes.append chunk).concat (hframe v hv)

theorem receiveReply_takes {link now t : Nat} {node : String} {c : Command} {deadline : Option Nat}
    {s s' : State (Logged σ)} {r : Outcome Resp.Value}
    (h : (bare B.logged patience).receiveReply link node c now deadline s = (r, t, s')) :
    Apart link s s' ∧ (s'.net.script link).written = (s.net.script link).written ∧
      (s'.net.script link).dials = (s.net.script link).dials ∧
      (r.verdict = .sound → ∃ v, r = v.toOutcome ∧ ∀ l vs, s.links.find? link = some l →
        Resp.Takes (s.net.script link).arrived vs l.buffer →
        ∃ l', s'.links.find? link = some l' ∧
          Resp.Takes (s'.net.script link).arrived (vs ++ [v]) l'.buffer) := by
  simp only [Network.receiveReply] at h
  rcases hr : (bare B.logged patience).receive link now
    (earlier (((bare B.logged patience).patience c).map (now + ·)) deadline) s with
    ⟨v | f | _, t₁, s₁⟩ <;> obtain ⟨hapart, hwritten, hdials, htakes, hfault⟩ := receive_takes hr <;>
    simp only [hr] at h
  · cases h
    exact ⟨hapart, hwritten, hdials, fun _ => ⟨v, rfl, fun l vs => htakes v l vs rfl⟩⟩
  · cases h
    have hunsound := Outcome.unsound_of_failed (α := Resp.Value) (hfault f rfl)
    exact ⟨hapart, hwritten, hdials, fun hv => absurd hv hunsound⟩
  · -- Neither the end of patience nor the end of the call leaves the connection sound.
    split at h <;> cases h <;> exact ⟨hapart, hwritten, hdials, fun hv => by cases hv⟩

theorem request_network (B : ByteNetwork σ) (patience : Option Nat) :
    (network B patience).request = (bare B patience).request := rfl

/-- The end of a request that leaves its connection sound is the next frame. -/
theorem request_exchanges {link now t : Nat} {node : String} {c : Command} {deadline : Option Nat}
    {s s' : State (Logged σ)} {r : Outcome Resp.Value}
    (h : (bare B.logged patience).request link node c now deadline s = (r, t, s')) :
    Apart link s s' ∧ ∀ vs, Synced s link vs → r.verdict = .sound →
      ∃ v, r = v.toOutcome ∧ Exchanges link c vs v s s' := by
  unfold Network.request at h
  rcases hs : (bare B.logged patience).send link c now s with ⟨_ | f | f, s₁⟩ <;>
    obtain ⟨hapart, hsent, hfault⟩ := send_writes hs <;> simp only [hs] at h
  · obtain ⟨hlinks, hscript⟩ := hsent rfl
    obtain ⟨hapart', hwritten, hdials, htakes⟩ := receiveReply_takes h
    rw [hscript] at hwritten hdials htakes
    refine ⟨hapart.trans hapart', fun vs hsynced hv => ?_⟩
    obtain ⟨v, hrv, htakes⟩ := htakes hv
    obtain ⟨l, hl, hl'⟩ := hsynced.takes
    refine ⟨v, hrv, ⟨htakes l vs (by rw [hlinks, hl]) hl', ?_⟩, hwritten, hdials⟩
    rw [hwritten, List.length_append, List.length_append, hsynced.written]
    rfl
  · cases h
    exact ⟨hapart, fun vs _ hv => absurd hv (Outcome.unsound_of_failed (hfault f (.inl rfl)))⟩
  · cases h
    exact ⟨hapart, fun vs _ hv => absurd hv (Outcome.unsound_of_failed (hfault f (.inr rfl)))⟩

theorem value_of_ok {v w : Resp.Value} (h : v.toOutcome = .ok w) : v = w := by
  cases v <;> cases h <;> rfl

theorem value_of_data {v : Resp.Value} {m : String} (h : v.toOutcome = .failed (.data m)) :
    v = .error m := by
  cases v <;> cases h
  rfl

/-! ### Connecting -/

theorem greet_exchanges {link : Nat} {node : String} {cs : List Command} {now t : Nat}
    {deadline : Option Nat} {s s' : State (Logged σ)} {r : Outcome Unit} {vs : List Resp.Value}
    (h : greet (bare B.logged patience) link node cs now deadline s = (r, t, s'))
    (hs : Synced s link vs) :
    Apart link s s' ∧
    (r = .ok () → ∃ vs', Synced s' link vs' ∧ (s'.net.script link).dials = (s.net.script link).dials) ∧
    ∀ m, r = .failed (.data m) → ∃ c ∈ cs, ∃ s₁ vs', Exchanges link c vs' (.error m) s₁ s' ∧
      (s₁.net.script link).dials = (s.net.script link).dials := by
  induction cs generalizing now s vs with
  | nil =>
    cases h
    exact ⟨.refl .., fun _ => ⟨vs, hs, rfl⟩, by simp⟩
  | cons c cs ih =>
    rw [greet] at h
    rcases hr : (bare B.logged patience).request link node c now deadline s with ⟨v | f | _, t₁, s₁⟩ <;>
      obtain ⟨hapart, hexchange⟩ := request_exchanges hr <;> simp only [hr] at h
    · obtain ⟨w, -, hw⟩ := hexchange vs hs rfl
      obtain ⟨hapart', hok, hfault⟩ := ih h hw.synced
      refine ⟨hapart.trans hapart', fun hr => ?_, fun m hm => ?_⟩
      · obtain ⟨vs', hvs, hdials⟩ := hok hr
        exact ⟨vs', hvs, hdials.trans hw.dials⟩
      · obtain ⟨d, hd, s₂, vs', hex, hdials⟩ := hfault m hm
        exact ⟨d, List.mem_cons_of_mem _ hd, s₂, vs', hex, hdials.trans hw.dials⟩
    · cases h
      refine ⟨hapart, by simp, fun m hm => ?_⟩
      cases hm
      obtain ⟨w, hw, hex⟩ := hexchange vs hs rfl
      rw [value_of_data hw.symm] at hex
      exact ⟨c, List.mem_cons_self, _, vs, hex, rfl⟩
    · cases h
      exact ⟨hapart, by simp, by simp⟩

/-- A link that was made has had its greeting answered, and on one whose greeting was rejected the
rejection came last. -/
theorem connect_exchanges {link now t : Nat} {node : Node} {deadline : Option Nat}
    {s s' : State (Logged σ)} {r : Outcome Unit}
    (h : (network B.logged patience).connect link node now deadline s = (r, t, s')) :
    Apart link s s' ∧
    (r = .ok () → ∃ vs, Synced s' link vs ∧ (s.net.script link).dials < (s'.net.script link).dials) ∧
    ∀ m, r = .failed (.data m) → ∃ c ∈ greeting node, ∃ s₁ vs, Exchanges link c vs (.error m) s₁ s' ∧
      (s.net.script link).dials < (s'.net.script link).dials := by
  simp only [network, bare, ByteNetwork.logged] at h
  rcases hd : B.dial link node now s.net.net with ⟨reason | _, t₁, net⟩ <;> simp only [hd] at h
  · cases h
    exact ⟨⟨fun _ _ => rfl, fun _ _ => by simp⟩, by simp, by simp [gone]⟩
  · let s₁ : State (Logged σ) :=
      { net := s.net.record net [.dialled link], links := s.links.insert link { node := node.id } }
    have hscript : s₁.net.script link = { dials := (s.net.script link).dials + 1 } := by
      simp [s₁, Transcript.add]
    have hdial : (s₁.net.script link).dials = (s.net.script link).dials + 1 := by rw [hscript]
    have hapart : Apart link s s₁ := by
      refine ⟨fun other hne => ?_, fun other hne => ?_⟩
      · exact Table.find?_insert .. |>.trans (if_neg hne)
      · simp [s₁, Transcript.add, hne.symm]
    have hsynced : Synced s₁ link [] := by
      constructor
      · rw [hscript]
        exact ⟨{ node := node.id }, Table.find?_insert_self .., .nil _⟩
      · rw [hscript]
        rfl
    obtain ⟨hapart', hok, hfault⟩ := greet_exchanges (s := s₁) h hsynced
    refine ⟨hapart.trans hapart', fun hr => ?_, fun m hm => ?_⟩
    · obtain ⟨vs, hvs, hdials⟩ := hok hr
      exact ⟨vs, hvs, by omega⟩
    · obtain ⟨c, hc, s₂, vs, hex, hdials⟩ := hfault m hm
      have := hex.dials
      exact ⟨c, hc, s₂, vs, hex, by omega⟩

/-- Whether two states differ neither in what passed over their links nor in what is left of it. -/
structure Same (s s' : State (Logged σ)) : Prop where
  links : s'.links = s.links
  log : s'.net.log = s.net.log

theorem Same.script {s s' : State (Logged σ)} (h : Same s s') (link : Nat) :
    s'.net.script link = s.net.script link := by
  rw [Logged.script, h.log, Logged.script]

theorem Same.refl (s : State (Logged σ)) : Same s s := ⟨rfl, rfl⟩

theorem Synced.same {link : Nat} {s s' : State (Logged σ)} {vs : List Resp.Value}
    (h : Synced s link vs) (hs : Same s s') : Synced s' link vs := by
  constructor
  · rw [hs.links, hs.script]
    exact h.takes
  · rw [hs.script]
    exact h.written

theorem Exchanges.same {link : Nat} {c : Command} {vs : List Resp.Value} {v : Resp.Value}
    {s s' s'' : State (Logged σ)} (h : Exchanges link c vs v s s') (hs : Same s' s'') :
    Exchanges link c vs v s s'' := by
  refine ⟨h.synced.same hs, ?_, ?_⟩
  · rw [hs.script]
    exact h.written
  · rw [hs.script]
    exact h.dials

theorem close_same (B : ByteNetwork σ) (patience : Option Nat) (link now : Nat)
    (s : State (Logged σ)) : Same s ((network B.logged patience).close link now s) :=
  ⟨rfl, by simp [network, bare, ByteNetwork.logged, Logged.record]⟩

end Stream

end ShardFleet
