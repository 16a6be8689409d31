import ShardFleet.Proofs.Handshakes

/-!
# Who learns how a listener ended

How a listener ended is told once: to a call that waits for acknowledgements in vain, or to whoever
joins the subscription. So whoever joins it learns how its listener ended, unless a call has learned
that before. Then all seems well to whoever joins, however the listener ended.
-/

namespace ShardFleet

variable {σ : Type} {N : Network σ}

/-- What somebody is answered who learns how a listener ended. -/
def Ending.answer : Ending → Outcome Unit
  | quiet => .ok ()
  | failed f => .failed f

/-- What arrives on a link does not depend on whether the network is overheard. -/
theorem Network.Brings.overheard {link : Nat} {xs : List Arrival} {s : Overheard σ}
    (h : N.Brings link xs s.net) : N.overheard.Brings link xs s := by
  obtain ⟨P, hfeeds, hs⟩ := h
  refine ⟨fun xs s => P xs s.net,
    ⟨fun x xs now deadline s hx => ?_, fun xs s => hfeeds.backlog xs s.net⟩, hs⟩
  obtain ⟨t, net, hr, hxs⟩ | ⟨hlimit, t, net, hr, hxs⟩ := hfeeds.next x xs now deadline s.net hx
  · cases x with
    | ok v => exact .inl ⟨t, { s with net }.add link (.heard v), by
        simp only [Network.overheard, hr, Outcome.ofExcept], hxs⟩
    | error f => exact .inl ⟨t, { s with net }, by
        simp only [Network.overheard, hr, Outcome.ofExcept], hxs⟩
  · exact .inr ⟨hlimit, t, { s with net }, by simp only [Network.overheard, hr], hxs⟩

namespace Subscription

variable {s s' s'' : Subscription} {w w' : Wire σ} {r : Outcome Unit} {e : Ending}

/-! ### What a request tells -/

/-- Whether nothing was asked of a subscription between two moments, so that at most its listener took
steps. -/
structure Idles (s s' : Subscription) : Prop where
  told : s'.told = s.told
  held : s'.held = s.held
  lasts : s.Lasts s'

theorem Idles.refl (s : Subscription) : s.Idles s := ⟨rfl, rfl, .refl s⟩

theorem Idles.trans (h : s.Idles s') (h' : s'.Idles s'') : s.Idles s'' :=
  ⟨h'.told.trans h.told, h'.held.trans h.held, h.lasts.trans h'.lasts⟩

theorem idles_advances {x y : Subscription × Wire σ} (h : Advances N x y) : x.1.Idles y.1 where
  told := (kept_advances h).1
  held := (kept_advances h).2
  lasts := (conducts_proceeds (proceeds_advances h)).lasts

/-- Whether a call that added names, fewer than too many, failed although the listener ran when it was
made. -/
structure AddsInVain (s : Subscription) (names : List String) (r : Outcome Unit) (f : Fault) : Prop where
  active : s.listener.isRunning = true
  named : names ≠ []
  few : names.length < ackLimit
  failed : r = .failed f

/-- What the holder of a subscription learns from a request: nothing of how the listener ended, or just
that. -/
inductive Learns (s : Subscription) (request : Request) (r : Outcome Unit) (s' : Subscription) :
    Prop where
  | nothing (told : s'.told = s.told)
      (useful : ∀ topic names f, request = .extend topic names → ¬ s.AddsInVain names r f) :
    Learns s request r s'
  | ending {topic names f e} (asked : request = .extend topic names)
      (vain : s.AddsInVain names r f) (told : s'.told = true) (ended : s'.listener.ending = some e)
      (first : s.told = false → e.fault = f) : Learns s request r s'

theorem send_kept (c : Command) (s : Subscription) (w : Wire σ) :
    (s.send N c w).1.told = s.told ∧ (s.send N c w).1.held = s.held := by
  unfold send
  split
  · exact ⟨rfl, rfl⟩
  · rw [stepped_fst]
    exact ⟨rfl, rfl⟩

/-- Too many names are refused at once. -/
theorem awaitAcks_many {count : Nat} (many : ackLimit ≤ count) (s : Subscription) (w : Wire σ) :
    s.awaitAcks N count w = (.failed (.session .tooManyNames), s, w) := by
  unfold awaitAcks
  rw [if_pos many]

theorem extend_learns {topic : Topic} {names : List String}
    (h : s.extend N topic names w = (r, s', w')) :
    s'.held = s.held ∧ s.Learns (.extend topic names) r s' := by
  have hunless {t : Subscription} (htold : t.told = s.told)
      (huseful : ∀ f, ¬ s.AddsInVain names r f) : s.Learns (.extend topic names) r t :=
    .nothing htold fun _ _ f hsame => by cases hsame; exact huseful f
  unfold extend at h
  split at h
  · rename_i hnone
    cases h
    exact ⟨rfl, hunless rfl fun _ hv => hv.named (by simpa using hnone)⟩
  split at h
  · rename_i hended
    cases h
    exact ⟨rfl, hunless rfl fun _ hv => by simp [hv.active] at hended⟩
  rename_i named going
  have named : names ≠ [] := by simpa using named
  have active : s.listener.isRunning = true := by simpa using going
  obtain few | many := Nat.lt_or_ge names.length ackLimit
  · split at h
    · -- Enough acknowledgements came unasked, so that the call does not wait.
      rename_i hacks
      have hready : s.awaitAcks N names.length w = (.ok (),
          { s with listener := { s.listener with acks := s.listener.acks - names.length } }, w) := by
        unfold awaitAcks
        rw [if_neg (by omega), if_pos (by simp [active, hacks])]
      simp only [hready] at h
      obtain ⟨htold, hheld⟩ := send_kept (N := N) (command topic.joinCommand names)
        { s with listener := { s.listener with acks := s.listener.acks - names.length } } w
      cases h
      exact ⟨hheld, hunless htold fun f hv => by cases hv.failed⟩
    · obtain ⟨htold, hheld⟩ := send_kept (N := N) (command topic.joinCommand names) s w
      rcases hsend : s.send N (command topic.joinCommand names) w with ⟨s₁, w₁⟩
      simp only [hsend] at h htold hheld
      obtain ⟨many, -⟩ | ⟨s₂, hadvances, hends⟩ := awaitAcks_advances h
      · omega
      have hidles := idles_advances hadvances
      have htold₂ : s₂.told = s.told := hidles.told.trans htold
      have hheld₂ : s₂.held = s.held := hidles.held.trans hheld
      obtain ⟨rfl, -, -, rfl⟩ | ⟨rfl, rfl⟩ | ⟨rfl, hended, rfl⟩ := hends
      · exact ⟨hheld₂, hunless htold₂ fun f hv => by cases hv.failed⟩
      · exact ⟨hheld₂, hunless htold₂ fun f hv => by cases hv.failed⟩
      · obtain ⟨e, he⟩ := Listener.isRunning_eq_false.1 hended
        refine ⟨hheld₂, .ending (e := e) rfl ⟨active, named, few, rfl⟩ rfl he fun huntold => ?_⟩
        exact (deadEnd_of_ended ⟨he, htold₂.trans huntold⟩).symm
  · have hmany : ∀ f, ¬ s.AddsInVain names r f := fun _ hv => absurd hv.few (by omega)
    obtain ⟨htold, hheld⟩ := send_kept (N := N) (command topic.joinCommand names) s w
    simp only [awaitAcks_many many, ite_self] at h
    cases h
    exact ⟨hheld, hunless htold hmany⟩

/-- To let go of a subscription is to let go of it for good. -/
theorem held_drop (s : Subscription) (w : Wire σ) : (s.drop N w).1.held = false :=
  (kept_advances (settle_advances (N := N) { s with held := false } w)).2

theorem held_join (h : s.join N w = (r, s', w')) : s'.held = false := by
  unfold join at h
  split at h
  · cases h
    exact held_drop s w
  · rcases hrun : s.run N (fun _ => false) w with ⟨_ | _, s₁, w₁⟩ <;> simp only [hrun] at h
    · cases h
      exact held_drop s₁ w₁
    · split at h <;> cases h <;> rfl

/-- A request after which the subscription is still held tells of its end only where names were added
in vain. -/
theorem request_learns {request : Request} (h : request.run N s w = (r, s', w'))
    (held : s'.held = true) : s.held = true ∧ s.Learns request r s' := by
  cases request with
  | extend topic names =>
    obtain ⟨hheld, hlearns⟩ := extend_learns h
    exact ⟨hheld.symm.trans held, hlearns⟩
  | leave topic names =>
    obtain ⟨htold, hheld⟩ := send_kept (N := N) (command topic.leaveCommand names) s w
    simp only [Request.run, leave, control] at h
    split at h <;> cases h
    · exact ⟨hheld.symm.trans held, .nothing htold fun _ _ _ hsame => by cases hsame⟩
    · exact ⟨held, .nothing rfl fun _ _ _ hsame => by cases hsame⟩
  | join => cases (held_join h).symm.trans held
  | drop =>
    cases h
    cases (held_drop s w).symm.trans held

/-! ### What whoever joins is told -/

/-- Whoever joins is told nothing if a call was told before, and how the listener ended otherwise. -/
theorem join_cases (h : s.join N w = (r, s', w')) :
    (s.told = true ∧ r = .ok ()) ∨
    (s.told = false ∧ (r = .stalled ∨ ∃ e, s'.listener.ending = some e ∧ r = e.answer)) := by
  unfold join at h
  split at h
  · rename_i htold
    cases h
    exact .inl ⟨htold, rfl⟩
  · rename_i htold
    refine .inr ⟨by simpa using htold, ?_⟩
    rcases hrun : s.run N (fun _ => false) w with ⟨_ | _, s₁, w₁⟩ <;> simp only [hrun] at h
    · cases h
      exact .inl rfl
    · have hended : s₁.listener.isRunning = false := by simpa using (runUntil_advances hrun).2 rfl
      obtain ⟨e, he⟩ := Listener.isRunning_eq_false.1 hended
      refine .inr ⟨e, ?_⟩
      cases e <;> simp only [he] at h <;> cases h <;> exact ⟨he, rfl⟩

/-- How a listener comes to its end: it has ended so, or it runs and something arrives that ends it
so. -/
inductive ComesToEnd (N : Network σ) (s : Subscription) (net : σ) (e : Ending) : Prop where
  | ended (ended : s.listener.ending = some e) : ComesToEnd N s net e
  | arrives {before last rest} (active : s.listener.isRunning = true)
      (arriving : N.Brings s.connection.link (before ++ last :: rest) net)
      (going : ∀ y ∈ before, Arrival.ending? y = none) (ends : last.ending? = some e) :
    ComesToEnd N s net e

theorem ComesToEnd.overheard {net : Overheard σ} (h : ComesToEnd N s net.net e) :
    ComesToEnd N.overheard s net e := by
  cases h with
  | ended ended => exact .ended ended
  | arrives active arriving going ends => exact .arrives active arriving.overheard going ends

/-- Whoever joins while nobody was told learns the end that the listener comes to, unless the wait is
given up. -/
theorem ComesToEnd.join (hcomes : ComesToEnd N s w.net e) (untold : s.told = false)
    (h : s.join N w = (r, s', w')) : r = e.answer ∨ r = .stalled ∧ w.deadline ≠ none := by
  have hjoined {s₁ : Subscription} {w₁ : Wire σ} (hrun : s.run N (fun _ => false) w = (true, s₁, w₁))
      (hended : s₁.listener.ending = some e) : r = e.answer := by
    unfold Subscription.join at h
    rw [if_neg (by simp [untold])] at h
    cases e <;> simp only [hrun, hended] at h <;> cases h <;> rfl
  cases hcomes with
  | ended hended =>
    have hinactive := Listener.isRunning_eq_false.2 ⟨e, hended⟩
    exact .inl (hjoined (runUntil_ended (Nat.succ_pos _) hinactive) hended)
  | @arrives before last rest active arriving going ends =>
    have hdue : Due N (s.listener.acks + before.countP (·.joins) + 1) w.deadline e before (s, w) :=
      ⟨active, untold, rfl, ⟨last, rest, ends, arriving⟩, going, Nat.lt_succ_self _⟩
    rcases hrun : s.run N (fun _ => false) w with ⟨b, s₁, w₁⟩
    obtain ⟨rfl, hended⟩ | ⟨rfl, hlimit⟩ := hdue.run (fun _ _ => rfl) hrun
    · exact .inl (hjoined hrun hended.1)
    · unfold Subscription.join at h
      rw [if_neg (by simp [untold])] at h
      simp only [hrun] at h
      cases h
      exact .inr ⟨rfl, hlimit⟩

/-- A subscription that was just started tells nobody of its end as long as it is held. -/
theorem untold_start {topic : Topic} {names : List String} {p p' : Pool} {o : Started}
    (h : start N topic names p w = (o, p', w')) (hs : o.subscription = some s)
    (held : s.held = true) : s.told = false := by
  cases start_launches h with
  | unnamed | unconnected | unsent => cases hs
  | established _ _ _ awaits =>
    cases hs
    obtain ⟨-, hr, -⟩ | ⟨s₁, hadvances, ⟨-, -, -, rfl⟩ | ⟨hr, -⟩ | ⟨hr, -⟩⟩ :=
      awaitAcks_advances awaits
    · cases hr
    · exact (kept_advances hadvances).1
    · cases hr
    · cases hr
  | @unanswered _ _ _ _ t w₃ =>
    cases hs
    cases (held_drop t w₃).symm.trans held

end Subscription

namespace Subscriptions

variable {x y : Subscriptions × Wire σ} {i : Nat} {sub sub' : Subscription}

theorem idles_advances (h : Advances N x y) : y.1.started.length = x.1.started.length ∧
    ∀ (i : Nat) (sub : Subscription), x.1.started[i]? = some sub →
      ∃ sub', y.1.started[i]? = some sub' ∧ sub.Idles sub' := by
  induction h with
  | refl => exact ⟨rfl, fun i sub hi => ⟨sub, hi, .refl sub⟩⟩
  | tail _ hstep ih =>
    obtain ⟨hlength, hidles⟩ := ih
    cases hstep with
    | one here stirs =>
      refine ⟨List.length_set.trans hlength, fun i sub hi => ?_⟩
      obtain ⟨sub', hi', h⟩ := hidles i sub hi
      obtain ⟨sub'', hi'', h'⟩ := exists_put .refl here (Subscription.idles_advances (.single stirs)) hi'
      exact ⟨sub'', hi'', h.trans h'⟩

/-- However long listeners are let run, every subscription is one that was there. -/
theorem idled_advances (h : Advances N x y) (hi : y.1.started[i]? = some sub') :
    ∃ sub, x.1.started[i]? = some sub ∧ sub.Idles sub' := by
  obtain ⟨hlength, hidles⟩ := idles_advances h
  have hlt : i < x.1.started.length := hlength ▸ (List.getElem?_eq_some_iff.1 hi).1
  have here := List.getElem?_eq_getElem hlt
  obtain ⟨sub'', hi', hsame⟩ := hidles i _ here
  cases hi.symm.trans hi'
  exact ⟨_, here, hsame⟩

namespace Scene

/-! ### What becomes of subscriptions -/

/-- Where a subscription comes from that is there after a move. -/
inductive Stems (N : Network σ) (s : Scene σ) (i : Nat) : Move σ → Subscription → Prop where
  | left {m sub sub'} (there : s.registry.find? i = some sub)
      (unasked : ∀ request, m ≠ .call (.ask i request)) (idles : sub.Idles sub') : Stems N s i m sub'
  | asked {request sub r sub₁ w sub'} (there : s.registry.find? i = some sub)
      (ran : request.run N.overheard sub s.wire = (r, sub₁, w)) (idles : sub₁.Idles sub') :
    Stems N s i (.call (.ask i request)) sub'
  | begun {topic names pool sub'} (new : s.registry.find? i = none)
      (untold : sub'.held = true → sub'.told = false) :
    Stems N s i (.call (.start topic names pool)) sub'

variable {s : Scene σ} {moves : List (Move σ)} {i : Nat} {sub sub' : Subscription}

section

variable {request : Subscription.Request} {sub₁ : Subscription} {r : Outcome Unit}
  {w : Wire (Overheard σ)}

theorem make_ask (there : s.registry.find? i = some sub)
    (ran : request.run N.overheard sub s.wire = (r, sub₁, w)) :
    s.make N (.ask i request) = (some (r.map fun _ => i),
      ⟨((s.registry.put i sub sub₁).settle N.overheard w).1,
        ((s.registry.put i sub sub₁).settle N.overheard w).2⟩) := by
  have here : s.registry.started[i]? = some sub := there
  simp only [make, act, here, ran, Option.map_some]

/-- What was asked of a subscription is done, and then listeners take what has arrived. -/
theorem after_ask (there : s.registry.find? i = some sub)
    (ran : request.run N.overheard sub s.wire = (r, sub₁, w)) :
    ∃ sub', (s.after N (.call (.ask i request))).registry.find? i = some sub' ∧ sub₁.Idles sub' := by
  have hadvances := settle_advances (N := N.overheard) (s.registry.put i sub sub₁) w
  rw [after, make_ask there ran]
  exact (idles_advances hadvances).2 i sub₁ (getElem?_put_self there)

end

theorem stems_ask (s : Scene σ) (number : Nat) (request : Subscription.Request) :
    s.registry.started.length ≤
      (s.after N (.call (.ask number request))).registry.started.length ∧
    ∀ i sub', (s.after N (.call (.ask number request))).registry.find? i = some sub' →
      Stems N s i (.call (.ask number request)) sub' := by
  cases hn : s.registry.started[number]? with
  | none =>
    have hafter : s.after N (.call (.ask number request)) = s := by
      simp only [after, make, act, hn]
    rw [hafter]
    refine ⟨le_rfl, fun i sub hi => .left hi (fun request' hm => ?_) (.refl sub)⟩
    cases hm
    cases hn.symm.trans hi
  | some sub =>
    rcases hr : request.run N.overheard sub s.wire with ⟨r, sub₁, w₁⟩
    have hadvances := settle_advances (N := N.overheard) (s.registry.put number sub sub₁) w₁
    rw [after, make_ask hn hr]
    refine ⟨by simp [(idles_advances hadvances).1], fun i sub' hi => ?_⟩
    obtain ⟨sub₂, hsub₂, h⟩ := idled_advances hadvances hi
    by_cases hni : number = i
    · subst hni
      cases (getElem?_put_self hn).symm.trans hsub₂
      exact .asked hn hr h
    · refine .left ((List.getElem?_set_ne hni).symm.trans hsub₂) (fun request' hm => ?_) h
      cases hm
      exact hni rfl

theorem stems_start (s : Scene σ) (topic : Topic) (names : List String) (pool : Pool) :
    s.registry.started.length ≤
      (s.after N (.call (.start topic names pool))).registry.started.length ∧
    ∀ i sub', (s.after N (.call (.start topic names pool))).registry.find? i = some sub' →
      Stems N s i (.call (.start topic names pool)) sub' := by
  rcases hr : Subscription.start N.overheard topic names pool s.wire with ⟨o, p, w⟩
  have hafter : s.after N (.call (.start topic names pool)) =
      ⟨s.registry.add o.subscription, w⟩ := by
    simp only [after, make, Subscriptions.start, hr]
  rw [hafter]
  refine ⟨by simp, fun i sub' hi => ?_⟩
  simp only [find?, started_add] at hi
  obtain hlt | hge := Nat.lt_or_ge i s.registry.started.length
  · have here := (List.getElem?_append_left hlt).symm.trans hi
    exact .left here (fun _ hsame => by cases hsame) (.refl sub')
  · have hmem : o.subscription.toList[i - s.registry.started.length]? = some sub' :=
      (List.getElem?_append_right hge).symm.trans hi
    have hsub : o.subscription = some sub' := Option.mem_toList.1 (List.mem_of_getElem? hmem)
    exact .begun (List.getElem?_eq_none hge) (Subscription.untold_start hr hsub)

theorem stems_after (s : Scene σ) (m : Move σ) :
    s.registry.started.length ≤ (s.after N m).registry.started.length ∧
    ∀ i sub', (s.after N m).registry.find? i = some sub' → Stems N s i m sub' := by
  cases m with
  | call c =>
    cases c with
    | start topic names pool => exact stems_start s topic names pool
    | ask number request => exact stems_ask s number request
  | listen =>
    have hadvances := settle_advances (N := N.overheard) s.registry s.wire
    refine ⟨(idles_advances hadvances).1.ge, fun i sub' hi => ?_⟩
    obtain ⟨sub, hsub, h⟩ := idled_advances hadvances hi
    exact .left hsub (fun _ hsame => by cases hsame) h
  | meanwhile =>
    exact ⟨le_rfl, fun i sub hi => .left hi (fun _ hsame => by cases hsame) (.refl sub)⟩

/-! ### What has been told -/

/-- Whether a move is a call that fails to add names to a subscription although its listener runs. -/
inductive AddsInVain (N : Network σ) (s : Scene σ) (i : Nat) (f : Fault) : Move σ → Prop where
  | extend {topic names sub} (there : s.registry.find? i = some sub)
      (active : sub.listener.isRunning = true) (named : names ≠ [])
      (few : names.length < Subscription.ackLimit)
      (failed : s.outcome N (.ask i (.extend topic names)) = some (.failed f)) :
    AddsInVain N s i f (.call (.ask i (.extend topic names)))

/-- A call adds names in vain exactly if the subscription that it asks fails to add them. -/
theorem addsInVain_ask_iff {request : Subscription.Request} {sub₁ : Subscription} {r : Outcome Unit}
    {w : Wire (Overheard σ)} {f : Fault} (there : s.registry.find? i = some sub)
    (ran : request.run N.overheard sub s.wire = (r, sub₁, w)) :
    AddsInVain N s i f (.call (.ask i request)) ↔
      ∃ topic names, request = .extend topic names ∧ sub.AddsInVain names r f := by
  have houtcome : s.outcome N (.ask i request) = some (r.map fun _ => i) :=
    congrArg Prod.fst (make_ask there ran)
  constructor
  · intro hv
    generalize hm : Move.call (.ask i request) = m at hv
    cases hv with
    | @extend topic names _ there' active named few failed =>
      cases hm
      cases there.symm.trans there'
      cases r <;> cases houtcome.symm.trans failed
      exact ⟨topic, names, rfl, active, named, few, rfl⟩
  · rintro ⟨topic, names, rfl, active, named, few, rfl⟩
    exact .extend there active named few houtcome

/-- Whether a call among some moves has failed to add names to a subscription although its listener ran
when the call was made, and has been told this fault. -/
def Told (N : Network σ) (s : Scene σ) (moves : List (Move σ)) (i : Nat) (f : Fault) : Prop :=
  ∃ before m, before ++ [m] <+: moves ∧ AddsInVain N (s.run N before) i f m

theorem told_concat {s : Scene σ} {moves : List (Move σ)} {m : Move σ} {i : Nat} {f : Fault} :
    Told N s (moves ++ [m]) i f ↔ Told N s moves i f ∨ AddsInVain N (s.run N moves) i f m := by
  constructor
  · rintro ⟨before, m', hpre, hvain⟩
    obtain hsame | hpre := List.prefix_concat_iff.1 hpre
    · obtain ⟨rfl, hm⟩ := List.append_inj' hsame rfl
      cases hm
      exact .inr hvain
    · exact .inl ⟨before, m', hpre, hvain⟩
  · rintro (⟨before, m', hpre, hvain⟩ | hvain)
    · exact ⟨before, m', hpre.trans (List.prefix_append ..), hvain⟩
    · exact ⟨moves, m, List.prefix_rfl, hvain⟩

/-- What holds after some moves: of the end of a subscription that is held was told what the calls were
told that added names to it in vain. -/
structure Candid (N : Network σ) (s : Scene σ) (moves : List (Move σ)) : Prop where
  unstarted : ∀ i, (s.run N moves).registry.find? i = none → ∀ f, ¬ Told N s moves i f
  told : ∀ i sub, (s.run N moves).registry.find? i = some sub → sub.held = true →
    (sub.told = true ↔ ∃ f, Told N s moves i f)
  ended : ∀ i sub f, (s.run N moves).registry.find? i = some sub → sub.held = true →
    Told N s moves i f → ∃ e, sub.listener.ending = some e ∧ e.fault = f

theorem Candid.untold_of_active (h : Candid N s moves)
    (there : (s.run N moves).registry.find? i = some sub) (held : sub.held = true)
    (active : sub.listener.isRunning = true) : sub.told = false := by
  by_contra htold
  obtain ⟨f, hf⟩ := (h.told i sub there held).1 (by simpa using htold)
  obtain ⟨e, he, -⟩ := h.ended i sub f there held hf
  cases active.symm.trans (Listener.isRunning_eq_false.2 ⟨e, he⟩)

/-- A move that adds no names in vain leaves it at what was told. -/
theorem Candid.untouched {m : Move σ} (h : Candid N s moves)
    (there : (s.run N moves).registry.find? i = some sub) (held : sub.held = true)
    (told : sub'.told = sub.told) (lasts : sub.Lasts sub')
    (never : ∀ f, ¬ AddsInVain N (s.run N moves) i f m) :
    (sub'.told = true ↔ ∃ f, Told N s (moves ++ [m]) i f) ∧
      ∀ f, Told N s (moves ++ [m]) i f → ∃ e, sub'.listener.ending = some e ∧ e.fault = f := by
  simp only [told_concat, never, or_false, told]
  refine ⟨h.told i sub there held, fun f hf => ?_⟩
  obtain ⟨e, he, hfault⟩ := h.ended i sub f there held hf
  exact ⟨e, (lasts.ended e he).1, hfault⟩

/-- What was told of one subscription after one more move. -/
theorem Candid.stems {m : Move σ} (h : Candid N s moves) (held : sub'.held = true)
    (hstems : Stems N (s.run N moves) i m sub') :
    (sub'.told = true ↔ ∃ f, Told N s (moves ++ [m]) i f) ∧
      ∀ f, Told N s (moves ++ [m]) i f → ∃ e, sub'.listener.ending = some e ∧ e.fault = f := by
  cases hstems with
  | @left _ sub _ there unasked idles =>
    refine h.untouched there (idles.held.symm.trans held) idles.told idles.lasts fun f hv => ?_
    cases hv
    exact unasked _ rfl
  | @asked request sub r sub₁ w _ there ran idles =>
    have hlasts := (Subscription.conducts_proceeds (Subscription.proceeds_request request ran)).lasts
    obtain ⟨hheld, hlearns⟩ := Subscription.request_learns ran (idles.held.symm.trans held)
    cases hlearns with
    | nothing htold huseful =>
      refine h.untouched there hheld (idles.told.trans htold) (hlasts.trans idles.lasts) fun f hv => ?_
      obtain ⟨topic, names, hrequest, hvain⟩ := (addsInVain_ask_iff there ran).1 hv
      exact huseful topic names f hrequest hvain
    | @ending topic names f e asked vain htold hended first =>
      subst asked
      have huntold := h.untold_of_active there hheld vain.active
      have hmade := (addsInVain_ask_iff there ran).2 ⟨topic, names, rfl, vain⟩
      simp only [told_concat]
      refine ⟨⟨fun _ => ⟨f, .inr hmade⟩, fun _ => idles.told.trans htold⟩, ?_⟩
      rintro g (hg | hg)
      · rw [(h.told i sub there hheld).2 ⟨g, hg⟩] at huntold
        cases huntold
      · obtain ⟨_, _, hsame, hvain⟩ := (addsInVain_ask_iff there ran).1 hg
        cases hsame
        cases vain.failed.symm.trans hvain.failed
        exact ⟨e, (idles.lasts.ended e hended).1, first huntold⟩
  | @begun topic names pool _ new untold =>
    have hnever (f : Fault) : ¬ (Told N s moves i f ∨
        AddsInVain N (s.run N moves) i f (.call (.start topic names pool))) := by
      rintro (hf | hf)
      · exact h.unstarted i new f hf
      · cases hf
    simp [told_concat, untold held, hnever]

/-- **One move** keeps what was told. -/
theorem Candid.concat (h : Candid N s moves) (m : Move σ) : Candid N s (moves ++ [m]) := by
  obtain ⟨hlength, hstems⟩ := stems_after (N := N) (s.run N moves) m
  constructor
  · intro i hnone f hf
    rw [run_concat] at hnone
    have hnone' : (s.run N moves).registry.find? i = none :=
      List.getElem?_eq_none (hlength.trans (List.getElem?_eq_none_iff.1 hnone))
    obtain hf | hf := told_concat.1 hf
    · exact h.unstarted i hnone' f hf
    · cases hf with
      | extend there => cases hnone'.symm.trans there
  · intro i sub there held
    rw [run_concat] at there
    exact (h.stems held (hstems i sub there)).1
  · intro i sub f there held
    rw [run_concat] at there
    exact (h.stems held (hstems i sub there)).2 f

theorem candid_run (N : Network σ) (net : σ) (moves : List (Move σ)) : Candid N (start net) moves := by
  induction moves using List.reverseRecOn with
  | nil =>
    have hnever (i : Nat) (f : Fault) : ¬ Told N (start net) [] i f := by
      rintro ⟨before, m, hpre, -⟩
      simp at hpre
    exact ⟨fun i _ => hnever i, nofun, nofun⟩
  | append_singleton moves m ih => exact ih.concat m

/-- **Whoever joins a subscription learns how its listener ended, unless a call has learned it before**:
if a call that added names in vain was told a fault, all seems well to whoever joins, even though that
fault tells how the listener ended. Otherwise the answer is that all went well exactly if the listener
ended quietly, and a fault exactly if it ended with that fault; and there is an answer once the listener
has come to its end, unless the wait is given up before. -/
theorem joined_truly_unless_told (N : Network σ) (net : σ) (moves : List (Move σ)) {i : Nat}
    {sub : Subscription} (there : ((start net).run N moves).registry.find? i = some sub)
    (held : sub.held = true) :
    let now := (start net).run N moves
    let later := now.after N (.call (.ask i .join))
    let answer := now.outcome N (.ask i .join)
    (∀ f, Told N (start net) moves i f →
      answer = some (.ok i) ∧ ∃ e, sub.listener.ending = some e ∧ e.fault = f) ∧
    ((∀ f, ¬ Told N (start net) moves i f) →
      (answer ≠ some .stalled → ∃ sub' e, later.registry.find? i = some sub' ∧
        sub'.listener.ending = some e ∧ (answer = some (.ok i) ↔ e = .quiet) ∧
        ∀ f, answer = some (.failed f) ↔ e = .failed f) ∧
      ∀ e, sub.ComesToEnd N now.wire.net.net e → answer = some (e.answer.map fun _ => i) ∨
        answer = some .stalled ∧ now.wire.deadline ≠ none) := by
  intro now later answer
  have hcandid := candid_run N net moves
  rcases hr : Subscription.Request.join.run N.overheard sub now.wire with ⟨r, sub₁, w₁⟩
  have hanswer : answer = some (r.map fun _ => i) := congrArg Prod.fst (make_ask there hr)
  refine ⟨fun f hf => ⟨?_, hcandid.ended i sub f there held hf⟩, fun hnever => ?_⟩
  · have htold := (hcandid.told i sub there held).2 ⟨f, hf⟩
    obtain ⟨-, rfl⟩ | ⟨huntold, -⟩ := Subscription.join_cases hr
    · exact hanswer
    · cases htold.symm.trans huntold
  · have huntold : sub.told = false := by
      by_contra htold
      obtain ⟨f, hf⟩ := (hcandid.told i sub there held).1 (by simpa using htold)
      exact hnever f hf
    refine ⟨fun hanswered => ?_, fun e hcomes => ?_⟩
    · obtain ⟨htold, -⟩ | ⟨-, rfl | ⟨e, he, rfl⟩⟩ := Subscription.join_cases hr
      · cases huntold.symm.trans htold
      · exact absurd hanswer hanswered
      · obtain ⟨sub', there', hidles⟩ := after_ask there hr
        refine ⟨sub', e, there', (hidles.lasts.ended e he).1, ?_, fun f => ?_⟩ <;> rw [hanswer] <;>
          cases e <;> simp [Ending.answer, Outcome.map]
    · rw [hanswer]
      obtain rfl | ⟨rfl, hlimit⟩ := hcomes.overheard.join huntold hr
      · exact .inl rfl
      · exact .inr ⟨rfl, hlimit⟩

/-- A call that adds a name is told that the server rejects it, and then all seems well to whoever
joins. -/
theorem joined_well_after_rejected_name :
    ∃ (net : Rehearsal.Stage) (moves : List (Move Rehearsal.Stage)) (sub : Subscription),
      let now := (start net).run Rehearsal.network moves
      now.registry.find? 0 = some sub ∧ sub.held = true ∧
      Told Rehearsal.network (start net) moves 0 (.data "ERR no") ∧
      sub.listener.ending = some (.failed (.data "ERR no")) ∧
      now.outcome Rehearsal.network (.ask 0 .join) = some (.ok 0) := by
  let net : Rehearsal.Stage := {}
  let later : Rehearsal.Stage := { links := [{
    node := "a:1/0", channels := [utf8 "a"], queue := [.value (.error "ERR no")] }] }
  let begun : List (Move Rehearsal.Stage) := [
    .call (.start .channels ["a"] { node := { host := "a", port := 1 } }), .meanwhile later 0 none]
  let adds : Move Rehearsal.Stage := .call (.ask 0 (.extend .channels ["b"]))
  obtain ⟨sub, hsub, hactive⟩ := Option.map_eq_some_iff.1 (show
    (((start net).run Rehearsal.network begun).registry.find? 0).map (·.listener.isRunning) =
      some true by decide +kernel)
  have hvain : AddsInVain Rehearsal.network ((start net).run Rehearsal.network begun) 0
      (.data "ERR no") adds :=
    .extend hsub hactive (by simp) (by decide) (by decide +kernel)
  have htold : Told Rehearsal.network (start net) (begun ++ [adds]) 0 (.data "ERR no") :=
    told_concat.2 (.inr hvain)
  obtain ⟨sub', hsub', hfacts⟩ := Option.map_eq_some_iff.1 (show
    (((start net).run Rehearsal.network (begun ++ [adds])).registry.find? 0).map
      (fun sub => (sub.held, sub.listener.ending)) =
      some (true, some (.failed (.data "ERR no"))) by decide +kernel)
  obtain ⟨hheld, hending⟩ := Prod.mk.inj hfacts
  obtain ⟨hanswer, -⟩ := (joined_truly_unless_told Rehearsal.network net (begun ++ [adds]) hsub'
    hheld).1 _ htold
  exact ⟨net, begun ++ [adds], sub', hsub', hheld, htold, hending, hanswer⟩

end Scene

end Subscriptions

end ShardFleet
