import ShardFleet.Proofs.ClientCalls
import ShardFleet.Rehearsal.Script

/-!
# Handles of sessions

A session is told from others by its context alone, so that a handle stands for whichever session its
context has when the handle is used. It ends the session that it was given out for as long as that one
lasts. Afterwards it does nothing, until the context has another session, which it ends as well.
-/

namespace ShardFleet

variable {σ : Type} {N : Network σ}

/-! ### What a call does with a session -/

section

variable {call : Call} {context : Nat} {e e' : Executor} {w w' : Wire σ} {r : Outcome Answer}

/-- A session that is there before a call and after it is on the same node and on the same link. -/
theorem Deed.session_same {s t : Session} (h : Deed N call e w r e' w')
    (hs : e.session? context = some s) (ht : e'.session? context = some t) :
    t.node = s.node ∧ t.connection.map (·.link) = s.connection.map (·.link) := by
  have hsame (he : e'.session? context = e.session? context) :
      t.node = s.node ∧ t.connection.map (·.link) = s.connection.map (·.link) := by
    cases ht.symm.trans (he.trans hs)
    exact ⟨rfl, rfl⟩
  have hgone {other : Nat} {c : Connection} {v : Verdict} {e₁ : Executor} {w₁ : Wire σ}
      (hsettles : Settles N c (e₁.eraseSession other) w₁ v e' w') (hother : other = context) :
      e'.session? context = none := by
    rw [Executor.session?, hsettles.sessions, ← hother]
    exact Executor.session?_eraseSession_self ..
  by_cases hc : call.context? = some context
  case neg => exact hsame (h.session?_of_ne hc)
  -- A call of the context itself opens a session only where there is none, and where it ends one there
  -- is none afterwards.
  cases h with
  | refused | absent => exact hsame rfl
  | unlent _ hu => exact hsame (by cases hu <;> rfl)
  | pooled asked =>
    obtain rfl | ⟨other, rfl, free⟩ := asked <;> cases hc
    cases free.symm.trans hs
  | begun asked free =>
    cases asked
    cases hc
    cases free.symm.trans hs
  | stayed asker hr =>
    cases asker.symm.trans hc
    rw [Executor.session?_setSession_self] at ht
    cases ht
    cases hr with
    | bound hb hconn =>
      cases hb.symm.trans hs
      exact ⟨rfl, by rw [hconn]; rfl⟩
    | opened _ _ _ free => cases free.symm.trans hs
  | parted asker _ _ _ _ hsettles =>
    cases ht.symm.trans (hgone hsettles (Option.some.inj (asker.symm.trans hc)))
  | left asked _ _ _ hsettles | cleaned asked _ _ _ _ hsettles =>
    cases asked
    cases ht.symm.trans (hgone hsettles (Option.some.inj hc))

/-- A call that answers a handle has opened a session for its context, which had none. -/
theorem Deed.opened {h : SessionHandle} (hd : Deed N call e w (.ok (.opened h)) e' w') :
    call.context? = some h.context ∧ e.session? h.context = none ∧
      ∃ node c, h.node = node.id ∧ e'.session? h.context = some { node, connection := some c } := by
  generalize hr : Outcome.ok (Answer.opened h) = r at hd
  have hreply (r : Outcome Resp.Value) : Outcome.ok (Answer.opened h) ≠ r.map .reply := by
    cases r <;> simp [Outcome.map]
  cases hd with
  | begun asked free =>
    cases hr
    rw [asked]
    exact ⟨rfl, free, _, _, rfl, Executor.session?_setSession_self ..⟩
  | @unlent _ f? => cases f? <;> cases hr
  | pooled | stayed | parted => exact absurd hr (hreply _)
  | refused | absent | left => cases hr
  | cleaned => split at hr <;> cases hr

/-- Ending the session of a context never fails, and gives the connection of the session back. -/
theorem Executor.endSession_cases {was : Outcome Bool} (he : e.Housed)
    (h : e.endSession N context w = (was, e', w')) :
    (e.session? context = none ∧ was = .ok false ∧ e' = e ∧ w' = w) ∨
    ∃ s c d w₁ v, e.session? context = some s ∧ s.connection = some c ∧ d.link = c.link ∧
      (was = .ok true ∨ was = .stalled) ∧ Settles N d (e.eraseSession context) w₁ v e' w' := by
  cases hs : e.session? context with
  | none =>
    simp only [endSession, hs] at h
    cases h
    exact .inl ⟨rfl, rfl, rfl, rfl⟩
  | some s =>
    obtain ⟨c, p, hc, hp⟩ := he.pinned context s hs
    cases hk : cleanup? s.phase with
    | none =>
      simp only [endSession, hs, hc, hk] at h
      cases h
      exact .inr ⟨s, c, c, w, .sound, rfl, hc, rfl, .inl rfl, Executor.release_settles hp⟩
    | some command =>
      simp only [endSession, hs, hc, hk] at h
      rcases hr : c.request N command w with ⟨v | f | _, w₁⟩ <;> rw [hr] at h <;> cases h
      · exact .inr ⟨s, c, c.counted, w₁, .sound, rfl, hc, rfl, .inl rfl, Executor.release_settles hp⟩
      · exact .inr ⟨s, c, c.counted, w₁, _, rfl, hc, rfl, .inl rfl, Executor.settle_settles hp rfl⟩
      · exact .inr ⟨s, c, c, _, .abandoned, rfl, hc, rfl, .inr rfl, Executor.forget_settles hp⟩

end

namespace Client.Scene

/-- The session of a context. -/
def session? (s : Scene σ) (context : Nat) : Option Session := s.client.executor.session? context

section

variable (N : Network σ) (s : Scene σ) (moves : List (Move σ))

/-- Whether a context has a session at every moment of some moves, which is then the same all the
time. -/
def Lasts (context : Nat) : Prop :=
  ∀ earlier, earlier <+: moves → (s.run N earlier).session? context ≠ none

/-- Whether a context has a session after some moves, but another than before them. -/
def Replaced (context : Nat) : Prop :=
  ¬ s.Lasts N moves context ∧ (s.run N moves).session? context ≠ none

/-- Whether a handle that was given out before some moves ends its own session only: it is answered
whether that session is still open, and where it is not nothing is done. -/
structure EndsOwn (h : SessionHandle) : Prop where
  answers : ∀ was, (s.run N moves).outcome N (.endSession h) = .ok (.relayed (.ended was)) →
    (was = true ↔ s.Lasts N moves h.context)
  leaves : ¬ s.Lasts N moves h.context → (s.run N moves).afterCall N (.endSession h) = s.run N moves

/-- What a handle does that was given out before some moves. -/
structure Handled (h : SessionHandle) : Prop where
  /-- The session of the handle stays on the node that the handle names, and on one link. -/
  own : s.Lasts N moves h.context → ∃ t u c d, s.session? h.context = some t ∧
    (s.run N moves).session? h.context = some u ∧ t.node.id = h.node ∧ u.node = t.node ∧
    t.connection = some c ∧ u.connection = some d ∧ d.link = c.link
  /-- If the end is answered, it is answered whether the context has a session, whichever that is. -/
  answered : (s.run N moves).outcome N (.endSession h) ≠ .stalled →
    (s.run N moves).outcome N (.endSession h) =
      .ok (.relayed (.ended ((s.run N moves).session? h.context).isSome))
  /-- Whichever session it is, it is over afterwards and its connection is given back. -/
  ends : ∀ u, (s.run N moves).session? h.context = some u →
    ((s.run N moves).afterCall N (.endSession h)).session? h.context = none ∧
    ∃ c d w v, u.connection = some c ∧ d.link = c.link ∧
      Settles N d ((s.run N moves).client.executor.eraseSession h.context) w v
        ((s.run N moves).afterCall N (.endSession h)).client.executor
        ((s.run N moves).afterCall N (.endSession h)).wire
  ends_own_iff : s.EndsOwn N moves h ↔ ¬ s.Replaced N moves h.context

end

variable {s : Scene σ} {moves : List (Move σ)} {context : Nat} {h : SessionHandle}

theorem Lasts.of_prefix {earlier : List (Move σ)} (hl : s.Lasts N moves context)
    (hpre : earlier <+: moves) : s.Lasts N earlier context :=
  fun first hfirst => hl first (hfirst.trans hpre)

theorem session_same_after (hs : s.client.executor.Housed) (m : Move σ) {t u : Session}
    (ht : s.session? context = some t) (hu : (s.after N m).session? context = some u) :
    u.node = t.node ∧ u.connection.map (·.link) = t.connection.map (·.link) := by
  have hsame (he : (s.after N m).session? context = s.session? context) :
      u.node = t.node ∧ u.connection.map (·.link) = t.connection.map (·.link) := by
    cases hu.symm.trans (he.trans ht)
    exact ⟨rfl, rfl⟩
  cases m with
  | listen | meanwhile => exact hsame rfl
  | call c =>
    have hway := c.way (N := N) (w := s.wire) hs
    simp only [after, afterCall, session?] at hu hsame
    generalize (c.run N s.client s.wire).1 = r, (c.run N s.client s.wire).2.1 = client,
      (c.run N s.client s.wire).2.2 = wire at hway hu hsame
    cases hway with
    | unrouted => exact hsame rfl
    | relayed _ hd => exact hd.session_same ht hu
    | aside _ hspares => exact hsame (hspares.sessions context)

/-- While a session lasts it is the same. -/
theorem Lasts.same (hl : s.Lasts N moves context) (hs : s.client.executor.Housed) {t : Session}
    (ht : s.session? context = some t) : ∃ u, (s.run N moves).session? context = some u ∧
      u.node = t.node ∧ u.connection.map (·.link) = t.connection.map (·.link) := by
  induction moves using List.reverseRecOn with
  | nil => exact ⟨t, ht, rfl, rfl⟩
  | append_singleton moves m ih =>
    obtain ⟨u, hu, hnode, hlink⟩ := ih (hl.of_prefix (List.prefix_append ..))
    obtain ⟨v, hv⟩ := Option.ne_none_iff_exists'.1 (hl _ (List.prefix_refl _))
    rw [run_concat] at hv ⊢
    obtain ⟨hnode', hlink'⟩ := session_same_after (housed_run hs moves) m hu hv
    exact ⟨v, hv, hnode'.trans hnode, hlink'.trans hlink⟩

/-! ### Ending the session of a handle -/

/-- Without a session nothing is ended, and with one it is over. -/
theorem endSession_cases (hs : s.client.executor.Housed) (h : SessionHandle) :
    (s.session? h.context = none ∧ s.outcome N (.endSession h) = .ok (.relayed (.ended false)) ∧
      s.afterCall N (.endSession h) = s) ∨
    ∃ u c d w v, s.session? h.context = some u ∧ u.connection = some c ∧ d.link = c.link ∧
      (s.outcome N (.endSession h) = .ok (.relayed (.ended true)) ∨
        s.outcome N (.endSession h) = .stalled) ∧
      (s.afterCall N (.endSession h)).session? h.context = none ∧
      Settles N d (s.client.executor.eraseSession h.context) w v
        (s.afterCall N (.endSession h)).client.executor (s.afterCall N (.endSession h)).wire := by
  rcases he : s.client.executor.endSession N h.context s.wire with ⟨was, e, w'⟩
  have houtcome : s.outcome N (.endSession h) = was.map (.relayed <| .ended ·) := by
    simp only [outcome, Call.run, answered, Client.endSession, lift, he]
  have hafter : s.afterCall N (.endSession h) = ⟨{ s.client with executor := e }, w'⟩ := by
    simp only [afterCall, Call.run, answered, Client.endSession, lift, he]
  rw [houtcome, hafter]
  obtain ⟨hnone, rfl, rfl, rfl⟩ | ⟨u, c, d, w, v, hu, hc, hlink, ho, hsettles⟩ :=
    Executor.endSession_cases hs he
  · exact .inl ⟨hnone, rfl, rfl⟩
  · refine .inr ⟨u, c, d, w, v, hu, hc, hlink, ?_, ?_, hsettles⟩
    · obtain rfl | rfl := ho
      · exact .inl rfl
      · exact .inr rfl
    · simp only [session?, Executor.session?, hsettles.sessions]
      exact Executor.session?_eraseSession_self ..

/-- A handle ends its own session only, unless the context has another by now. -/
theorem endsOwn_iff (hs : s.client.executor.Housed) :
    s.EndsOwn N moves h ↔ ¬ s.Replaced N moves h.context := by
  have hcases := endSession_cases (N := N) (housed_run (N := N) hs moves) h
  constructor
  · rintro ⟨-, hleaves⟩ ⟨hlasts, hsome⟩
    obtain ⟨hnone, -⟩ | ⟨u, c, d, w, v, hu, -, -, -, hgone, -⟩ := hcases
    · exact hsome hnone
    · rw [hleaves hlasts, hu] at hgone
      cases hgone
  · intro hown
    obtain ⟨hnone, ho, hsame⟩ | ⟨u, c, d, w, v, hu, -, -, ho, -⟩ := hcases
    · -- The session of the handle cannot be open, as the context has none.
      have hlasts : ¬ s.Lasts N moves h.context := fun hl => hl moves (List.prefix_refl _) hnone
      refine ⟨fun was hwas => ?_, fun _ => hsame⟩
      cases ho.symm.trans hwas
      exact iff_of_false Bool.false_ne_true hlasts
    · have hlasts : s.Lasts N moves h.context := by
        by_contra hlasts
        exact hown ⟨hlasts, by simp [hu]⟩
      refine ⟨fun was hwas => ?_, fun hn => absurd hlasts hn⟩
      obtain ho | ho := ho <;> cases ho.symm.trans hwas
      exact iff_of_true rfl hlasts

theorem opened_of_begin {key : Bytes} (hs : s.client.executor.Housed)
    (hbegin : s.outcome N (.begin context key) = .ok (.relayed (.opened h))) :
    h.context = context ∧ s.session? h.context = none ∧
      ∃ node c, h.node = node.id ∧ (s.afterCall N (.begin context key)).session? h.context =
        some { node, connection := some c } := by
  have hd := (ShardFleet.Call.begin context (s.client.route key)).deed (N := N) (w := s.wire) hs
  have hrun : (Call.begin context key).run N s.client s.wire = _ := Call.run_relayed s.wire rfl
  simp only [outcome, afterCall, session?, hrun, relay, answered, lift] at hbegin ⊢
  generalize ((ShardFleet.Call.begin context (s.client.route key)).run N s.client.executor s.wire).1 =
    r at hbegin hd
  cases r with
  | ok a =>
    cases hbegin
    obtain ⟨hcontext, hopened⟩ := hd.opened
    exact ⟨(Option.some.inj hcontext).symm, hopened⟩
  | failed | stalled => cases hbegin

/-- **A handle ends its own session only, exactly as long as its context has no other**: what it ends
is the session of its context, whichever that is. -/
theorem handle_ends_own_iff {settings : Settings} {client : Client}
    (hbuild : build settings = .ok client) (net : σ) (before since : List (Move σ)) {context : Nat}
    {key : Bytes} (hbegin : ((start client net).run N before).outcome N (.begin context key) =
      .ok (.relayed (.opened h))) :
    h.context = context ∧ ((start client net).run N before).session? context = none ∧
      (((start client net).run N before).afterCall N (.begin context key)).Handled N since h := by
  have hbefore : ((start client net).run N before).client.executor.Housed :=
    housed_run (housed_build hbuild) before
  have hs := housed_after (N := N) hbefore (.call (.begin context key))
  obtain ⟨rfl, hfree, node, c, hnode, ht⟩ := opened_of_begin hbefore hbegin
  refine ⟨rfl, hfree, ?_⟩
  simp only [after] at hs
  generalize ((start client net).run N before).afterCall N (.begin h.context key) = s at hs ht ⊢
  have hcases := endSession_cases (N := N) (housed_run (N := N) hs since) h
  refine ⟨fun hl => ?_, fun hended => ?_, fun u hu => ?_, endsOwn_iff hs⟩
  · obtain ⟨u, hu, hsame, hlink⟩ := hl.same hs ht
    obtain ⟨d, hd, hlink⟩ := Option.map_eq_some_iff.1 hlink
    exact ⟨_, u, c, d, ht, hu, hnode.symm, hsame, rfl, hd, hlink⟩
  · obtain ⟨hnone, ho, -⟩ | ⟨u, c, d, w, v, hu, -, -, ho, -⟩ := hcases
    · rw [ho, hnone]
      rfl
    · rw [ho.resolve_right hended, hu]
      rfl
  · obtain ⟨hnone, -⟩ | ⟨u', c, d, w, v, hu', hc, hlink, -, hgone, hsettles⟩ := hcases
    · cases hnone.symm.trans hu
    · cases hu'.symm.trans hu
      exact ⟨hgone, c, d, w, v, hc, hlink, hsettles⟩

/-- A transaction that a context begins after its session is over is dropped by the handle of that
session. -/
theorem transaction_dropped_by_old_handle :
    let settings : Settings := {
      sharding := { virtualNodes := 1, hashing := .fnv1a }
      shards := [{ nodes := [{ host := "a", port := 1 }] }] }
    let since : List (Move Rehearsal.Stage) :=
      [.call (.multi 1 []), .call (.exec 1), .call (.multi 1 [])]
    let h : SessionHandle := ⟨1, "a:1/0"⟩
    ∃ client, build settings = .ok client ∧
      (start client {}).outcome Rehearsal.network (.begin 1 []) = .ok (.relayed (.opened h)) ∧
      let opened := (start client {}).afterCall Rehearsal.network (.begin 1 [])
      (opened.run Rehearsal.network since).outcome Rehearsal.network (.endSession h) =
        .ok (.relayed (.ended true)) ∧
      ¬ opened.EndsOwn Rehearsal.network since h := by
  intro settings since h
  obtain ⟨client, hbuild⟩ : ∃ client, build settings = .ok client := ⟨_, rfl⟩
  have hruns : ∀ client ∈ (build settings).toOption,
      let opened := (start client {}).afterCall Rehearsal.network (.begin 1 [])
      (start client {}).outcome Rehearsal.network (.begin 1 []) = .ok (.relayed (.opened h)) ∧
      (opened.run Rehearsal.network since).outcome Rehearsal.network (.endSession h) =
        .ok (.relayed (.ended true)) ∧
      (opened.run Rehearsal.network (since.take 2)).session? 1 = none ∧
      (opened.run Rehearsal.network since).session? 1 ≠ none := by decide +kernel
  obtain ⟨hbegin, hended, hover, hanother⟩ := hruns client (by rw [hbuild]; rfl)
  obtain ⟨-, -, hhandled⟩ := handle_ends_own_iff hbuild ({} : Rehearsal.Stage) [] since hbegin
  refine ⟨client, hbuild, hbegin, hended, fun hown => ?_⟩
  refine hhandled.ends_own_iff.1 hown ⟨fun hlasts => ?_, hanother⟩
  exact hlasts _ (List.take_prefix 2 since) hover

end Client.Scene

end ShardFleet
