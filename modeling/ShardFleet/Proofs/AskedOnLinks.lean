import ShardFleet.Proofs.Acknowledgements

/-!
# What is asked for on the link of a subscription

On the link of a subscription stands its first command, and then at most the commands of what was asked
of this very subscription. A server acknowledges there only names that one of these commands asked for.
-/

namespace ShardFleet

variable {σ : Type} {N : Network σ}

/-! ### What is said for a request -/

namespace Subscription

/-- The command that is said for a request, if it is said. -/
def Request.command? : Request → Option Command
  | extend topic names => some (command topic.joinCommand names)
  | leave topic names => some (command topic.leaveCommand names)
  | join | drop => none

/-- Whether nothing was said between two moments but perhaps one command, on the link of a
subscription. -/
structure Says (c? : Option Command) (x y : Subscription × Wire (Overheard σ)) : Prop
    extends OwnLink x y where
  said : ∃ u : Talk, talk y = talk x ++ u ∧ ∀ c ∈ u.said, c? = some c

section

variable {x y z : Subscription × Wire (Overheard σ)} {c? : Option Command} {s s' : Subscription}
  {w w' : Wire (Overheard σ)}

theorem said_heard (vs : List Resp.Value) : Talk.said (vs.map .heard) = [] := by
  simp [Talk.said, List.filterMap_map]

theorem Says.refl (c? : Option Command) (x : Subscription × Wire (Overheard σ)) : Says c? x x where
  toOwnLink := .refl x
  said := ⟨[], by simp, by simp [Talk.said]⟩

theorem Says.trans (h : Says c? x y) (h' : Says c? y z) : Says c? x z where
  toOwnLink := h.toOwnLink.trans h'.toOwnLink
  said := by
    obtain ⟨u, hu, hsaid⟩ := h.said
    obtain ⟨u', hu', hsaid'⟩ := h'.said
    refine ⟨u ++ u', by rw [hu', hu, List.append_assoc], ?_⟩
    rw [Talk.said_append]
    exact List.forall_mem_append.2 ⟨hsaid, hsaid'⟩

/-- Who only listens says nothing. -/
theorem Says.listening (hown : OwnLink x y)
    (hheard : ∃ vs : List Resp.Value, talk y = talk x ++ vs.map .heard) : Says c? x y where
  toOwnLink := hown
  said := by
    obtain ⟨vs, hvs⟩ := hheard
    exact ⟨vs.map .heard, hvs, by simp [said_heard]⟩

theorem Says.silent (h : Says none x y) : (talk y).said = (talk x).said := by
  obtain ⟨u, hu, hsaid⟩ := h.said
  have hnone : u.said = [] := List.eq_nil_iff_forall_not_mem.2 fun c hc => nomatch hsaid c hc
  rw [hu, Talk.said_append, hnone, List.append_nil]

theorem says_send (c : Command) (s : Subscription) (w : Wire (Overheard σ)) :
    Says (some c) (s, w) (s.send N.overheard c w) where
  toOwnLink := (ownLink_send rfl).1
  said := by
    obtain ⟨-, htalk⟩ | ⟨f, -, htalk | htalk⟩ := send_cases (N := N) c s w
    · exact ⟨[.said c], htalk, by simp⟩
    · exact ⟨[.said c], htalk, by simp⟩
    · exact ⟨[], by simpa using htalk, by simp [Talk.said]⟩

theorem says_awaitAcks {count : Nat} {r : Outcome Unit}
    (h : s.awaitAcks N.overheard count w = (r, s', w')) : Says c? (s, w) (s', w') :=
  .listening (awaitAcks_takes h).toOwnLink (awaitAcks_takes h).heard

theorem says_drop (s : Subscription) (w : Wire (Overheard σ)) :
    Says c? (s, w) (s.drop N.overheard w) :=
  .listening (drop_hears s w).1 (drop_hears s w).2.heard

/-- For a request its own command is said at most, and that on the subscription's own link. -/
theorem says_request {request : Request} {r : Outcome Unit}
    (h : request.run N.overheard s w = (r, s', w')) :
    Says request.command? (s, w) (s', w') := by
  cases request with
  | extend topic names =>
    simp only [Request.run, extend] at h
    split at h
    · cases h
      exact .refl ..
    split at h
    · cases h
      exact .refl ..
    split at h
    · rcases ha : s.awaitAcks N.overheard names.length w with ⟨r₁, s₁, w₁⟩
      simp only [ha] at h
      cases h
      exact (says_awaitAcks ha).trans (says_send ..)
    · exact (says_send (N := N) (command topic.joinCommand names) s w).trans (says_awaitAcks h)
  | leave topic names =>
    simp only [Request.run, leave, control] at h
    split at h <;> cases h
    · exact says_send ..
    · exact .refl ..
  | join => exact .listening (join_hears h).1 (join_hears h).2.heard
  | drop =>
    cases h
    exact says_drop ..

theorem openDedicated_node {p p' : Pool} {c : Connection}
    (h : p.openDedicated N.overheard w = (.ok c, p', w')) : c.node = p.node.id := by
  unfold Pool.openDedicated Pool.connect at h
  rcases hc : w.connect N.overheard p.node with ⟨link | f | _, w₁⟩ <;> simp only [hc] at h <;> cases h
  rfl

/-- On the link of a new subscription, which is to the pool's node, its names were asked for and nothing
else was. -/
theorem start_asks {topic : Topic} {names : List String} {p p' : Pool} {r : Started}
    (h : start N.overheard topic names p w = (r, p', w')) (hfresh : w.net.talks w.opened = [])
    (hs : r.subscription = some s) : s.connection.node = p.node.id ∧
      (talk (s, w')).said = [command topic.joinCommand names] := by
  unfold start at h
  split at h
  · cases h
    cases hs
  rcases ho : p.openDedicated N.overheard w with ⟨c | f | _, p₁, w₁⟩ <;> simp only [ho] at h
  · obtain ⟨htalks₁, hlink, -⟩ := openDedicated_talks ho
    rcases hsend : c.send N.overheard (command topic.joinCommand names) w₁ with ⟨f | _, w₂⟩ <;>
      simp only [hsend] at h <;> obtain ⟨-, htalks₂⟩ := talks_of_send hsend
    · cases h
      cases hs
    · have htalks : w₂.net.talks = _ := htalks₂.resolve_right fun h => h.2 rfl
      have hasked : (talk ({ node := p₁.node, connection := c }, w₂)).said =
          [command topic.joinCommand names] := by
        rw [talk, htalks, Function.update_self, htalks₁, hlink, hfresh]
        rfl
      rcases ha : awaitAcks N.overheard names.length { node := p₁.node, connection := c } w₂ with
        ⟨r₁, s₁, w₃⟩
      have hwaits : Says none _ (s₁, w₃) := says_awaitAcks ha
      have hdrops : Says none (s₁, w₃) (s₁.drop N.overheard w₃) := says_drop s₁ w₃
      -- However the wait ends, nothing more is said.
      have hdone {x : Subscription × Wire (Overheard σ)} (h : Says none (_, w₂) x) :
          x.1.connection.node = p.node.id ∧ (talk x).said = [command topic.joinCommand names] :=
        ⟨by rw [h.connection, openDedicated_node ho], h.silent.trans hasked⟩
      simp only [ha] at h
      rcases r₁ with _ | f | _ <;> cases h <;> cases hs
      · exact hdone hwaits
      · exact hdone (hwaits.trans hdrops)
      · exact hdone (hwaits.trans hdrops)
  · cases h
    cases hs
  · cases h
    cases hs

end

end Subscription

/-! ### What is said in a move -/

namespace Subscriptions.Scene

open Subscription (Hears OwnLink Request Says command)

/-- Whether a subscription has become another by a move, with nothing more said on its link than what
was asked of it. -/
structure Follows (m : Move σ) (i : Nat) (x y : Subscription × Wire (Overheard σ)) : Prop where
  connection : y.1.connection = x.1.connection
  said : ∃ u : Talk, Subscription.talk y = Subscription.talk x ++ u ∧
    ∀ c ∈ u.said, ∃ request : Request, m = .call (.ask i request) ∧ request.command? = some c

/-- Whether a subscription was started by a move. -/
structure Begins (m : Move σ) (x : Subscription × Wire (Overheard σ)) : Prop where
  asked : ∃ topic names pool, m = .call (.start topic names pool) ∧
    x.1.connection.node = pool.node.id ∧ (Subscription.talk x).said = [command topic.joinCommand names]

variable {s : Scene σ} {m : Move σ} {i : Nat} {x y z : Subscription × Wire (Overheard σ)}

theorem Follows.requested {request : Request} (h : Says request.command? x y)
    (hm : m = .call (.ask i request)) : Follows m i x y where
  connection := h.connection
  said := by
    obtain ⟨u, hu, hsaid⟩ := h.said
    exact ⟨u, hu, fun c hc => ⟨request, hm, hsaid c hc⟩⟩

theorem Follows.hears (h : Follows m i x y) (h' : Hears y z) : Follows m i x z where
  connection := h'.connection.trans h.connection
  said := by
    obtain ⟨u, hu, hsaid⟩ := h.said
    obtain ⟨vs, hvs⟩ := h'.heard
    refine ⟨u ++ vs.map .heard, by rw [hvs, hu, List.append_assoc], ?_⟩
    rwa [Talk.said_append, Subscription.said_heard, List.append_nil]

theorem Follows.refl (m : Move σ) (i : Nat) (x : Subscription × Wire (Overheard σ)) :
    Follows m i x x :=
  ⟨rfl, [], by simp, by simp [Talk.said]⟩

/-- What becomes of the subscriptions by a move: every one that there is then was there before, and on
its link nothing was said that was not asked of it, or it is new. -/
structure Steps (m : Move σ) (s s' : Scene σ) : Prop where
  parted : s'.Parted
  grows : s.registry.started.length ≤ s'.registry.started.length
  origin : ∀ (i : Nat) (sub' : Subscription), s'.registry.started[i]? = some sub' →
    (∃ sub, s.registry.started[i]? = some sub ∧ Follows m i (sub, s.wire) (sub', s'.wire)) ∨
      i = s.registry.started.length ∧ Begins m (sub', s'.wire)

theorem Follows.grows (h : Follows m i x y) : Subscription.talk x <+: Subscription.talk y := by
  obtain ⟨u, hu, -⟩ := h.said
  exact hu ▸ List.prefix_append ..

/-- A subscription that there was is still there. -/
theorem Steps.kept {s' : Scene σ} {sub : Subscription} (h : Steps m s s')
    (hi : s.registry.started[i]? = some sub) :
    ∃ sub', s'.registry.started[i]? = some sub' ∧ Follows m i (sub, s.wire) (sub', s'.wire) := by
  have hlt := (List.getElem?_eq_some_iff.1 hi).1
  have here := List.getElem?_eq_getElem (hlt.trans_le h.grows)
  obtain ⟨sub', hsub, hfollows⟩ | ⟨hnew, -⟩ := h.origin i _ here
  · cases hi.symm.trans hsub
    exact ⟨_, here, hfollows⟩
  · omega

theorem Parted.steps_start (h : s.Parted) (topic : Topic) (names : List String) (pool : Pool) :
    Steps (.call (.start topic names pool)) s (s.after N (.call (.start topic names pool))) := by
  rcases hr : Subscription.start N.overheard topic names pool s.wire with ⟨r, p, w⟩
  have hstarts := Subscription.start_starts hr (h.fresh _ le_rfl)
  have hafter : s.after N (.call (.start topic names pool)) =
      ⟨s.registry.add r.subscription, w⟩ := by
    simp only [after, make, Subscriptions.start, hr]
  rw [hafter]
  refine ⟨h.started hstarts, by simp, fun i sub' hi => ?_⟩
  simp only [started_add] at hi
  rcases Nat.lt_or_ge i s.registry.started.length with hlt | hge
  · have hi' : s.registry.started[i]? = some sub' := (List.getElem?_append_left hlt).symm.trans hi
    have htalk := h.untouched hstarts sub' (List.mem_of_getElem? hi')
    exact .inl ⟨sub', hi', (Follows.refl _ i _).hears (hears_of_talk htalk)⟩
  · have hi' : r.subscription.toList[i - s.registry.started.length]? = some sub' :=
      (List.getElem?_append_right hge).symm.trans hi
    have hsub : r.subscription = some sub' := Option.mem_toList.1 (List.mem_of_getElem? hi')
    have hone : i - s.registry.started.length = 0 := by
      rw [hsub] at hi'
      have := (List.getElem?_eq_some_iff.1 hi').1
      simpa using this
    obtain ⟨hnode, hsaid⟩ := Subscription.start_asks hr (h.fresh _ le_rfl) hsub
    exact .inr ⟨by omega, topic, names, pool, rfl, hnode, hsaid⟩

theorem Parted.steps_ask (h : s.Parted) (number : Nat) (request : Request) :
    Steps (.call (.ask number request)) s (s.after N (.call (.ask number request))) := by
  cases hn : s.registry.started[number]? with
  | none =>
    have hafter : s.after N (.call (.ask number request)) = s := by
      simp only [after, make, Subscriptions.act, hn]
    rw [hafter]
    exact ⟨h, le_rfl, fun i sub hi => .inl ⟨sub, hi, .refl ..⟩⟩
  | some sub =>
    rcases hr : request.run N.overheard sub s.wire with ⟨r, sub₁, w₁⟩
    -- First the subscription acts on its own link, then all of them listen.
    have hsays := Subscription.says_request hr
    have hset : Parted ⟨s.registry.put number sub sub₁, w₁⟩ := h.set hn hsays.toOwnLink
    have hadvances := settle_advances (N := N.overheard) (s.registry.put number sub sub₁) w₁
    have hafter : s.after N (.call (.ask number request)) =
        ⟨((s.registry.put number sub sub₁).settle N.overheard w₁).1,
          ((s.registry.put number sub sub₁).settle N.overheard w₁).2⟩ := by
      simp only [after, make, Subscriptions.act, hn, hr]
    rw [hafter]
    refine ⟨(hset.advances hadvances).1, (by simp [length_advances hadvances]),
      fun i sub' hi => .inl ?_⟩
    obtain ⟨sub₂, hsub₂, hhears⟩ := hset.listened hadvances hi
    by_cases hin : number = i
    · subst hin
      cases (getElem?_put_self hn).symm.trans hsub₂
      exact ⟨sub, hn, (Follows.requested hsays rfl).hears hhears⟩
    · have hi' : s.registry.started[i]? = some sub₂ := (List.getElem?_set_ne hin).symm.trans hsub₂
      have hother := (h.others hn hsays.toOwnLink hi' hin).2
      exact ⟨sub₂, hi', ((Follows.refl _ i _).hears hother).hears hhears⟩

theorem Parted.steps (h : s.Parted) (m : Move σ) : Steps m s (s.after N m) := by
  cases m with
  | call c =>
    cases c with
    | start topic names pool => exact h.steps_start topic names pool
    | ask number request => exact h.steps_ask number request
  | listen =>
    have hadvances := settle_advances (N := N.overheard) s.registry s.wire
    refine ⟨(Parted.advances (x := (s.registry, s.wire)) h hadvances).1,
      (length_advances hadvances).ge, fun i sub' hi => .inl ?_⟩
    obtain ⟨sub, hsub, hhears⟩ := Parted.listened (x := (s.registry, s.wire)) h hadvances hi
    exact ⟨sub, hsub, (Follows.refl _ i _).hears hhears⟩
  | meanwhile net clock deadline =>
    exact ⟨⟨h.links, h.apart, h.fresh⟩, le_rfl, fun i sub hi =>
      .inl ⟨sub, hi, (Follows.refl _ i _).hears (hears_of_talk rfl)⟩⟩

end Subscriptions.Scene

/-! ### What is asked for on a link and acknowledged there -/

/-- Whether a name was acknowledged in a talk. -/
def Talk.Acknowledges (t : Talk) (topic : Topic) (name : Bytes) : Prop :=
  ∃ n, .heard ((Change.join topic name).frame n) ∈ t

theorem Talk.mem_heard {t : Talk} {v : Resp.Value} : v ∈ t.heard ↔ .heard v ∈ t := by
  simp only [heard, List.mem_filterMap]
  constructor
  · rintro ⟨u, hu, hv⟩
    cases u <;> cases hv
    exact hu
  · exact fun h => ⟨_, h, rfl⟩

theorem Talk.Acknowledges.of_prefix {t u : Talk} {topic : Topic} {name : Bytes}
    (h : t.Acknowledges topic name) (hpre : t <+: u) : u.Acknowledges topic name := by
  obtain ⟨n, hn⟩ := h
  exact ⟨n, hpre.subset hn⟩

/-- An acknowledgement says which name was joined. -/
theorem Change.eq_join_of_frame {topic : Topic} {name : Bytes} {c : Change} {n n' : Int64}
    (h : (join topic name).frame n = c.frame n') : c = join topic name := by
  obtain ⟨_, hread⟩ := (join topic name).ofFrame_frame n
  obtain ⟨_, hread'⟩ := c.ofFrame_frame n'
  rw [h, hread'] at hread
  cases c with
  | join other name' =>
    obtain rfl : other = topic := by simpa using (Notice.joined.inj (Except.ok.inj hread)).1
    have hname : name = name' := by
      simp only [frame, Change.name, Resp.Value.array.injEq, List.cons.injEq,
        Resp.Value.bulk.injEq] at h
      exact h.2.1
    rw [hname]
  | leave | nothing => cases hread

theorem Acknowledges.change_mem {h h' : Holdings} {cs : List Change} {vs : List Resp.Value}
    (ha : ShardFleet.Acknowledges h cs vs h') {topic : Topic} {name : Bytes} {n : Int64}
    (hv : (Change.join topic name).frame n ∈ vs) : .join topic name ∈ cs := by
  induction ha with
  | nil => cases hv
  | cons _ _ ih =>
    rcases List.mem_cons.1 hv with hv | hv
    · rw [Change.eq_join_of_frame hv]
      exact List.mem_cons_self
    · exact List.mem_cons_of_mem _ (ih hv)

theorem Carries.asked {h : Holdings} {c : Command} {cs : List Change} (hc : Carries h c cs)
    {topic : Topic} {name : Bytes} (hjoin : .join topic name ∈ cs) :
    c.joins? = some topic ∧ name ∈ c.args := by
  cases hc with
  | joins asked =>
    obtain ⟨_, hname, heq⟩ := List.mem_map.1 hjoin
    cases heq
    exact ⟨asked, hname⟩
  | leaves | leavesAll =>
    obtain ⟨_, -, heq⟩ := List.mem_map.1 hjoin
    cases heq
  | leavesNothing => simp at hjoin

/-- A server acknowledges only names that were asked for. -/
theorem Answered.asked {cs : List Command} {vs : List Resp.Value} {h : Holdings}
    (ha : Answered cs vs h) {topic : Topic} {name : Bytes} {n : Int64}
    (hv : (Change.join topic name).frame n ∈ vs) :
    ∃ c ∈ cs, c.joins? = some topic ∧ name ∈ c.args := by
  induction ha with
  | nil => cases hv
  | concat _ carries acknowledges ih =>
    rcases List.mem_append.1 hv with hv | hv
    · obtain ⟨c, hc, hasked⟩ := ih hv
      exact ⟨c, List.mem_append_left _ hc, hasked⟩
    · exact ⟨_, by simp, carries.asked (acknowledges.change_mem hv)⟩

theorem Serves.asked {t : Talk} {server : ServerEnd} (h : Serves t server) {topic : Topic}
    {name : Bytes} (hack : t.Acknowledges topic name) :
    ∃ c ∈ t.said, c.joins? = some topic ∧ name ∈ c.args := by
  obtain ⟨n, hn⟩ := hack
  obtain ⟨done, hsaid, hanswered⟩ := h.answered
  have hmem : (Change.join topic name).frame n ∈ t.acks := by
    rw [Talk.acks, List.mem_filter, Talk.mem_heard]
    exact ⟨hn, by rw [Change.isMessage_frame]; rfl⟩
  obtain ⟨c, hc, hasked⟩ := hanswered.asked (List.mem_append_left _ hmem)
  exact ⟨c, by rw [hsaid]; exact List.mem_append_left _ hc, hasked⟩

theorem Established.acknowledges {server : ServerEnd} {t₀ t : Talk} {sub : Subscription} {topic : Topic}
    {names : List String} (h : Established server t₀ t sub topic names) :
    ∀ name ∈ names, t.Acknowledges topic (utf8 name) := by
  intro name hname
  obtain ⟨earlier, acks, hacks, -, hframes⟩ := h.own
  obtain ⟨k, hk, rfl⟩ := List.getElem_of_mem hname
  have hlt : k < acks.length := hframes.length_eq ▸ hk
  obtain ⟨n, hn⟩ := hframes.get hk hlt
  have hmem : acks[k] ∈ t.acks := hacks ▸ List.mem_append_right _ (List.getElem_mem hlt)
  refine ⟨n, Talk.mem_heard.1 ?_⟩
  rw [List.get_eq_getElem, List.get_eq_getElem] at hn
  exact hn ▸ List.mem_of_mem_filter hmem

end ShardFleet
