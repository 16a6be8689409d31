import ShardFleet.Proofs.Capacity
import ShardFleet.Rehearsal.Script

/-!
# What servers hold

A server holds watched keys and an open transaction for each of its connections, which can be told from
the trace: from the commands and how their requests ended. The phase of a session follows it, and a
connection that is kept for later is clean. Both hold as far as servers clear what they hold when a step
that ends a session is rejected: where one does not, its connection is kept with what was left behind.
-/

namespace ShardFleet

/-! ### Reading the trace -/

/-- What a server holds for a connection. -/
structure Held where
  watching : Bool := false
  inMulti : Bool := false
deriving DecidableEq, Repr

namespace Held

/-- What is held after a step was accepted. -/
def accept (h : Held) : Step → Held
  | .watch => { h with watching := true }
  | .multi => { h with inMulti := true }
  | .exec | .discard | .unwatch => {}

/-- What is held after a step was rejected, by a server that is `lenient` about some of the steps that
end a session: it clears all it holds whether it accepts them or not. -/
def reject (lenient : Step → Bool) (h : Held) (s : Step) : Held :=
  if s.ends && lenient s then {} else h

/-- What is held after a request came to its end, if that can be told. -/
def after (lenient : Step → Bool) (h : Held) (c : Command) (r : Outcome Resp.Value) : Option Held :=
  match c.step?, r with
  | none, _ => some h
  | some s, .ok _ => some (h.accept s)
  | some s, .failed (.data _) => some (h.reject lenient s)
  | some _, _ => none

end Held

/-- What is held for a link after one more event. -/
def heldAfter (lenient : Step → Bool) (link : Nat) (h : Option Held) : WireEvent → Option Held
  | .opened l _ => if l = link then some {} else h
  | .answered l c r => if l = link then h.bind (·.after lenient c r) else h
  | _ => h

/-- What is held for a link after some events. -/
def heldOn (lenient : Step → Bool) (link : Nat) (trace : List WireEvent) : Option Held :=
  trace.foldl (heldAfter lenient link) (some {})

/-- Whether a server clears what it holds for a link with an event. -/
def WireEvent.Clears (lenient : Step → Bool) (link : Nat) : WireEvent → Prop
  | .opened l _ => l = link
  | .answered l c r => l = link ∧ ∃ s, c.step? = some s ∧ s.ends = true ∧
      (r.isOk = true ∨ lenient s = true ∧ ∃ m, r = .failed (.data m))
  | _ => False

/-- Whether a server that holds something for a link rejects a step that was to clear it. -/
def Leaves (lenient : Step → Bool) (link : Nat) (before : List WireEvent) (e : WireEvent) : Prop :=
  heldOn lenient link before ≠ some {} ∧ ∃ c s m, e = .answered link c (.failed (.data m)) ∧
    c.step? = some s ∧ s.ends = true ∧ lenient s = false

/-- Whether something was left behind on a link, and was not cleared since. -/
def LeftBehind (lenient : Step → Bool) (link : Nat) (trace : List WireEvent) : Prop :=
  ∃ before e after, trace = before ++ e :: after ∧ Leaves lenient link before e ∧
    ∀ d ∈ after, ¬ d.Clears lenient link

section

variable {lenient : Step → Bool} {link : Nat}

@[simp] theorem heldOn_concat (trace : List WireEvent) (e : WireEvent) :
    heldOn lenient link (trace ++ [e]) = heldAfter lenient link (heldOn lenient link trace) e := by
  simp [heldOn, List.foldl_append]

theorem Leaves.not_clears {before : List WireEvent} {e : WireEvent}
    (h : Leaves lenient link before e) : ¬ e.Clears lenient link := by
  obtain ⟨-, c, s, m, rfl, hs, -, hl⟩ := h
  rintro ⟨-, t, ht, -, hok | ⟨hl', -⟩⟩
  · cases hok
  · cases hs.symm.trans ht
    rw [hl] at hl'
    cases hl'

theorem leftBehind_concat {trace : List WireEvent} {e : WireEvent} :
    LeftBehind lenient link (trace ++ [e]) ↔
      Leaves lenient link trace e ∨ LeftBehind lenient link trace ∧ ¬ e.Clears lenient link := by
  constructor
  · rintro ⟨before, d, after, ht, hd, hafter⟩
    rcases List.eq_nil_or_concat after with rfl | ⟨after, f, rfl⟩
    · obtain ⟨rfl, hde⟩ := List.append_inj' ht rfl
      cases hde
      exact .inl hd
    · rw [List.concat_eq_append] at ht hafter
      rw [← List.cons_append, ← List.append_assoc] at ht
      obtain ⟨rfl, hfe⟩ := List.append_inj' ht rfl
      cases hfe
      exact .inr ⟨⟨before, d, after, rfl, hd, fun x hx => hafter x (by simp [hx])⟩,
        hafter e (by simp)⟩
  · rintro (he | ⟨⟨before, d, after, rfl, hd, hafter⟩, he⟩)
    · exact ⟨trace, e, [], rfl, he, by simp⟩
    · refine ⟨before, d, after ++ [e], by simp, hd, ?_⟩
      intro x hx
      rcases List.mem_append.1 hx with hx | hx
      · exact hafter x hx
      · cases List.mem_singleton.1 hx
        exact he

/-- Nothing becomes clean but by an event that clears. -/
theorem heldAfter_eq_clean {h : Option Held} {e : WireEvent}
    (he : heldAfter lenient link h e = some {}) : h = some {} ∨ e.Clears lenient link := by
  cases e with
  | opened l node =>
    simp only [heldAfter] at he
    split at he
    · exact .inr ‹_›
    · exact .inl he
  | answered l c r =>
    simp only [heldAfter] at he
    split at he
    · rename_i hl
      obtain ⟨k, rfl, hk⟩ := Option.bind_eq_some_iff.1 he
      unfold Held.after at hk
      split at hk
      · exact .inl hk
      · rename_i s v hs
        cases s with
        | watch | multi => simp [Held.accept] at hk
        | _ => exact .inr ⟨hl, _, hs, rfl, .inl rfl⟩
      · rename_i s m hs
        unfold Held.reject at hk
        split at hk
        · rename_i hends
          rw [Bool.and_eq_true] at hends
          exact .inr ⟨hl, s, hs, hends.1, .inr ⟨hends.2, m, rfl⟩⟩
        · exact .inl hk
      · cases hk
    · exact .inl he
  | sent | closed => exact .inl he

/-- What was left behind is still held. -/
theorem LeftBehind.held {trace : List WireEvent} (h : LeftBehind lenient link trace) :
    heldOn lenient link trace ≠ some {} := by
  induction trace using List.reverseRecOn with
  | nil =>
    obtain ⟨before, e, after, ht, -⟩ := h
    simp at ht
  | append_singleton trace e ih =>
    rw [heldOn_concat]
    intro hclean
    rcases leftBehind_concat.1 h with hl | ⟨h, he⟩
    · exact (heldAfter_eq_clean hclean).elim hl.1 hl.not_clears
    · exact (heldAfter_eq_clean hclean).elim (ih h) he

/-! ### The phase of a session -/

/-- Whether a phase says what is held. -/
def Phase.Matches : Phase → Held → Prop
  | .opened, h => h = {}
  | .watching, h => h = { watching := true }
  | .queued, h => h.inMulti = true

/-- Whether it can be told what is held for a link, and a phase says it unless something was left
behind. -/
def Follows (lenient : Step → Bool) (trace : List WireEvent) (link : Nat) (p : Phase) : Prop :=
  ∃ h, heldOn lenient link trace = some h ∧ (¬ LeftBehind lenient link trace → p.Matches h)

/-- Whether an event can change what is held for a link. -/
def WireEvent.Touches (link : Nat) : WireEvent → Prop
  | .opened l _ | .answered l _ _ => l = link
  | _ => False

namespace Follows

variable {trace : List WireEvent} {p : Phase}

theorem concat_untouched {e : WireEvent} (h : Follows lenient trace link p)
    (he : ¬ e.Touches link) : Follows lenient (trace ++ [e]) link p := by
  obtain ⟨k, hk, hp⟩ := h
  refine ⟨k, ?_, ?_⟩
  · rw [heldOn_concat, hk]
    cases e <;> simp_all [heldAfter, WireEvent.Touches]
  · intro hl
    refine hp fun hb => hl (leftBehind_concat.2 (.inr ⟨hb, ?_⟩))
    cases e <;> simp_all [WireEvent.Clears, WireEvent.Touches]

theorem untouched {events : List WireEvent} (h : Follows lenient trace link p)
    (he : ∀ e ∈ events, ¬ e.Touches link) : Follows lenient (trace ++ events) link p := by
  induction events generalizing trace with
  | nil => simpa using h
  | cons e events ih =>
    have h' := h.concat_untouched (he e (by simp))
    simpa using ih h' (fun d hd => he d (by simp [hd]))

/-- A server holds nothing for a new link. -/
theorem made (trace : List WireEvent) (link : Nat) (node : String) :
    Follows lenient (trace ++ [.opened link node]) link .opened :=
  ⟨{}, by simp [heldAfter], fun _ => rfl⟩

/-- A command that takes no step changes nothing. -/
theorem plain {c : Command} (h : Follows lenient trace link p) (hc : c.step? = none)
    (r : Outcome Resp.Value) : Follows lenient (trace ++ [.answered link c r]) link p := by
  obtain ⟨k, hk, hp⟩ := h
  refine ⟨k, by simp [heldAfter, hk, Held.after, hc], fun hl => hp fun hb => hl ?_⟩
  refine leftBehind_concat.2 (.inr ⟨hb, ?_⟩)
  rintro ⟨-, s, hs, -⟩
  cases hc.symm.trans hs

/-- A step that a session outlives changes what is held when it is accepted, as it changes the
phase. -/
theorem opener {c : Command} {s : Step} {r : Outcome Resp.Value}
    (h : Follows lenient trace link p) (hc : c.step? = some s) (ho : s.ends = false)
    (ha : s.allowedIn p = true) (hr : r.verdict = .sound) :
    Follows lenient (trace ++ [.answered link c r]) link
      (if r.isOk then s.nextPhase?.getD p else p) := by
  obtain ⟨k, hk, hp⟩ := h
  have hkeep (hl : ¬ LeftBehind lenient link (trace ++ [.answered link c r])) : p.Matches k := by
    refine hp fun hb => hl (leftBehind_concat.2 (.inr ⟨hb, ?_⟩))
    rintro ⟨-, t, ht, he, -⟩
    cases hc.symm.trans ht
    rw [ho] at he
    cases he
  rcases Outcome.sound_cases hr with ⟨v, rfl⟩ | ⟨m, rfl⟩
  · refine ⟨k.accept s, by simp [heldAfter, hk, Held.after, hc], fun hl => ?_⟩
    have hm := hkeep hl
    cases s with
    | watch =>
      cases p with
      | opened | watching => cases hm; rfl
      | queued => cases ha
    | multi => rfl
    | _ => cases ho
  · exact ⟨k, by simp [heldAfter, hk, Held.after, hc, Held.reject, ho], hkeep⟩

/-- A step that ends a session clears what is held, or leaves it behind. -/
theorem ender {c : Command} {s : Step} {r : Outcome Resp.Value}
    (h : Follows lenient trace link p) (hc : c.step? = some s) (he : s.ends = true)
    (hr : r.verdict = .sound) :
    Follows lenient (trace ++ [.answered link c r]) link .opened := by
  obtain ⟨k, hk, -⟩ := h
  rcases Outcome.sound_cases hr with ⟨v, rfl⟩ | ⟨m, rfl⟩
  · refine ⟨{}, ?_, fun _ => rfl⟩
    cases s <;> simp_all [heldAfter, Held.after, Held.accept, Step.ends, Step.opens]
  · cases hl : lenient s with
    | true =>
      exact ⟨{}, by simp [heldAfter, hk, Held.after, hc, Held.reject, he, hl], fun _ => rfl⟩
    | false =>
      refine ⟨k, by simp [heldAfter, hk, Held.after, hc, Held.reject, hl], fun hb => ?_⟩
      by_contra hne
      refine hb (leftBehind_concat.2 (.inl ⟨?_, c, s, m, rfl, hc, he, hl⟩))
      rw [hk]
      intro hclean
      exact hne (Option.some.inj hclean)

/-- After an order the phase is the one that the session then has, or none where it ends. -/
theorem order {call : Call} {o : Order} {r : Outcome Resp.Value} (h : Follows lenient trace link p)
    (hplain : call.IsPlain) (ho : call.order? p = some o) (hr : r.verdict = .sound) :
    Follows lenient (trace ++ [.answered link o.command r]) link
      (if o.ends then .opened else if r.isOk then o.next else p) := by
  rcases Call.order?_cases ho with ⟨context, node, rfl, hn, he⟩ | ⟨s, args, -, ha, rfl⟩
  · rw [he, hn, ite_self]
    exact h.plain hplain r
  · have hc := Command.step?_of s args
    cases he : s.ends with
    | true => simpa [he] using h.ender hc he hr
    | false => simpa [he] using h.opener hc he ha hr

/-- What a session holds is cleared when it is ended, or left behind. -/
theorem cleanup {c : Command} {r : Outcome Resp.Value} (h : Follows lenient trace link p)
    (hc : Executor.cleanup? p = some c) (hr : r.verdict = .sound) :
    Follows lenient (trace ++ [.answered link c r]) link .opened := by
  cases p with
  | opened => cases hc
  | watching =>
    cases hc
    exact h.ender (Command.step?_of .unwatch []) rfl hr
  | queued =>
    cases hc
    exact h.ender (Command.step?_of .discard []) rfl hr

end Follows

end

/-! ### Every connection follows -/

variable {σ : Type} {N : Network σ} {lenient : Step → Bool}

theorem Follows.request {c : Connection} {command : Command} {r : Outcome Resp.Value} {p q : Phase}
    {w w' : Wire σ} (h : Follows lenient w.trace c.link p) (hr : c.request N command w = (r, w'))
    (hstep : ∀ trace, Follows lenient trace c.link p →
      Follows lenient (trace ++ [.answered c.link command r]) c.link q) :
    Follows lenient w'.trace c.link q := by
  obtain ⟨-, events, hasks, ht⟩ := Connection.request_trace hr
  obtain ⟨out, rfl, hout⟩ := hasks.split
  rw [ht, ← List.append_assoc]
  refine hstep _ (h.untouched fun e he => ?_)
  rw [hout e he]
  exact id

namespace Executor

/-- Whether what is held is known for every connection: nothing where it is kept for later, and what
the phase of the session says where it is pinned. -/
structure Tracked (lenient : Step → Bool) (e : Executor) (w : Wire σ) : Prop where
  kept : ∀ id p, e.pools.find? id = some p → ∀ c ∈ p.idle, Follows lenient w.trace c.link .opened
  pinned : ∀ context s, e.session? context = some s →
    ∀ c, s.connection = some c → Follows lenient w.trace c.link s.phase

namespace Tracked

variable {e e₁ : Executor} {w w₁ : Wire σ} {c : Connection}

/-- What happens on links that nothing holds changes nothing. -/
theorem mono {events : List WireEvent} (h : e.Tracked lenient w)
    (ht : w₁.trace = w.trace ++ events)
    (hfree : ∀ link, e.holders link ≠ 0 → ∀ d ∈ events, ¬ d.Touches link) :
    e.Tracked lenient w₁ where
  kept id p hp c hc := by
    rw [ht]
    refine (h.kept id p hp c hc).untouched (hfree c.link fun hz => ?_)
    exact (link_ne_of_holders_eq_zero hz).1 id p hp c hc rfl
  pinned context s hs c hc := by
    rw [ht]
    refine (h.pinned context s hs c hc).untouched (hfree c.link fun hz => ?_)
    exact (link_ne_of_holders_eq_zero hz).2 context c ⟨s, hs, hc⟩ rfl

theorem setPool {id : String} {q : Pool} (h : e.Tracked lenient w)
    (hq : ∀ c ∈ q.idle, Follows lenient w.trace c.link .opened) :
    (e.setPool id q).Tracked lenient w where
  kept other p hp c hc := by
    rw [find?_setPool] at hp
    split at hp
    · cases hp
      exact hq c hc
    · exact h.kept other p hp c hc
  pinned := h.pinned

theorem pin {context : Nat} {s : Session} (h : e.Tracked lenient w) (hc : s.connection = some c)
    (hf : Follows lenient w.trace c.link s.phase) : (e.setSession context s).Tracked lenient w where
  kept := h.kept
  pinned other t ht d hd := by
    rw [session?_setSession] at ht
    split at ht
    · cases ht
      cases hc.symm.trans hd
      exact hf
    · exact h.pinned other t ht d hd

theorem unpin (h : e.Tracked lenient w) (context : Nat) :
    (e.eraseSession context).Tracked lenient w where
  kept := h.kept
  pinned other t ht d hd := by
    rw [session?_eraseSession] at ht
    split at ht
    · cases ht
    · exact h.pinned other t ht d hd

theorem lend {id : String} (h : e.Tracked lenient w) (ha : e.Accounted w none)
    (hl : Lends N id e w c e₁ w₁) :
    e₁.Tracked lenient w₁ ∧ Follows lenient w₁.trace c.link .opened := by
  cases hl with
  | @kept p c rest hp _ hi =>
    have hf := h.kept id p hp
    rw [hi] at hf
    exact ⟨h.setPool fun d hd => hf d (List.mem_cons_of_mem _ hd), hf c (List.mem_cons_self ..)⟩
  | @made p link w₁ hp _ hi hw =>
    obtain ⟨rfl, -, ht⟩ := Wire.connect_ok hw
    have h' : e.Tracked lenient w₁ := by
      refine h.mono ht fun link hlink d hd => ?_
      cases List.mem_singleton.1 hd
      rintro rfl
      exact hlink ha.unmade
    refine ⟨h'.setPool (by simp [Pool.claim, hi]), ?_⟩
    rw [ht]
    exact .made ..

theorem settle {v : Verdict} (h : e.Tracked lenient w) (hs : Settles N c e w v e₁ w₁)
    (hf : v = .sound → Follows lenient w.trace c.link .opened) : e₁.Tracked lenient w₁ := by
  have hclose (e : Executor) (he : e.Tracked lenient w) : e.Tracked lenient (c.close N w) := by
    have ht : (c.close N w).trace = w.trace ++ [.closed c.link] := rfl
    refine he.mono ht fun link _ d hd => ?_
    cases List.mem_singleton.1 hd
    exact id
  cases hs with
  | @kept p hp =>
    refine h.setPool fun d hd => ?_
    rcases List.mem_cons.1 hd with rfl | hd
    · exact hf rfl
    · exact h.kept _ p hp d hd
  | @surplus p hp => exact hclose _ (h.setPool (by simpa using h.kept _ p hp))
  | @evicted p hp => exact hclose _ (h.setPool (by simpa using h.kept _ p hp))
  | @lost p hp => exact h.setPool (by simpa using h.kept _ p hp)

theorem request {command : Command} {r : Outcome Resp.Value} (h : e.Tracked lenient w)
    (ha : e.Accounted w (some c)) (hr : c.request N command w = (r, w₁)) :
    e.Tracked lenient w₁ := by
  obtain ⟨-, events, hasks, ht⟩ := Connection.request_trace hr
  obtain ⟨out, rfl, hout⟩ := hasks.split
  refine h.mono ht fun link hlink d hd => ?_
  have hne : c.link ≠ link := by
    rintro rfl
    exact hlink ha.holders_hand
  rcases List.mem_append.1 hd with hd | hd
  · rw [hout d hd]
    exact id
  · cases List.mem_singleton.1 hd
    exact hne

theorem ready {call : Call} {context : Nat} {fresh : Bool} {s : Session} (h : e.Tracked lenient w)
    (ha : e.Accounted w none) (hr : Readies N call context e w fresh e₁ w₁ s c) :
    e₁.Tracked lenient w₁ ∧ Follows lenient w₁.trace c.link s.phase := by
  cases hr with
  | bound hs hc => exact ⟨h, h.pinned context s hs c hc⟩
  | opened _ _ _ _ hl =>
    obtain ⟨h₁, hf⟩ := h.lend ha hl
    exact ⟨h₁.pin rfl hf, hf⟩

/-- A call that comes to its end keeps track of every connection. -/
theorem deed {call : Call} {r : Outcome Answer} (h : e.Tracked lenient w) (ha : e.Accounted w none)
    (hplain : call.IsPlain) (hr : r ≠ .stalled) (hd : Deed N call e w r e₁ w₁) :
    e₁.Tracked lenient w₁ := by
  cases hd with
  | refused => exact h
  | absent => exact h
  | unlent _ hu =>
    obtain ⟨p, hp, rfl, hq⟩ := hu.quiet
    have ht : w₁.trace = w.trace ++ [] := by rw [hq.trace, List.append_nil]
    have h' : e.Tracked lenient w₁ := h.mono ht (by simp)
    exact h'.setPool (h'.kept _ p hp)
  | pooled asked hl hreq hs =>
    obtain ⟨h₁, hf⟩ := h.lend ha hl
    refine (h₁.request (ha.lend hl) hreq).settle hs fun _ => hf.request hreq fun _ ht => ?_
    obtain rfl | ⟨_, rfl, -⟩ := asked <;> exact ht.plain hplain _
  | begun _ free hl =>
    obtain ⟨h₁, hf⟩ := h.lend ha hl
    exact h₁.pin rfl hf
  | @stayed context fresh e₂ w₂ s c o r w₃ _ hready order hreq keeps =>
    obtain ⟨h₂, hf⟩ := h.ready ha hready
    obtain ⟨ha₂, hs⟩ := ha.ready hready
    have hv : r.verdict = .sound := Order.sound_of_keeps keeps (by rintro rfl; exact hr rfl)
    have ho : o.ends = false := Order.ends_of_keeps keeps hv
    have hnext := hf.request hreq fun _ ht => ht.order hplain order hv
    rw [ho] at hnext
    have hpin : ((e₂.eraseSession context).setSession context (s.served c o r)).Tracked lenient w₁ :=
      ((h₂.unpin context).request (ha₂.unpin hs hready.connection) hreq).pin rfl hnext
    rwa [setSession_eraseSession] at hpin
  | @parted context fresh e₂ w₂ s c o r w₃ _ _ _ hready order hreq keeps hsettle =>
    obtain ⟨h₂, hf⟩ := h.ready ha hready
    obtain ⟨ha₂, hs⟩ := ha.ready hready
    refine ((h₂.unpin _).request (ha₂.unpin hs hready.connection) hreq).settle hsettle fun hv => ?_
    have hnext := hf.request hreq fun _ ht => ht.order hplain order hv
    cases ho : o.ends with
    | true => simpa [ho] using hnext
    | false =>
      -- The session was opened by the call itself, and its first step was rejected.
      simp only [Order.keeps, hv, ho, Bool.false_or, Bool.not_eq_false', Bool.and_eq_true,
        Bool.not_eq_true'] at keeps
      obtain ⟨rfl, hok⟩ := keeps
      simpa [ho, hok, hready.phase] using hnext
  | @left context s c e₁ w₁ _ hs hc empty hsettle =>
    refine (h.unpin _).settle hsettle fun _ => ?_
    have hf := h.pinned _ _ hs _ hc
    cases hp : s.phase with
    | opened => rwa [hp] at hf
    | _ => simp [hp, cleanup?] at empty
  | cleaned _ hs hc cleanup hreq hsettle =>
    refine ((h.unpin _).request (ha.unpin hs hc) hreq).settle hsettle fun hv => ?_
    exact (h.pinned _ _ hs _ hc).request hreq fun _ ht => ht.cleanup cleanup hv

end Tracked

end Executor

/-! ### Runs -/

namespace Scene

theorem tracked_run {nodes : List Node} {net : σ} {moves : List (Move σ)}
    (h : (start nodes net).Orderly N moves) :
    ((start nodes net).run N moves).executor.Tracked lenient
      ((start nodes net).run N moves).wire := by
  induction moves using List.reverseRecOn with
  | nil =>
    refine ⟨fun id p hp c hc => ?_, fun context s hs => by cases hs⟩
    rw [(Executor.pool_ofNodes hp).1] at hc
    cases hc
  | append_singleton moves m ih =>
    have ht := ih (h.of_prefix (List.prefix_append ..))
    rw [run_concat]
    cases m with
    | call c =>
      obtain ⟨hplain, hend⟩ := h.last
      exact ht.deed (accounted_run nodes net moves) hplain hend (deed_of_run nodes net moves c)
    | meanwhile => exact ⟨ht.kept, ht.pinned⟩

/-- Whether every session has a connection for which a server that clears what it holds with any reply
to a step that ends a session holds what the phase says. -/
def PhasesMatch (s : Scene σ) : Prop :=
  ∀ context session, s.executor.session? context = some session →
    ∃ c held, session.connection = some c ∧
      heldOn Step.ends c.link s.wire.trace = some held ∧ session.phase.Matches held

/-- Whether a server that clears what it holds with a rejected EXEC, but not with another rejected step,
holds nothing for the kept connections, except for those where something was left behind. -/
def CleanUnlessLeftBehind (s : Scene σ) : Prop :=
  ∀ id p, s.executor.pools.find? id = some p → ∀ c ∈ p.idle,
    ∃ held, heldOn (· = .exec) c.link s.wire.trace = some held ∧
      (held = {} ↔ ¬ LeftBehind (· = .exec) c.link s.wire.trace)

/-- **The phase of every session is what its server holds.** -/
theorem phase_matches_server {nodes : List Node} {net : σ} {moves : List (Move σ)}
    (h : (start nodes net).Orderly N moves) : ((start nodes net).run N moves).PhasesMatch := by
  intro context session hs
  obtain ⟨c, hc, -⟩ := (accounted_run nodes net moves).pinned context session hs
  obtain ⟨held, hheld, hp⟩ := (tracked_run h).pinned context session hs c hc
  refine ⟨c, held, hc, hheld, hp ?_⟩
  rintro ⟨before, e, after, -, ⟨-, d, t, m, -, -, he, hl⟩, -⟩
  rw [he] at hl
  cases hl

/-- A context that watches while another one queues. -/
theorem phase_matches_server_of_two :
    let node : Node := { host := "a", port := 1 }
    let s := (start [node] {}).run Rehearsal.network
      [.call (.watch 1 node [utf8 "k"]), .call (.multi 2 node)]
    s.PhasesMatch ∧ (s.executor.session? 1).map (·.phase) = some .watching ∧
      (s.executor.session? 2).map (·.phase) = some .queued := by
  intro node s
  have horderly : (start [node] {}).Orderly Rehearsal.network
      [.call (.watch 1 node [utf8 "k"]), .call (.multi 2 node)] := by
    refine orderly_call trivial ?_ (orderly_call trivial ?_ (orderly_nil _))
    · decide +kernel
    · decide +kernel
  exact ⟨phase_matches_server horderly, by decide +kernel, by decide +kernel⟩

/-- **A kept connection is clean unless a rejected step left something behind.** -/
theorem kept_clean_iff {nodes : List Node} {net : σ} {moves : List (Move σ)}
    (h : (start nodes net).Orderly N moves) :
    ((start nodes net).run N moves).CleanUnlessLeftBehind := by
  intro id p hp c hc
  obtain ⟨held, hheld, hclean⟩ := (tracked_run h).kept id p hp c hc
  refine ⟨held, hheld, ?_, hclean⟩
  rintro rfl hl
  exact hl.held hheld

/-- Where the server rejects DISCARD, the next borrower finds the transaction that the session began. -/
theorem kept_dirty_of_rejected_discard :
    let node : Node := { host := "a", port := 1 }
    let net : Rehearsal.Stage :=
      { rules := [{ command := some "DISCARD", action := .reply (utf8 "-NOPERM\r\n") }] }
    let s := (start [node] net).run Rehearsal.network [.call (.multi 1 node), .call (.endSession 1)]
    ∃ p c, s.executor.pools.find? node.id = some p ∧ c ∈ p.idle ∧
      heldOn (· = .exec) c.link s.wire.trace = some { inMulti := true } ∧
      LeftBehind (· = .exec) c.link s.wire.trace := by
  intro node net s
  have horderly : (start [node] net).Orderly Rehearsal.network
      [.call (.multi 1 node), .call (.endSession 1)] := by
    refine orderly_call trivial ?_ (orderly_call trivial ?_ (orderly_nil _))
    · decide +kernel
    · decide +kernel
  have h : s.CleanUnlessLeftBehind := kept_clean_iff horderly
  let c : Connection :=
    { id := 1, node := node.id, link := 0, dedicated := false, commands := 2 }
  have hp : s.executor.pools.find? node.id = some { node, idle := [c], created := 1 } := by
    decide +kernel
  have hqueuing : heldOn (· = .exec) c.link s.wire.trace = some { inMulti := true } := by
    decide +kernel
  obtain ⟨held, hheld, hclean⟩ := h node.id _ hp c (List.mem_singleton.2 rfl)
  refine ⟨_, c, hp, List.mem_singleton.2 rfl, hqueuing, ?_⟩
  by_contra hl
  rw [hclean.2 hl, hqueuing] at hheld
  cases hheld

end Scene

end ShardFleet
