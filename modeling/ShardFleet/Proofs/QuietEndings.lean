import ShardFleet.Proofs.Interleaving

/-!
# Listeners that end quietly

A listener whose subscription is held ends quietly for the last frame that it hears, and for no other
reason. That frame says that a name was taken back, and that no subscription is left. What it says of
those that are left is its third field: a number that is not positive says that none is left, and so
does a field that is no number, or is missing.
-/

namespace ShardFleet

namespace Notice

variable {items : List Resp.Value} {i : Nat}

/-- A field that does not read as the empty text is there, and is the text that it reads as. -/
theorem asText?_of_textAt (h : textAt items i ≠ "") :
    items[i]?.bind (·.asText?) = some (textAt items i) := by
  cases ht : items[i]?.bind (·.asText?) with
  | some s => simp [textAt, ht]
  | none => exact absurd (by simp [textAt, ht]) h

/-- A count reads as zero unless it is a positive number. -/
theorem countAt_eq_zero_iff :
    countAt items i = 0 ↔ ∀ n, items[i]? = some (.integer n) → n.toInt ≤ 0 := by
  unfold countAt
  cases items[i]? with
  | none => simp
  | some v => cases v <;> simp [Resp.Value.asInteger?, Int64.le_iff_toInt_le]

/-- The kinds of the notices that a name was taken back. -/
def leavingKinds : List String := ["unsubscribe", "punsubscribe"]

theorem ofItems_left_iff {count : Nat} : (∃ topic name, ofItems items = .ok (.left topic name count)) ↔
    (textAt items 0).map Char.toLower ∈ leavingKinds ∧ countAt items 2 = count := by
  constructor
  · rintro ⟨topic, name, h⟩
    simp only [ofItems] at h
    split_ifs at h with _ _ _ _ hchannels hpatterns <;> cases h
    · exact ⟨by simp [leavingKinds, hchannels], rfl⟩
    · exact ⟨by simp [leavingKinds, hpatterns], rfl⟩
  · rintro ⟨hkind, rfl⟩
    obtain hkind | hkind : _ = "unsubscribe" ∨ _ = "punsubscribe" := by
      simpa [leavingKinds] using hkind
    · exact ⟨.channels, textAt items 1, by simp [ofItems, hkind]⟩
    · exact ⟨.patterns, textAt items 1, by simp [ofItems, hkind]⟩

end Notice

namespace Resp.Value

/-- Whether a frame says that a name was taken back, with this third field. Its first field says so, as
a text in which the case of letters does not matter, and nothing is asked of its other fields. -/
def Leaves (v : Value) (third? : Option Value) : Prop :=
  ∃ items kind, v = .array items ∧ items[0]?.bind (·.asText?) = some kind ∧
    kind.map Char.toLower ∈ Notice.leavingKinds ∧ items[2]? = third?

/-- Whether a third field says that no subscription is left. -/
inductive NoneLeft : Option Value → Prop where
  | zero : NoneLeft (some (.integer 0))
  /-- It is no count at all. -/
  | uncounted {third? : Option Value} (negative : ∀ n, third? = some (.integer n) → n.toInt < 0) :
    NoneLeft third?

theorem noneLeft_iff {third? : Option Value} :
    NoneLeft third? ↔ ∀ n, third? = some (.integer n) → n.toInt ≤ 0 := by
  constructor
  · rintro (_ | negative) n hn
    · cases hn
      exact le_rfl
    · exact (negative n hn).le
  · intro h
    by_cases hzero : third? = some (.integer 0)
    · rw [hzero]
      exact .zero
    · refine .uncounted fun n hn => lt_of_le_of_ne (h n hn) fun hsame => hzero ?_
      rw [hn, Int64.toInt_inj.1 (hsame.trans Int64.toInt_zero.symm)]

theorem ending?_eq_quiet {v : Value} :
    v.ending? = some .quiet ↔ ∃ topic name, Notice.ofFrame v = .ok (.left topic name 0) := by
  unfold ending?
  cases Notice.ofFrame v with
  | error f => simp
  | ok n =>
    cases n with
    | left topic name count => cases count <;> simp
    | _ => simp

/-- **A frame ends a listener quietly** exactly if it says that a name was taken back and does not say
that some are left. -/
theorem ending?_eq_quiet_iff {v : Value} :
    v.ending? = some .quiet ↔ ∃ third?, v.Leaves third? ∧ NoneLeft third? := by
  rw [ending?_eq_quiet]
  cases v with
  | array items =>
    rw [show (Notice.ofFrame (.array items)) = Notice.ofItems items from rfl, Notice.ofItems_left_iff,
      Notice.countAt_eq_zero_iff, ← noneLeft_iff]
    constructor
    · rintro ⟨hkind, hnone⟩
      have hsome : Notice.textAt items 0 ≠ "" := fun hempty =>
        absurd (hempty ▸ hkind) (by decide +kernel)
      exact ⟨_, ⟨items, _, rfl, Notice.asText?_of_textAt hsome, hkind, rfl⟩, hnone⟩
    · rintro ⟨_, ⟨items', kind, hitems, htext, hkind, rfl⟩, hnone⟩
      cases hitems
      have hsame : Notice.textAt items 0 = kind := by simp [Notice.textAt, htext]
      exact ⟨hsame ▸ hkind, hnone⟩
  | _ =>
    constructor
    · rintro ⟨_, _, h⟩
      cases h
    · rintro ⟨_, ⟨_, _, h, -⟩, -⟩
      cases h

end Resp.Value

namespace Subscription.Loop

variable {σ : Type}

/-- **A held subscription ends quietly for its last frame only**: whatever the turns of a listener are,
if its subscription is held then it has ended quietly exactly if the last frame that it heard says that
a name was taken back, and has zero for its third field, or none that is a count at all. -/
theorem quiet_iff_none_left (N : Network σ) (node : Node) (connection : Connection)
    (w : Wire (Overheard σ)) (turns : List (Turn σ)) :
    ∃ t : Talk, ((start node connection w).run N turns).talk = (start node connection w).talk ++ t ∧
      (((start node connection w).run N turns).sub.held = true →
        (((start node connection w).run N turns).sub.listener.ending = some .quiet ↔
          ∃ v third?, t.heard.getLast? = some v ∧ v.Leaves third? ∧ Resp.Value.NoneLeft third?)) := by
  obtain ⟨t, htalk, hfaithful⟩ := continues_run (N := N) node connection w turns
  refine ⟨t, htalk, fun held => ⟨fun hquiet => ?_, ?_⟩⟩
  · obtain ⟨v, hlast, hends⟩ | hreleased := hfaithful.quiet hquiet
    · obtain ⟨third?, hleaves, hnone⟩ := Resp.Value.ending?_eq_quiet_iff.1 hends
      exact ⟨v, third?, hlast, hleaves, hnone⟩
    · cases held.symm.trans hreleased
  · rintro ⟨v, third?, hlast, hleaves, hnone⟩
    obtain ⟨before, hsplit⟩ := List.getLast?_eq_some_iff.1 hlast
    exact (hfaithful.last before v [] .quiet hsplit
      (Resp.Value.ending?_eq_quiet_iff.2 ⟨third?, hleaves, hnone⟩)).2

/-- A frame without a count ends a listener quietly. -/
theorem quiet_without_count :
    ∃ (w : Wire (Overheard Rehearsal.Stage)) (connection : Connection)
      (turns : List (Turn Rehearsal.Stage)) (t : Talk),
      let l := start { host := "a", port := 1 } connection w
      (l.run Rehearsal.network turns).talk = l.talk ++ t ∧
      (l.run Rehearsal.network turns).sub.held = true ∧
      t.heard = [.array [.bulk (utf8 "unsubscribe"), .bulk (utf8 "a")]] ∧
      (l.run Rehearsal.network turns).sub.listener.ending = some .quiet := by
  let frame : Resp.Value := .array [.bulk (utf8 "unsubscribe"), .bulk (utf8 "a")]
  let stage : Rehearsal.Stage := {
    links := [{ node := "a:1/0", channels := [utf8 "a"], queue := [.value frame] }] }
  let w : Wire (Overheard Rehearsal.Stage) := { net := { net := stage }, opened := 1 }
  let connection : Connection := { id := 0, node := "a:1/0", link := 0, dedicated := true }
  let l := start { host := "a", port := 1 } connection w
  have hheld : (l.run Rehearsal.network [.read none]).sub.held = true := by decide +kernel
  have hheard : (l.run Rehearsal.network [.read none]).talk = l.talk ++ [.heard frame] := by
    decide +kernel
  obtain ⟨t, htalk, hquiet⟩ :=
    quiet_iff_none_left Rehearsal.network { host := "a", port := 1 } connection w [.read none]
  obtain rfl : t = [.heard frame] := List.append_cancel_left (htalk.symm.trans hheard)
  have hleaves : frame.Leaves none := ⟨_, "unsubscribe", rfl, by decide +kernel, by decide +kernel, rfl⟩
  exact ⟨w, connection, [.read none], _, htalk, hheld, rfl,
    (hquiet hheld).2 ⟨frame, none, rfl, hleaves, .uncounted nofun⟩⟩

end Subscription.Loop

end ShardFleet
