import ShardFleet.Proofs.Acknowledgements
import ShardFleet.Proofs.Interleaving

/-!
# What messages are delivered as

Channels, patterns and payloads are bytes on the wire. A payload is passed on as it is. A channel and a
pattern are passed on as text, and bytes that write no text as the empty text: so a name that is not
empty stands for its own bytes only, and the empty name for all that is no text as well.
-/

namespace ShardFleet

/-- Whether a name stands for some bytes: it is the text that they write, or it is empty and they write
none. -/
def Names (name : String) (b : Bytes) : Prop := utf8 name = b ∨ name = "" ∧ ∀ s, utf8 s ≠ b

/-- A name that stands for different bytes is empty. -/
theorem Names.eq_empty {name : String} {b b' : Bytes} (h : Names name b) (h' : Names name b')
    (hne : b ≠ b') : name = "" := by
  obtain rfl | ⟨hempty, -⟩ := h
  · obtain rfl | ⟨hempty, -⟩ := h'
    · exact absurd rfl hne
    · exact hempty
  · exact hempty

namespace Resp.Value

/-- A message on a channel. -/
def message (kind : String) (channel payload : Bytes) : Value :=
  .array [.bulk (utf8 kind), .bulk channel, .bulk payload]

/-- A message on a channel, for those who have subscribed to a pattern. -/
def patternMessage (kind : String) (pattern channel payload : Bytes) : Value :=
  .array [.bulk (utf8 kind), .bulk pattern, .bulk channel, .bulk payload]

/-- A field of bytes reads as a name that stands for them. -/
theorem names_textAt {items : List Value} {i : Nat} {b : Bytes} (h : items[i]? = some (.bulk b)) :
    Names (Notice.textAt items i) b := by
  have htext : Notice.textAt items i = (Utf8.decode b).toOption.getD "" := by
    simp [Notice.textAt, h, asText?, Utf8.decode?]
  rw [htext]
  cases hd : Utf8.decode b with
  | ok s => exact .inl (Utf8.decode_eq_ok_iff.1 hd).symm
  | error f =>
    refine .inr ⟨rfl, fun s hs => ?_⟩
    rw [← hs, Utf8.decode_utf8] at hd
    cases hd

theorem call?_message {kind : String} (hkind : kind.map Char.toLower = "message")
    (channel payload : Bytes) : ∃ name, Names name channel ∧
      (message kind channel payload).call? = some (.notice (.message name payload)) := by
  refine ⟨Notice.textAt [.bulk (utf8 kind), .bulk channel, .bulk payload] 1, names_textAt rfl, ?_⟩
  simp only [call?, message, Notice.ofFrame, Notice.ofItems, Notice.textAt_bulk, hkind]
  rfl

theorem call?_patternMessage {kind : String} (hkind : kind.map Char.toLower = "pmessage")
    (pattern channel payload : Bytes) : ∃ patternName name, Names patternName pattern ∧
      Names name channel ∧ (patternMessage kind pattern channel payload).call? =
        some (.notice (.patternMessage patternName name payload)) := by
  let items : List Value := [.bulk (utf8 kind), .bulk pattern, .bulk channel, .bulk payload]
  refine ⟨Notice.textAt items 1, Notice.textAt items 2, names_textAt rfl, names_textAt rfl, ?_⟩
  simp only [call?, patternMessage, Notice.ofFrame, Notice.ofItems, Notice.textAt_bulk, hkind]
  rfl

end Resp.Value

namespace Subscription.Loop

variable {σ : Type}

/-- What is called for a frame is called in its place. -/
theorem calls_split {given waiting : List Command} {t : Talk} {s : Subscription}
    (h : Faithful given waiting t s) {before after : List Resp.Value} {v : Resp.Value} {c : Callback}
    (hsplit : t.heard = before ++ v :: after) (hc : v.call? = some c) :
    s.calls = before.filterMap (·.call?) ++ c :: (after.filterMap (·.call?) ++ s.listener.lastCall) := by
  rw [h.calls, hsplit, List.filterMap_append, List.filterMap_cons_some hc, List.append_assoc,
    List.cons_append]

/-- **Messages are delivered under names that stand for their channels**: whatever the turns of a
listener are, every message that it hears is passed on once and in its place, with its payload, under
the names that stand for its channel and its pattern; and different bytes have a name in common only if
that name is empty. -/
theorem delivered_under_names (N : Network σ) (node : Node) (connection : Connection)
    (w : Wire (Overheard σ)) (turns : List (Turn σ)) :
    let l := start node connection w
    let l' := l.run N turns
    ∃ t : Talk, l'.talk = l.talk ++ t ∧
      (∀ before after kind channel payload, t.heard = before ++ .message kind channel payload :: after →
        kind.map Char.toLower = "message" → ∃ name, Names name channel ∧ l'.sub.calls =
          before.filterMap (·.call?) ++ .notice (.message name payload) ::
            (after.filterMap (·.call?) ++ l'.sub.listener.lastCall)) ∧
      (∀ before after kind pattern channel payload,
        t.heard = before ++ .patternMessage kind pattern channel payload :: after →
        kind.map Char.toLower = "pmessage" → ∃ patternName name, Names patternName pattern ∧
          Names name channel ∧ l'.sub.calls =
            before.filterMap (·.call?) ++ .notice (.patternMessage patternName name payload) ::
              (after.filterMap (·.call?) ++ l'.sub.listener.lastCall)) ∧
      ∀ name b b', Names name b → Names name b' → b ≠ b' → name = "" := by
  intro l l'
  obtain ⟨t, htalk, hfaithful⟩ := continues_run (N := N) node connection w turns
  refine ⟨t, htalk, fun before after kind channel payload hheard hkind => ?_,
    fun before after kind pattern channel payload hheard hkind => ?_,
    fun name b b' h h' hne => h.eq_empty h' hne⟩
  · obtain ⟨name, hname, hcall⟩ := Resp.Value.call?_message hkind channel payload
    exact ⟨name, hname, calls_split hfaithful hheard hcall⟩
  · obtain ⟨patternName, name, hpattern, hname, hcall⟩ :=
      Resp.Value.call?_patternMessage hkind pattern channel payload
    exact ⟨patternName, name, hpattern, hname, calls_split hfaithful hheard hcall⟩

/-- Messages on two channels whose bytes are no text are delivered under the empty name. -/
theorem delivered_under_empty_name :
    ∃ (w : Wire (Overheard Rehearsal.Stage)) (connection : Connection)
      (turns : List (Turn Rehearsal.Stage)) (t : Talk),
      let l := start { host := "a", port := 1 } connection w
      (l.run Rehearsal.network turns).talk = l.talk ++ t ∧
      t.heard = [.message "Message" [0xFF] (utf8 "c"),
        .patternMessage "pmessage" (utf8 "*") [0xFE] (utf8 "d")] ∧
      Names "" [0xFF] ∧ Names "*" (utf8 "*") ∧ Names "" [0xFE] ∧
      (l.run Rehearsal.network turns).sub.calls =
        [.notice (.message "" (utf8 "c")), .notice (.patternMessage "*" "" (utf8 "d"))] := by
  let first : Resp.Value := .message "Message" [0xFF] (utf8 "c")
  let second : Resp.Value := .patternMessage "pmessage" (utf8 "*") [0xFE] (utf8 "d")
  let stage : Rehearsal.Stage := {
    links := [{ node := "a:1/0", patterns := [utf8 "*"], queue := [.value first, .value second] }] }
  let w : Wire (Overheard Rehearsal.Stage) := { net := { net := stage }, opened := 1 }
  let connection : Connection := { id := 0, node := "a:1/0", link := 0, dedicated := true }
  let turns : List (Turn Rehearsal.Stage) := [.read none, .read none]
  let l := start { host := "a", port := 1 } connection w
  have hheard : (l.run Rehearsal.network turns).talk = l.talk ++ [.heard first, .heard second] := by
    decide +kernel
  have hcalls : (l.run Rehearsal.network turns).sub.calls =
      [.notice (.message "" (utf8 "c")), .notice (.patternMessage "*" "" (utf8 "d"))] := by
    decide +kernel
  obtain ⟨t, htalk, hmessage, hpattern, -⟩ :=
    delivered_under_names Rehearsal.network { host := "a", port := 1 } connection w turns
  obtain rfl : t = [.heard first, .heard second] := List.append_cancel_left (htalk.symm.trans hheard)
  obtain ⟨name, hname, hnamed⟩ :=
    hmessage [] [second] "Message" [0xFF] (utf8 "c") rfl (by decide +kernel)
  obtain ⟨pattern, name', hpattern, hname', hnamed'⟩ :=
    hpattern [first] [] "pmessage" (utf8 "*") [0xFE] (utf8 "d") rfl (by decide +kernel)
  have hfirst : [first].filterMap (·.call?) = [.notice (.message "" (utf8 "c"))] := by decide +kernel
  rw [hfirst] at hnamed'
  obtain ⟨hcall, -⟩ := List.cons.inj (hcalls.symm.trans hnamed)
  obtain ⟨-, hrest⟩ := List.cons.inj (hcalls.symm.trans hnamed')
  obtain ⟨hcall', -⟩ := List.cons.inj hrest
  cases hcall
  cases hcall'
  exact ⟨w, connection, turns, _, htalk, rfl, hname, hpattern, hname', hcalls⟩

/-- A message is not always delivered under its channel, nor are messages on different channels always
delivered under different names. -/
theorem channels_not_kept :
    (¬ ∀ channel payload, ∃ name, utf8 name = channel ∧
      (Resp.Value.message "message" channel payload).call? =
        some (.notice (.message name payload))) ∧
    ¬ ∀ channel channel' payload payload' name,
      (Resp.Value.message "message" channel payload).call? =
        some (.notice (.message name payload)) →
      (Resp.Value.message "message" channel' payload').call? =
        some (.notice (.message name payload')) → channel = channel' := by
  constructor
  · intro h
    obtain ⟨name, hname, -⟩ := h [0xFF] []
    have hbad : (Utf8.decode [0xFF]).toOption = none := by decide +kernel
    rw [← hname, Utf8.decode_utf8] at hbad
    cases hbad
  · intro h
    exact absurd (h [0xFF] [0xFE] [] [] "" (by decide +kernel) (by decide +kernel)) (by decide)

end Subscription.Loop

end ShardFleet
