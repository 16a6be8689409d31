import Mathlib
import ShardFleet.Resp.Reader

/-!
# Frames in a stream

What a reader makes of a buffer does not depend on the bytes after it: once it finds a frame, or that
there is none, more bytes change nothing but what is left. So it does not matter in which pieces a
stream arrives, and a stream of replies is cut into them in one way only.
-/

namespace ShardFleet.Resp

namespace Scan

variable {α β : Type}

/-- A reader's result with more bytes left. -/
def extend (c : Bytes) : Scan α → Scan α
  | incomplete => incomplete
  | invalid e => invalid e
  | found v rest => found v (rest ++ c)

/-- Whether a reader that told enough of a buffer says the same with `c` after it. -/
structure Stays (c : Bytes) (r r' : Scan α) : Prop where
  eq : r ≠ .incomplete → r' = r.extend c

namespace Stays

variable {c : Bytes}

theorem invalid (c : Bytes) (e : Fault) : Stays c (invalid e : Scan α) (invalid e) := ⟨fun _ => rfl⟩

theorem found (c rest : Bytes) (v : α) : Stays c (found v rest) (found v (rest ++ c)) :=
  ⟨fun _ => rfl⟩

theorem ofExcept (c rest : Bytes) (r : Except Fault α) :
    Stays c (ofExcept rest r) (ofExcept (rest ++ c) r) := by
  cases r with
  | ok v => exact .found c rest v
  | error e => exact .invalid c e

theorem ite {p : Prop} [Decidable p] {r r' s s' : Scan α} (h : Stays c r r') (h' : Stays c s s') :
    Stays c (if p then r else s) (if p then r' else s') := by
  by_cases hp : p
  · rwa [if_pos hp, if_pos hp]
  · rwa [if_neg hp, if_neg hp]

theorem andThen {r r' : Scan α} {next next' : α → Bytes → Scan β} (h : Stays c r r')
    (hnext : ∀ v rest, Stays c (next v rest) (next' v (rest ++ c))) :
    Stays c (r.andThen next) (r'.andThen next') := by
  cases r with
  | incomplete => exact ⟨fun hne => absurd rfl hne⟩
  | invalid e =>
    rw [h.eq (by simp)]
    exact .invalid c e
  | found v rest =>
    rw [h.eq (by simp)]
    exact hnext v rest

theorem map {r r' : Scan α} (h : Stays c r r') (f : α → β) : Stays c (r.map f) (r'.map f) := by
  cases r with
  | incomplete => exact ⟨fun hne => absurd rfl hne⟩
  | invalid e =>
    rw [h.eq (by simp)]
    exact .invalid c e
  | found v rest =>
    rw [h.eq (by simp)]
    exact .found c rest (f v)

end Stays

end Scan

open Scan

theorem readLine_append {b line rest : Bytes} (h : readLine b = some (line, rest)) (c : Bytes) :
    readLine (b ++ c) = some (line, rest ++ c) := by
  fun_induction readLine b generalizing line with
  | case1 x y tail hend =>
    cases h
    simp [readLine, hend]
  | case2 x y tail hend ih =>
    obtain ⟨⟨l, r⟩, hl, hlr⟩ := Option.map_eq_some_iff.1 h
    cases hlr
    have := ih hl
    simp only [List.cons_append] at this ⊢
    rw [readLine, if_neg hend, this]
    rfl
  | case3 => cases h

theorem readPayload_append (n : Nat) (b c : Bytes) :
    Stays c (readPayload n b) (readPayload n (b ++ c)) := by
  by_cases hlen : b.length < n + 2
  · rw [readPayload, if_pos hlen]
    exact ⟨fun hne => absurd rfl hne⟩
  · have hlen' : ¬ (b ++ c).length < n + 2 := by
      rw [List.length_append]
      omega
    have hdrop (m : Nat) (hm : m ≤ n + 2) : (b ++ c).drop m = b.drop m ++ c :=
      List.drop_append_of_le_length (by omega)
    have hend : ((b ++ c).drop n).take 2 = (b.drop n).take 2 := by
      rw [hdrop n (by omega), List.take_append_of_le_length (by rw [List.length_drop]; omega)]
    rw [readPayload, readPayload, if_neg hlen, if_neg hlen', hend, hdrop (n + 2) (Nat.le_refl _),
      List.take_append_of_le_length (by omega)]
    exact .ite (.found ..) (.invalid ..)

theorem readItems_append {α : Type} {item item' : Bytes → Scan α} {c : Bytes}
    (h : ∀ b, Stays c (item b) (item' (b ++ c))) (n : Nat) (b : Bytes) :
    Stays c (readItems item n b) (readItems item' n (b ++ c)) := by
  induction n generalizing b with
  | zero => exact .found c b []
  | succ n ih => exact (h b).andThen fun v rest => (ih rest).map _

/-- A frame stays what it is, however much follows and however deep a reader would look. -/
theorem readFrame_append (c : Bytes) {d : Nat} : ∀ {d' : Nat} (b : Bytes), d ≤ d' →
    Stays c (readFrame d b) (readFrame d' (b ++ c)) := by
  induction d with
  | zero => exact fun _ _ => ⟨fun hne => absurd rfl hne⟩
  | succ d ih =>
    intro d' b hd
    obtain ⟨d', rfl⟩ : ∃ e, d' = e + 1 := ⟨d' - 1, by omega⟩
    have hd : d ≤ d' := by omega
    cases hl : readLine b with
    | none =>
      rw [readFrame, hl]
      exact ⟨fun hne => absurd rfl hne⟩
    | some p =>
      obtain ⟨line, rest⟩ := p
      have hl' := readLine_append hl c
      cases line with
      | nil =>
        rw [readFrame, readFrame, hl, hl']
        exact .invalid c _
      | cons lead body =>
        simp only [readFrame, hl, hl']
        refine .ite (.ofExcept ..) (.ite (.ofExcept ..) (.ite (.ofExcept ..) (.ite ?_ (.ite ?_
          (.invalid ..)))))
        · rcases readLength .bulkLength body with e | (_ | n)
          · exact .invalid c e
          · exact .found c rest Value.nullBulk
          · exact (readPayload_append n rest c).map _
        · rcases readLength .arrayLength body with e | (_ | n)
          · exact .invalid c e
          · exact .found c rest Value.nullArray
          · exact (readItems_append (fun b => ih b hd) n rest).map _

/-- A buffer with a frame at its front, or with bytes that are none, says the same when more bytes
come after it. -/
theorem parse_append {b : Bytes} (h : parse b ≠ .incomplete) (c : Bytes) :
    parse (b ++ c) = (parse b).extend c := by
  have hlen : b.length ≤ (b ++ c).length := by
    rw [List.length_append]
    omega
  exact (readFrame_append c b hlen).eq h

theorem parse_append_found {b rest : Bytes} {v : Value} (h : parse b = .found v rest) (c : Bytes) :
    parse (b ++ c) = .found v (rest ++ c) := by
  rw [parse_append (by simp [h]), h]
  rfl

/-! ### Streams of replies -/

/-- Taking one frame after the other from a stream gives some values, and leaves some bytes. -/
inductive Takes : Bytes → List Value → Bytes → Prop where
  | nil (b : Bytes) : Takes b [] b
  | cons {b rest b' v vs} (frame : parse b = .found v rest) (takes : Takes rest vs b') :
    Takes b (v :: vs) b'

namespace Takes

variable {b rest : Bytes} {vs : List Value}

theorem append (h : Takes b vs rest) (c : Bytes) : Takes (b ++ c) vs (rest ++ c) := by
  induction h with
  | nil b => exact .nil _
  | cons frame _ ih => exact .cons (parse_append_found frame c) ih

theorem concat {v : Value} {after : Bytes} (h : Takes b vs rest) (hv : parse rest = .found v after) :
    Takes b (vs ++ [v]) after := by
  induction h with
  | nil b => exact .cons hv (.nil _)
  | cons frame _ ih => exact .cons frame (ih hv)

end Takes

/-- Whether some bytes are one reply: a frame, or bytes that a reader rejects. -/
def IsReply (b : Bytes) : Prop := (∃ v, parse b = .found v []) ∨ ∃ e, parse b = .invalid e

/-- **Replies are counted right**: where as many frames were taken from a stream as there are replies
in it, they are the replies, and all of them have arrived and nothing else. -/
theorem Takes.of_replies {b rest : Bytes} {vs : List Value} (h : Takes b vs rest)
    {replies : List Bytes} (hreplies : ∀ r ∈ replies, IsReply r)
    (hlen : vs.length = replies.length) (hb : b <+: replies.flatten) :
    replies.map parse = vs.map (Scan.found · []) ∧ rest = [] ∧ b = replies.flatten := by
  induction h generalizing replies with
  | nil b =>
    have hnil : replies = [] := List.eq_nil_of_length_eq_zero hlen.symm
    subst hnil
    have hb : b = [] := List.prefix_nil.1 hb
    simp [hb]
  | @cons b rest b' v vs frame _ ih =>
    cases replies with
    | nil => cases hlen
    | cons r replies =>
      obtain ⟨c, hc⟩ := hb
      have hparse := parse_append_found frame c
      rw [hc, List.flatten_cons] at hparse
      have hr := hreplies r List.mem_cons_self
      -- The first reply is the first frame: a reply that was rejected would have been rejected here.
      rcases hr with ⟨w, hw⟩ | ⟨e, he⟩
      · rw [parse_append_found hw, List.nil_append] at hparse
        obtain ⟨rfl, hrest⟩ := Scan.found.inj hparse
        obtain ⟨hmap, hnil, hall⟩ := ih (fun r hr => hreplies r (List.mem_cons_of_mem _ hr))
          (by simpa using hlen) ⟨c, hrest.symm⟩
        have hc' : c = [] := by
          rw [hall] at hrest
          simpa using hrest
        refine ⟨by simp [hw, hmap], hnil, ?_⟩
        rw [hc', List.append_nil] at hc
        exact hc
      · rw [parse_append (by simp [he]), he] at hparse
        cases hparse

end ShardFleet.Resp
