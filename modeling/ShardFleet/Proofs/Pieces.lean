import ShardFleet.Proofs.Streams

/-!
# Streams in pieces

However a stream is cut into pieces, a reader that takes all frames it can after each piece gets the
same values, the same first fault and the same bytes left as one that is given the stream at once. What
it takes for a value is one frame, no more and no less, and of what is none it takes nothing.
-/

namespace ShardFleet.Resp

open Scan

/-! ### What a reader finds depends on what it takes alone -/

/-- Whether a reader finds a value in the bytes that it takes alone as well as in the whole buffer. -/
def SelfContained {α : Type} (read : Bytes → Scan α) : Prop :=
  ∀ ⦃b v rest⦄, read b = .found v rest → ∃ front, b = front ++ rest ∧ read front = .found v []

namespace SelfContained

variable {α β : Type}

theorem invalid (e : Fault) : SelfContained fun _ => (.invalid e : Scan α) := by
  intro b v rest h
  cases h

theorem found (v : α) : SelfContained fun b => .found v b := by
  intro b w rest h
  cases h
  exact ⟨[], rfl, rfl⟩

theorem ofExcept (r : Except Fault α) : SelfContained fun b => .ofExcept b r := by
  cases r with
  | ok v => exact found v
  | error e => exact invalid e

theorem map {read : Bytes → Scan α} (h : SelfContained read) (f : α → β) :
    SelfContained fun b => (read b).map f := by
  intro b w rest hb
  cases hr : read b with
  | found v after =>
    simp only [hr, Scan.map] at hb
    cases hb
    obtain ⟨front, hsplit, hfront⟩ := h hr
    exact ⟨front, hsplit, by simp [hfront, Scan.map]⟩
  | _ => simp [hr, Scan.map] at hb

theorem ite {p : Prop} [Decidable p] {read read' : Bytes → Scan α} (h : SelfContained read)
    (h' : SelfContained read') : SelfContained fun b => if p then read b else read' b := by
  by_cases hp : p
  · simpa only [if_pos hp] using h
  · simpa only [if_neg hp] using h'

end SelfContained

theorem readLine_front {b line rest : Bytes} (h : readLine b = some (line, rest)) :
    ∃ front, b = front ++ rest ∧ front ≠ [] ∧ readLine front = some (line, []) := by
  fun_induction readLine b generalizing line with
  | case1 x y tail hend =>
    cases h
    exact ⟨[x, y], rfl, by simp, by simp [readLine, hend]⟩
  | case2 x y tail hend ih =>
    obtain ⟨⟨l, r⟩, hl, hlr⟩ := Option.map_eq_some_iff.1 h
    cases hlr
    obtain ⟨front, hsplit, hne, hfront⟩ := ih hl
    obtain ⟨z, front, rfl⟩ := List.exists_cons_of_ne_nil hne
    obtain ⟨rfl, rfl⟩ := List.cons.inj hsplit
    exact ⟨x :: y :: front, rfl, by simp, by rw [readLine, if_neg hend, hfront]; rfl⟩
  | case3 => cases h

theorem readPayload_selfContained (n : Nat) : SelfContained (readPayload n) := by
  intro b v rest h
  unfold readPayload at h
  split at h
  · cases h
  · rename_i hlen
    split at h
    · rename_i hend
      cases h
      refine ⟨b.take (n + 2), (List.take_append_drop ..).symm, ?_⟩
      have hlen' : ¬ (b.take (n + 2)).length < n + 2 := by
        rw [List.length_take]
        omega
      rw [readPayload, if_neg hlen', List.drop_take, Nat.add_sub_cancel_left, List.take_take,
        Nat.min_self, if_pos hend, List.take_take, Nat.min_eq_left (Nat.le_add_right n 2),
        List.drop_take, Nat.sub_self, List.take_zero]
    · cases h

theorem readItems_selfContained {α : Type} {item : Bytes → Scan α}
    (h : ∀ b c, Stays c (item b) (item (b ++ c))) (hitem : SelfContained item) (n : Nat) :
    SelfContained (readItems item n) := by
  induction n with
  | zero => exact SelfContained.found []
  | succ n ih =>
    intro b vs rest hb
    rw [readItems] at hb
    cases hi : item b with
    | found v after =>
      rw [hi] at hb
      obtain ⟨back, rfl, hback⟩ := ih.map (v :: ·) hb
      obtain ⟨front, rfl, hfront⟩ := hitem hi
      refine ⟨front ++ back, (List.append_assoc ..).symm, ?_⟩
      have hfound : item (front ++ back) = .found v back := by
        rw [(h front back).eq (by simp [hfront]), hfront]
        rfl
      rw [readItems, hfound]
      exact hback
    | _ => simp [hi, andThen] at hb

/-! ### Frames behind their headers -/

/-- What follows the header of a frame, of which the first byte is `lead` and the others are `body`. -/
def readAfter (depth : Nat) (lead : UInt8) (body : Bytes) (b : Bytes) : Scan Value :=
  if lead = 0x2B then .ofExcept b (readText .simple body)
  else if lead = 0x2D then .ofExcept b (readText .error body)
  else if lead = 0x3A then .ofExcept b (((Numeral.read body).mapError .notInteger).map .integer)
  else if lead = 0x24 then
    match readLength .bulkLength body with
    | .error e => .invalid e
    | .ok none => .found .nullBulk b
    | .ok (some n) => (readPayload n b).map .bulk
  else if lead = 0x2A then
    match readLength .arrayLength body with
    | .error e => .invalid e
    | .ok none => .found .nullArray b
    | .ok (some n) => (readItems (readFrame depth) n b).map .array
  else .invalid (.unknownType lead)

/-- A frame is a header and what follows it. -/
theorem readFrame_succ (depth : Nat) (b : Bytes) :
    readFrame (depth + 1) b =
      match readLine b with
      | none => .incomplete
      | some ([], _) => .invalid .emptyHeader
      | some (lead :: body, rest) => readAfter depth lead body rest := rfl

theorem readAfter_selfContained {depth : Nat} (h : SelfContained (readFrame depth)) (lead : UInt8)
    (body : Bytes) : SelfContained (readAfter depth lead body) := by
  unfold readAfter
  refine .ite (.ofExcept _) (.ite (.ofExcept _) (.ite (.ofExcept _) (.ite ?_ (.ite ?_ (.invalid _)))))
  · rcases readLength .bulkLength body with e | (_ | n)
    · exact .invalid e
    · exact .found _
    · exact (readPayload_selfContained n).map _
  · rcases readLength .arrayLength body with e | (_ | n)
    · exact .invalid e
    · exact .found _
    · exact (readItems_selfContained (fun b c => readFrame_append c b (Nat.le_refl _)) h n).map _

theorem readFrame_selfContained (depth : Nat) : SelfContained (readFrame depth) := by
  induction depth with
  | zero =>
    intro b v rest h
    cases h
  | succ depth ih =>
    intro b v rest h
    rw [readFrame_succ] at h
    cases hl : readLine b with
    | none => simp [hl] at h
    | some p =>
      obtain ⟨line, after⟩ := p
      cases line with
      | nil => simp [hl] at h
      | cons lead body =>
        simp only [hl] at h
        obtain ⟨header, rfl, -, hheader⟩ := readLine_front hl
        obtain ⟨front, rfl, hfront⟩ := readAfter_selfContained ih lead body h
        refine ⟨header ++ front, (List.append_assoc ..).symm, ?_⟩
        rw [readFrame_succ, readLine_append hheader]
        exact hfront

/-! ### How deep a reader has to look -/

theorem readFrame_rest_le {depth : Nat} {b rest : Bytes} {v : Value}
    (h : readFrame depth b = .found v rest) : rest.length ≤ b.length := by
  obtain ⟨front, rfl, -⟩ := readFrame_selfContained depth h
  rw [List.length_append]
  omega

theorem readItems_congr {α : Type} {item item' : Bytes → Scan α} {size : Nat}
    (h : ∀ b, b.length ≤ size → item b = item' b)
    (hrest : ∀ b v rest, item b = .found v rest → rest.length ≤ b.length) (n : Nat) :
    ∀ b, b.length ≤ size → readItems item n b = readItems item' n b := by
  induction n with
  | zero => exact fun _ _ => rfl
  | succ n ih =>
    intro b hb
    rw [readItems, readItems, ← h b hb]
    cases hi : item b with
    | found v rest =>
      have hle := hrest b v rest hi
      simp only [andThen, ih rest (by omega)]
    | _ => rfl

/-- A reader that looks as deep as its buffer is long sees all that there is. -/
theorem readFrame_deeper {depth : Nat} {b : Bytes} (h : b.length ≤ depth) :
    readFrame (depth + 1) b = readFrame depth b := by
  induction depth generalizing b with
  | zero =>
    obtain rfl := List.eq_nil_of_length_eq_zero (Nat.le_zero.1 h)
    rfl
  | succ depth ih =>
    rw [readFrame_succ, readFrame_succ]
    cases hl : readLine b with
    | none => rfl
    | some p =>
      obtain ⟨line, rest⟩ := p
      cases line with
      | nil => rfl
      | cons lead body =>
        obtain ⟨header, rfl, hne, -⟩ := readLine_front hl
        have hpos : 0 < header.length := List.length_pos_iff.2 hne
        have hrest : rest.length ≤ depth := by
          rw [List.length_append] at h
          omega
        -- Only the items of an array are read at another depth.
        have hitems (n : Nat) :
            readItems (readFrame (depth + 1)) n rest = readItems (readFrame depth) n rest :=
          readItems_congr (fun b hb => ih hb) (fun _ _ _ => readFrame_rest_le) n rest hrest
        simp only [readAfter, hitems]

theorem readFrame_eq_parse {depth : Nat} {b : Bytes} (h : b.length ≤ depth) :
    readFrame depth b = parse b := by
  induction depth, h using Nat.le_induction with
  | base => rfl
  | succ depth h ih => rw [readFrame_deeper h, ih]

/-! ### One frame -/

/-- Whether some bytes are one frame, for which no fewer of them would do. -/
structure IsFrame (frame : Bytes) (v : Value) : Prop where
  whole : parse frame = .found v []
  least : ∀ front, front <+: frame → front ≠ frame → parse front = .incomplete

/-- Nothing that comes before the end of a frame can be told from the frame's beginning. -/
theorem isFrame_of_parse {frame : Bytes} {v : Value} (h : parse frame = .found v []) :
    IsFrame frame v := by
  refine ⟨h, ?_⟩
  rintro front ⟨more, rfl⟩ hne
  by_contra hsome
  rw [parse_append hsome] at h
  cases hp : parse front with
  | incomplete => exact hsome hp
  | invalid e => simp [hp, extend] at h
  | found w rest =>
    simp only [hp, extend, found.injEq, List.append_eq_nil_iff] at h
    exact hne (by rw [h.2.2, List.append_nil])

/-- What is taken from the front of a buffer for a value is one frame. -/
theorem exists_frame {b rest : Bytes} {v : Value} (h : parse b = .found v rest) :
    ∃ frame, b = frame ++ rest ∧ IsFrame frame v := by
  obtain ⟨frame, rfl, hframe⟩ := readFrame_selfContained _ h
  refine ⟨frame, rfl, isFrame_of_parse ?_⟩
  have hlength : frame.length ≤ (frame ++ rest).length := by simp
  rwa [← readFrame_eq_parse hlength]

theorem length_lt_of_parse {b rest : Bytes} {v : Value} (h : parse b = .found v rest) :
    rest.length < b.length := by
  obtain ⟨frame, rfl, hframe⟩ := exists_frame h
  have hne : frame ≠ [] := by
    rintro rfl
    cases hframe.whole
  have := List.length_pos_iff.2 hne
  rw [List.length_append]
  omega

/-! ### All frames that are there -/

/-- What was drained, after one more value at its front. -/
def Drained.push (v : Value) (d : Drained) : Drained := { d with values := v :: d.values }

theorem drainUpTo_congr {b : Bytes} {m n : Nat} (hm : b.length ≤ m) (hn : b.length ≤ n) :
    drainUpTo m b = drainUpTo n b := by
  induction m generalizing n b with
  | zero =>
    obtain rfl := List.eq_nil_of_length_eq_zero (Nat.le_zero.1 hm)
    cases n <;> rfl
  | succ m ih =>
    cases n with
    | zero =>
      obtain rfl := List.eq_nil_of_length_eq_zero (Nat.le_zero.1 hn)
      rfl
    | succ n =>
      rw [drainUpTo, drainUpTo]
      cases hp : parse b with
      | found v rest =>
        have hlt := length_lt_of_parse hp
        simp only [ih (b := rest) (n := n) (by omega) (by omega)]
      | _ => rfl

theorem drain_of_incomplete {b : Bytes} (h : parse b = .incomplete) : drain b = ⟨[], none, b⟩ := by
  cases b with
  | nil => rfl
  | cons x b => rw [drain, List.length_cons, drainUpTo, h]

theorem drain_of_invalid {b : Bytes} {e : Fault} (h : parse b = .invalid e) :
    drain b = ⟨[], some e, b⟩ := by
  cases b with
  | nil => cases h
  | cons x b => rw [drain, List.length_cons, drainUpTo, h]

theorem drain_of_found {b rest : Bytes} {v : Value} (h : parse b = .found v rest) :
    drain b = (drain rest).push v := by
  have hlt := length_lt_of_parse h
  cases b with
  | nil => cases h
  | cons x b =>
    rw [List.length_cons] at hlt
    rw [drain, List.length_cons, drainUpTo, h]
    simp only [drainUpTo_congr (n := rest.length) (Nat.le_of_lt_succ hlt) (Nat.le_refl _)]
    rfl

/-- To show something of every buffer, one shows it where no frame is found, and where one is found
under the assumption that it holds of what is left. -/
theorem drain_induction {P : Bytes → Prop} (incomplete : ∀ b, parse b = .incomplete → P b)
    (invalid : ∀ b e, parse b = .invalid e → P b)
    (found : ∀ b v rest, parse b = .found v rest → P rest → P b) (b : Bytes) : P b := by
  induction hn : b.length using Nat.strongRecOn generalizing b with
  | ind n ih =>
    cases hp : parse b with
    | incomplete => exact incomplete b hp
    | invalid e => exact invalid b e hp
    | found v rest =>
      have hlt := length_lt_of_parse hp
      exact found b v rest hp (ih rest.length (by omega) rest rfl)

/-- What a reader has made of a stream, after one more piece of it has arrived. -/
def Drained.feed (d : Drained) (piece : Bytes) : Drained :=
  let e := drain (d.rest ++ piece)
  ⟨d.values ++ e.values, d.fault <|> e.fault, e.rest⟩

theorem drain_append (b c : Bytes) : drain (b ++ c) = (drain b).feed c := by
  induction b using drain_induction with
  | incomplete b h => simp [drain_of_incomplete h, Drained.feed]
  | invalid b e h =>
    have hmore : parse (b ++ c) = .invalid e := by
      rw [parse_append (by simp [h]), h]
      rfl
    simp [drain_of_invalid h, drain_of_invalid hmore, Drained.feed]
  | found b v rest h ih =>
    rw [drain_of_found h, drain_of_found (parse_append_found h c), ih]
    rfl

/-- What a reader makes of a stream that arrives piece by piece. -/
def feedAll (pieces : List Bytes) : Drained := pieces.foldl Drained.feed ⟨[], none, []⟩

theorem feedAll_concat (pieces : List Bytes) (piece : Bytes) :
    feedAll (pieces ++ [piece]) = (feedAll pieces).feed piece := by
  simp [feedAll, List.foldl_append]

theorem feedAll_eq_drain (pieces : List Bytes) : feedAll pieces = drain pieces.flatten := by
  induction pieces using List.reverseRecOn with
  | nil => rfl
  | append_singleton pieces piece ih =>
    rw [feedAll_concat, ih, List.flatten_append, drain_append, List.flatten_singleton]

/-- Whether a stream was taken apart into frames and what is left of it. -/
structure Drained.Splits (d : Drained) (b : Bytes) : Prop where
  frames : ∃ frames : List Bytes, b = frames.flatten ++ d.rest ∧ List.Forall₂ IsFrame frames d.values
  left : parse d.rest = match d.fault with | none => .incomplete | some e => .invalid e

theorem drain_splits (b : Bytes) : (drain b).Splits b := by
  induction b using drain_induction with
  | incomplete b h =>
    rw [drain_of_incomplete h]
    exact ⟨⟨[], rfl, .nil⟩, h⟩
  | invalid b e h =>
    rw [drain_of_invalid h]
    exact ⟨⟨[], rfl, .nil⟩, h⟩
  | found b v rest h ih =>
    obtain ⟨frame, rfl, hframe⟩ := exists_frame h
    obtain ⟨⟨frames, hsplit, hframes⟩, hleft⟩ := ih
    rw [drain_of_found h]
    refine ⟨⟨frame :: frames, ?_, .cons hframe hframes⟩, hleft⟩
    rw [List.flatten_cons, List.append_assoc]
    exact congrArg _ hsplit

end ShardFleet.Resp

namespace ShardFleet

/-! ### Frames of a link -/

/-- The value that a call answered. -/
def Outcome.value? {α : Type} : Outcome α → Option α
  | ok a => some a
  | _ => none

/-- What was wrong with the bytes of which a call should have made a frame. -/
def Outcome.frameFault? {α : Type} : Outcome α → Option Resp.Fault
  | failed (.protocol (.frame e)) => some e
  | _ => none

namespace Stream

variable {σ : Type} {B : ByteNetwork σ} {link : Nat}

/-- Takes frames from a link, one call after the other. Each call comes with the number of readings that
it may make, the time at which it is made and the time at which it is given up. -/
def frames (B : ByteNetwork σ) (link : Nat) : List (Nat × Nat × Option Nat) → Link → σ →
    List (Outcome Resp.Value) × Link × σ
  | [], l, s => ([], l, s)
  | (fuel, now, deadline) :: calls, l, s =>
    let (r, l, _, s) := frame B fuel link l now deadline s
    let (rs, l, s) := frames B link calls l s
    (r :: rs, l, s)

/-- What a call for a frame makes of a link on which `chunk` arrives meanwhile. -/
structure Taking (chunk : Bytes) (l : Link) (r : Outcome Resp.Value) (l' : Link) : Prop where
  found : ∀ v, r = .ok v → Resp.parse (l.buffer ++ chunk) = .found v l'.buffer
  /-- A call that finds no frame takes nothing. -/
  unfound : r.isOk = false → l'.buffer = l.buffer ++ chunk ∧
    Resp.parse l'.buffer = match r.frameFault? with | none => .incomplete | some e => .invalid e

theorem frame_taking {fuel now t : Nat} {deadline : Option Nat} {l l' : Link} {s s' : Logged σ}
    {r : Outcome Resp.Value}
    (h : frame B.logged fuel link l now deadline s = (r, l', t, s')) :
    ∃ chunk, Hears link chunk s s' ∧ Taking chunk l r l' := by
  fun_induction frame B.logged fuel link l now deadline s
  case case1 hp =>
    cases h
    exact ⟨[], .silence .., by simp [hp], by simp [Outcome.isOk]⟩
  case case2 hp =>
    cases h
    exact ⟨[], .silence .., by simp, by simp [Outcome.frameFault?, hp]⟩
  case case3 hp =>
    cases h
    exact ⟨[], .silence .., by simp, by simp [Outcome.frameFault?, hp]⟩
  case case4 hr ih =>
    obtain ⟨chunk, hhears, htaking⟩ := ih h
    refine ⟨_, (logged_read hr).trans hhears, fun v hv => ?_, fun hn => ?_⟩
    · rw [← List.append_assoc]
      exact htaking.found v hv
    · rw [← List.append_assoc]
      exact htaking.unfound hn
  all_goals
    rename_i hr
    cases h
    have hp : Resp.parse l'.buffer = .incomplete := ‹_›
    exact ⟨[], logged_read hr, by simp, by simp [Outcome.frameFault?, gone, hp]⟩

/-- What calls for frames make of a link on which `chunk` arrives meanwhile. -/
structure Takings (chunk : Bytes) (l : Link) (rs : List (Outcome Resp.Value)) (l' : Link) : Prop where
  /-- The values that the calls answer and what is left are those of the whole stream. -/
  same : Resp.drain (l.buffer ++ chunk) =
    { Resp.drain l'.buffer with
      values := rs.filterMap (·.value?) ++ (Resp.drain l'.buffer).values }
  fault : ∀ r ∈ rs, ∀ e, r.frameFault? = some e → (Resp.drain l'.buffer).fault = some e
  /-- When the last call finds no frame there is none left, and what is left is still there. -/
  done : ∀ r, rs.getLast? = some r → r.isOk = false →
    Resp.drain l'.buffer = ⟨[], r.frameFault?, l'.buffer⟩

theorem Taking.drain {chunk : Bytes} {l l' : Link} {r : Outcome Resp.Value} (h : Taking chunk l r l')
    (hn : r.isOk = false) : Resp.drain l'.buffer = ⟨[], r.frameFault?, l'.buffer⟩ := by
  obtain ⟨-, hp⟩ := h.unfound hn
  cases hf : r.frameFault? with
  | none => exact Resp.drain_of_incomplete (by rw [hp, hf])
  | some e => exact Resp.drain_of_invalid (by rw [hp, hf])

theorem frames_takings {calls : List (Nat × Nat × Option Nat)} {l l' : Link} {s s' : Logged σ}
    {rs : List (Outcome Resp.Value)} (h : frames B.logged link calls l s = (rs, l', s')) :
    ∃ chunk, Hears link chunk s s' ∧ Takings chunk l rs l' := by
  induction calls generalizing l s rs with
  | nil =>
    cases h
    exact ⟨[], .silence .., by simp, by simp, by simp⟩
  | cons call calls ih =>
    obtain ⟨fuel, now, deadline⟩ := call
    rcases hf : frame B.logged fuel link l now deadline s with ⟨r, l₁, t, s₁⟩
    rcases hfs : frames B.logged link calls l₁ s₁ with ⟨rs₁, l₂, s₂⟩
    simp only [frames, hf, hfs] at h
    cases h
    obtain ⟨chunk, hhears, htaking⟩ := frame_taking hf
    obtain ⟨later, hlater, htakings⟩ := ih hfs
    refine ⟨chunk ++ later, hhears.trans hlater, ?_, ?_, ?_⟩
    · rw [← List.append_assoc]
      cases hr : r.isOk with
      | true =>
        cases r with
        | ok v =>
          have hfound := Resp.parse_append_found (htaking.found v rfl) later
          rw [Resp.drain_of_found hfound, htakings.same]
          rfl
        | _ => cases hr
      | false =>
        have hnone : r.value? = none := by cases r <;> first | rfl | cases hr
        rw [← (htaking.unfound hr).1, htakings.same, List.filterMap_cons, hnone]
    · intro q hq e he
      rcases List.mem_cons.1 hq with rfl | hq
      · -- What was no frame remains none, whatever arrives after it.
        have hn : q.isOk = false := by cases q <;> first | rfl | cases he
        have hsame := congrArg Resp.Drained.fault htakings.same
        rw [Resp.drain_append, htaking.drain hn, he] at hsame
        exact hsame.symm
      · exact htakings.fault q hq e he
    · intro q hq hn
      cases rs₁ with
      | nil =>
        cases hq
        cases calls with
        | nil =>
          cases hfs
          exact htaking.drain hn
        | cons call calls => simp [frames] at hfs
      | cons r₁ rs₁ => exact htakings.done q (by simpa using hq) hn

/-- What it means that pieces of a stream are read as the whole stream is. -/
structure ReadAlike (B : ByteNetwork σ) (pieces : List Bytes) : Prop where
  /-- Taking all frames that there are after each piece gives the same values, the same first fault and
  the same bytes left as taking them from the whole. -/
  whole : Resp.feedAll pieces = Resp.drain pieces.flatten
  /-- The values are those of successive frames at the front, and all that follows these is left. -/
  splits : (Resp.drain pieces.flatten).Splits pieces.flatten
  /-- One value takes one frame. -/
  single : ∀ b v rest, Resp.parse b = .found v rest → ∃ frame, b = frame ++ rest ∧ Resp.IsFrame frame v
  /-- What is no frame is none for the same reason, whatever comes after it. -/
  lasting : ∀ b e more, Resp.parse b = .invalid e → Resp.parse (b ++ more) = .invalid e
  /-- A call for a frame on a link takes what it answers, and nothing where it finds none. -/
  call : ∀ link fuel now deadline l s r l' t s',
    frame B.logged fuel link l now deadline s = (r, l', t, s') →
    ∃ chunk, Hears link chunk s s' ∧ Taking chunk l r l'
  /-- Calls for frames on a link answer what there is in all that arrived on it, in whatever pieces it
  arrived and however often a call was given up between them. -/
  calls : ∀ link calls l s rs l' s', frames B.logged link calls l s = (rs, l', s') →
    ∃ chunk, Hears link chunk s s' ∧ Takings chunk l rs l'

/-- **Frames do not depend on how bytes arrive.** -/
theorem read_alike (B : ByteNetwork σ) (pieces : List Bytes) : ReadAlike B pieces where
  whole := Resp.feedAll_eq_drain pieces
  splits := Resp.drain_splits _
  single _ _ _ h := Resp.exists_frame h
  lasting b e more h := by
    rw [Resp.parse_append (by simp [h]), h]
    rfl
  call _ _ _ _ _ _ _ _ _ _ h := frame_taking h
  calls _ _ _ _ _ _ _ h := frames_takings h

end Stream

end ShardFleet
