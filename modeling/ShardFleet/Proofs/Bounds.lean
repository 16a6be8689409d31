import ShardFleet.Proofs.Grammar
import ShardFleet.Resp.Offsets

/-!
# Bounds of reading

A decoder that reads by offsets says what a reader says, and no trap ends it: what it cuts out lies in
the buffer, and no offset outgrows a word. Every frame that it looks for, but for the last, takes three
bytes at least, so it looks for no more frames than the buffer has room for, whatever the headers
announce.
-/

namespace ShardFleet.Resp

variable {α β : Type}

/-! ### Runs without a trap -/

/-- `m` ends without a trap, with a result that satisfies `Q` together with the number of frames that it
looked for. -/
def Runs (m : Decoding α) (Q : Nat → α → Prop) : Prop :=
  ∀ k, ∃ looks a, m k = .ok (a, k + looks) ∧ Q looks a

theorem Runs.mono {m : Decoding α} {Q Q' : Nat → α → Prop} (h : Runs m Q)
    (hQ : ∀ looks a, Q looks a → Q' looks a) : Runs m Q' := by
  intro k
  obtain ⟨looks, a, hm, ha⟩ := h k
  exact ⟨looks, a, hm, hQ looks a ha⟩

theorem runs_pure {a : α} {Q : Nat → α → Prop} (hQ : Q 0 a) : Runs (pure a) Q :=
  fun _ => ⟨0, a, rfl, hQ⟩

theorem runs_bind {m : Decoding α} {next : α → Decoding β} {Q : Nat → β → Prop}
    (h : Runs m fun looks a => Runs (next a) fun more c => Q (looks + more) c) :
    Runs (m >>= next) Q := by
  intro k
  obtain ⟨looks, a, hm, ha⟩ := h k
  obtain ⟨more, c, hnext, hc⟩ := ha (k + looks)
  refine ⟨looks + more, c, ?_, hc⟩
  show (m k >>= fun p => next p.1 p.2) = _
  rw [hm, ← Nat.add_assoc]
  exact hnext

theorem runs_look {Q : Nat → Unit → Prop} (hQ : Q 1 ()) : Runs look Q := fun _ => ⟨1, (), rfl, hQ⟩

theorem runs_advance {pos n : Nat} {Q : Nat → Nat → Prop} (h : pos + n < 2 ^ 64)
    (hQ : Q 0 (pos + n)) : Runs (advance pos n) Q := by
  have hsize : UInt64.size = 2 ^ 64 := by decide
  rw [advance, hsize, if_pos h]
  exact runs_pure hQ

theorem runs_slice {b : Bytes} {first stop : Nat} {Q : Nat → Bytes → Prop} (h : first ≤ stop)
    (hstop : stop ≤ b.length) (hQ : Q 0 ((b.drop first).take (stop - first))) :
    Runs (slice b first stop) Q := by
  rw [slice, if_pos ⟨h, hstop⟩]
  exact runs_pure hQ

theorem runs_splitTo {b : Buffer} {n : Nat} {Q : Nat → Buffer → Prop} (h : n ≤ b.size)
    (hQ : Q 0 (b.drop n)) : Runs (b.splitTo n) Q := by
  rw [Buffer.splitTo, if_pos h]
  exact runs_pure hQ

/-! ### Lines -/

theorem lineEnd?_cons_cons (x y : UInt8) (b : Bytes) :
    lineEnd? (x :: y :: b) =
      if x = 0x0D ∧ y = 0x0A then some 0 else (lineEnd? (y :: b)).map (· + 1) := by
  simp [lineEnd?, List.findIdx?_cons]

theorem readLine_eq_map (b : Bytes) :
    readLine b = (lineEnd? b).map fun i => (b.take i, b.drop (i + 2)) := by
  fun_induction readLine b with
  | case1 x y rest hend => simp [lineEnd?_cons_cons, hend]
  | case2 x y rest hend ih =>
    rw [lineEnd?_cons_cons, if_neg hend, ih, Option.map_map, Option.map_map]
    rfl
  | case3 b hb =>
    obtain _ | ⟨x, _ | ⟨y, b⟩⟩ := b
    · rfl
    · rfl
    · exact absurd rfl (hb x y b)

theorem lineEnd?_le {b : Bytes} {i : Nat} (h : lineEnd? b = some i) : i + 2 ≤ b.length := by
  have hlt := (List.findIdx?_eq_some_iff_findIdx_eq.1 h).1
  rw [List.length_zip, List.length_tail] at hlt
  omega

theorem Buffer.size_lt (b : Buffer) : b.size < 2 ^ 63 := Nat.lt_of_le_of_lt b.fits (by decide)

theorem Buffer.length_drop (b : Buffer) (n : Nat) : (b.bytes.drop n).length = b.size - n :=
  List.length_drop

theorem runs_lineAt {b : Buffer} {pos : Nat} {Q : Nat → Option (Bytes × Nat) → Prop}
    (hpos : pos ≤ b.size) (hnone : readLine (b.bytes.drop pos) = none → Q 0 none)
    (hsome : ∀ line next, readLine (b.bytes.drop pos) = some (line, b.bytes.drop next) →
      next = pos + line.length + 2 → next ≤ b.size → Q 0 (some (line, next))) :
    Runs (lineAt b pos) Q := by
  have hsize := b.size_lt
  have hlength := b.length_drop pos
  rw [readLine_eq_map] at hnone hsome
  rw [lineAt, if_neg (Nat.not_lt.2 hpos)]
  cases hend : lineEnd? (b.bytes.drop pos) with
  | none =>
    simp only [hend]
    exact runs_pure (hnone (by rw [hend]; rfl))
  | some i =>
    have hi := lineEnd?_le hend
    simp only [hend]
    refine runs_bind (runs_slice (Nat.zero_le i) (by omega) ?_)
    refine runs_bind (runs_advance (by omega) (runs_bind (runs_advance (by omega) (runs_pure ?_))))
    have hline : ((b.bytes.drop pos).take i).length = i := List.length_take_of_le (by omega)
    refine hsome _ _ ?_ (by simp [hline]) (by omega)
    simp [hend, List.drop_drop, Nat.add_assoc]

/-! ### What a decoder finds -/

/-- Whether a decoder that began at `pos`, and looked for so many frames, says what a reader says. Three
bytes at least went to every frame, but for one that was not found. -/
inductive Reads (b : Buffer) (pos looks : Nat) : Located α → Scan α → Prop where
  | incomplete (room : pos + 3 * looks ≤ b.size + 3) : Reads b pos looks .incomplete .incomplete
  | invalid (e : Fault) (room : pos + 3 * looks ≤ b.size + 3) :
      Reads b pos looks (.invalid e) (.invalid e)
  | found (v : α) {stop : Nat} (advances : pos + 3 * looks ≤ stop) (inside : stop ≤ b.size) :
      Reads b pos looks (.found v stop) (.found v (b.bytes.drop stop))

namespace Reads

variable {b : Buffer} {pos next looks : Nat} {l : Located α} {s : Scan α}

theorem map (h : Reads b pos looks l s) (f : α → β) : Reads b pos looks (l.map f) (s.map f) := by
  cases h with
  | incomplete room => exact .incomplete room
  | invalid e room => exact .invalid e room
  | found v advances inside => exact .found (f v) advances inside

theorem ofExcept (hnext : next ≤ b.size) (r : Except Fault α) :
    Reads b next 0 (.ofExcept next r) (.ofExcept (b.bytes.drop next) r) := by
  cases r with
  | ok v => exact .found v (by omega) hnext
  | error e => exact .invalid e (by omega)

/-- A decoder that went on from `next` began at `pos`, where it has looked for `before` frames between. -/
theorem after {before : Nat} (h : Reads b next looks l s) (hnext : pos + 3 * before ≤ next) :
    Reads b pos (before + looks) l s := by
  cases h with
  | incomplete room => exact .incomplete (by omega)
  | invalid e room => exact .invalid e (by omega)
  | found v advances inside => exact .found v (by omega) inside

theorem scan_eq (h : Reads b pos looks l s) : l.scan b = s := by
  cases h <;> rfl

theorem room (h : Reads b pos looks l s) : pos + 3 * looks ≤ b.size + 3 := by
  cases h <;> omega

theorem taken_le (h : Reads b pos looks l s) : l.taken ≤ b.size := by
  cases h with
  | found v advances inside => exact inside
  | _ => exact Nat.zero_le _

theorem stop_le {v : α} {stop : Nat} (h : Reads b pos looks (.found v stop) s) :
    pos + 3 * looks ≤ stop ∧ stop ≤ b.size := by
  cases h with
  | found v advances inside => exact ⟨advances, inside⟩

end Reads

theorem runs_bulkAt {b : Buffer} {n next : Nat} (hn : n ≤ maxLength) (hnext : next ≤ b.size) :
    Runs (bulkAt b n next) fun looks l =>
      Reads b next looks l ((readPayload n (b.bytes.drop next)).map .bulk) := by
  have hsize := b.size_lt
  have hlength := b.length_drop next
  have hsum : next + n + 2 < 2 ^ 64 := by
    have : maxLength < 2 ^ 30 := by decide
    omega
  refine runs_bind (runs_advance (by omega) (runs_bind (runs_advance hsum ?_)))
  unfold readPayload
  by_cases hshort : b.size < next + n + 2
  · rw [if_pos hshort, if_pos (by omega)]
    exact runs_pure (.incomplete (by omega))
  · rw [if_neg hshort, if_neg (by omega)]
    have hinside : next + n + 2 ≤ b.bytes.length := Nat.not_lt.1 hshort
    have htail : (b.bytes.drop (next + n)).take (next + n + 2 - (next + n)) =
        ((b.bytes.drop next).drop n).take 2 := by
      rw [List.drop_drop, Nat.add_sub_cancel_left]
    refine runs_bind (runs_slice (by omega) hinside ?_)
    rw [htail]
    split
    · refine runs_bind (runs_slice (by omega) (by omega) (runs_pure ?_))
      rw [Nat.add_sub_cancel_left, List.drop_drop, ← Nat.add_assoc]
      exact .found _ (by omega) hinside
    · exact runs_pure (.invalid _ (by omega))

/-- Whether `item` decodes the frames that begin at `first` or behind it as they are read. -/
def Decodes (b : Buffer) (first : Nat) (item : Nat → Decoding (Located Value)) : Prop :=
  ∀ pos, first ≤ pos → pos ≤ b.size → Runs (item pos) fun looks l =>
    1 ≤ looks ∧ Reads b pos looks l (parse (b.bytes.drop pos))

/-- The loop over the items of an array takes a turn for each of those that are there, and one more at
most. -/
theorem runs_itemsAt {b : Buffer} {item : Nat → Decoding (Located Value)} {first : Nat}
    (h : Decodes b first item) (count : Nat) {pos : Nat} (hfirst : first ≤ pos) (hpos : pos ≤ b.size) :
    Runs (itemsAt item count pos) fun looks r =>
      Reads b pos looks r.2 (readItems parse count (b.bytes.drop pos)) ∧ r.1 ≤ count ∧
        r.1 ≤ (drain (b.bytes.drop pos)).values.length + 1 := by
  induction count generalizing pos with
  | zero => exact runs_pure ⟨.found [] (by omega) hpos, Nat.le_refl _, Nat.zero_le _⟩
  | succ n ih =>
    refine runs_bind ((h pos hfirst hpos).mono ?_)
    rintro looks l ⟨-, hreads⟩
    rw [readItems]
    generalize hs : parse (b.bytes.drop pos) = s at hreads
    cases hreads with
    | incomplete room => exact runs_pure ⟨.incomplete room, by simp, by simp⟩
    | invalid e room => exact runs_pure ⟨.invalid e room, by simp, by simp⟩
    | @found v stop advances inside =>
      refine runs_bind ((ih (by omega) inside).mono ?_)
      rintro more r ⟨hothers, hcount, hthere⟩
      refine runs_pure ⟨(hothers.map _).after advances, by simpa using hcount, ?_⟩
      rw [drain_of_found hs]
      simpa [Drained.push] using hthere

theorem ne_nil_of_readLength {fault : Int64 → Fault} {body : Bytes} {length : Option Nat}
    (h : readLength fault body = .ok length) : body ≠ [] := by
  rintro rfl
  cases h

/-- What follows a header is decoded as it is read, if the items of an array are. -/
theorem runs_decodeAfter {b : Buffer} {item : Nat → Decoding (Located Value)} {lead : UInt8}
    {body : Bytes} {next : Nat} (hnext : next ≤ b.size)
    (h : body ≠ [] → Decodes b next item) :
    Runs (decodeAfter item b lead body next) fun looks l =>
      Reads b next looks l
        (readAfter (b.bytes.drop next).length lead body (b.bytes.drop next)) := by
  unfold decodeAfter readAfter
  split_ifs
  · exact runs_pure (.ofExcept hnext _)
  · exact runs_pure (.ofExcept hnext _)
  · exact runs_pure (.ofExcept hnext _)
  · cases hlength : readLength .bulkLength body with
    | error e => exact runs_pure (.invalid e (by omega))
    | ok length =>
      cases length with
      | none => exact runs_pure (.found _ (by omega) hnext)
      | some n => exact runs_bulkAt (readLength_eq_some_iff.1 hlength).2 hnext
  · cases hlength : readLength .arrayLength body with
    | error e => exact runs_pure (.invalid e (by omega))
    | ok length =>
      cases length with
      | none => exact runs_pure (.found _ (by omega) hnext)
      | some n =>
        have hitems := runs_itemsAt (h (ne_nil_of_readLength hlength)) n (Nat.le_refl _) hnext
        refine runs_bind (hitems.mono fun looks r hr => runs_pure ?_)
        simp only [readItems_eq_parse (Nat.le_refl _)]
        exact hr.1.map _
  · exact runs_pure (.invalid _ (by omega))

/-- **A frame is decoded as it is read**, where its arrays are followed deep enough: each array around a
frame takes four bytes at least. -/
theorem decodes_decode {b : Buffer} {depth first : Nat} (hdepth : b.size < first + 4 * depth) :
    Decodes b first (decode b depth) := by
  induction depth generalizing first with
  | zero =>
    intro pos hfirst hpos
    omega
  | succ depth ih =>
    intro pos hfirst hpos
    refine runs_bind (runs_look (runs_bind (runs_lineAt hpos ?_ ?_)))
    · intro hl
      rw [parse_of_no_line hl]
      exact runs_pure ⟨Nat.le_refl _, .incomplete (by omega)⟩
    · intro line next hl hline hnext
      cases line with
      | nil =>
        rw [parse_of_empty_line hl]
        exact runs_pure ⟨Nat.le_refl _, .invalid _ (by omega)⟩
      | cons lead body =>
        rw [List.length_cons] at hline
        rw [parse_of_readLine hl]
        have hbody : ((lead :: body).drop 1).take ((lead :: body).length - 1) = body := by simp
        refine runs_bind (runs_slice (by simp) (Nat.le_refl _) ?_)
        rw [hbody]
        have hitems (hne : body ≠ []) : Decodes b next (decode b depth) := by
          -- The header of an array has a type byte, a digit and the end of its line.
          have hdigit := List.length_pos_iff.2 hne
          exact ih (by omega)
        refine (runs_decodeAfter hnext hitems).mono fun looks l hreads => ?_
        have hheader : pos + 3 * 1 ≤ next := by omega
        simp only [Nat.zero_add]
        exact ⟨by omega, hreads.after hheader⟩

/-! ### Taking frames from a buffer -/

theorem runs_takeFrame {b : Buffer} {depth : Nat} (hdepth : b.size < 4 * depth) :
    Runs (takeFrame depth b) fun looks r =>
      1 ≤ looks ∧ Reads b 0 looks r.1 (parse b.bytes) ∧ r.2 = b.drop r.1.taken := by
  have hdecodes : Decodes b 0 (decode b depth) := decodes_decode (by omega)
  refine runs_bind ((hdecodes 0 (Nat.le_refl _) (Nat.zero_le _)).mono ?_)
  rintro looks l ⟨hlooks, hreads⟩
  cases l with
  | incomplete => exact runs_pure ⟨hlooks, hreads, rfl⟩
  | invalid e => exact runs_pure ⟨hlooks, hreads, rfl⟩
  | found v stop =>
    exact runs_bind (runs_splitTo hreads.stop_le.2 (runs_pure ⟨hlooks, hreads, rfl⟩))

theorem runs_takeAll {b : Buffer} {depth turns : Nat} (hdepth : b.size < 4 * depth)
    (hturns : b.size < 3 * turns) :
    Runs (takeAll depth turns b) fun looks d => 3 * looks ≤ b.size + 3 ∧ d = drain b.bytes := by
  induction turns generalizing b with
  | zero => omega
  | succ turns ih =>
    refine runs_bind ((runs_takeFrame hdepth).mono ?_)
    rintro looks ⟨l, rest⟩ ⟨hlooks, hreads, hrest⟩
    obtain rfl : rest = b.drop l.taken := hrest
    have hroom := hreads.room
    generalize hs : parse b.bytes = s at hreads
    cases hreads with
    | incomplete => exact runs_pure ⟨by omega, (drain_of_incomplete hs).symm⟩
    | invalid e => exact runs_pure ⟨by omega, (drain_of_invalid hs).symm⟩
    | @found v stop advances inside =>
      -- The frame took three bytes or more, so a turn less will do for the bytes after it.
      have hleft : (b.drop (Located.found v stop).taken).size = b.size - stop := b.length_drop stop
      refine runs_bind ((ih (by omega) (by omega)).mono ?_)
      rintro more d ⟨hmore, rfl⟩
      exact runs_pure ⟨by omega, (drain_of_found hs).symm⟩

/-- What it means that the reading of a buffer keeps to its bounds. -/
structure Bounded (b : Buffer) : Prop where
  /-- At every offset in the buffer the decoder ends without a trap, and says what a reader of the bytes
  there says. What it finds ends three bytes or more behind the offset, and in the buffer. It looks for one
  frame in every three bytes at most, and for one more. -/
  frame : ∀ depth pos, pos ≤ b.size → b.size < pos + 4 * depth →
    Runs (decode b depth pos) fun looks l => l.scan b = parse (b.bytes.drop pos) ∧
      (∀ v stop, l = .found v stop → pos + 3 ≤ stop ∧ stop ≤ b.size) ∧ pos + 3 * looks ≤ b.size + 3
  /-- However many items an array announces, the loop over them takes a turn for each complete one that
  the buffer holds at most, and one more. -/
  items : ∀ depth count pos, pos ≤ b.size → b.size < pos + 4 * depth →
    Runs (itemsAt (decode b depth) count pos) fun _ r =>
      r.1 ≤ count ∧ r.1 ≤ (drain (b.bytes.drop pos)).values.length + 1
  /-- One frame is taken as it is read. Where none is found nothing is taken. -/
  one : ∀ depth, b.size < 4 * depth → Runs (takeFrame depth b) fun _ r =>
    r.1.scan b = parse b.bytes ∧ r.1.taken ≤ b.size ∧ r.2.bytes = b.bytes.drop r.1.taken
  /-- All frames are taken as they are read, in a turn for every three bytes at most, and one more. -/
  all : ∀ depth turns, b.size < 4 * depth → b.size < 3 * turns →
    Runs (takeAll depth turns b) fun looks d => d = drain b.bytes ∧ 3 * looks ≤ b.size + 3

/-- **Reading keeps to its bounds.** Whatever bytes a buffer holds, and whatever they announce, no slice lies
outside of it, no offset needs more than sixty-four bits, and every run ends. -/
theorem reading_bounded (b : Buffer) : Bounded b where
  frame depth pos hpos hdepth := by
    refine (decodes_decode hdepth pos (Nat.le_refl _) hpos).mono ?_
    rintro looks l ⟨hlooks, hreads⟩
    refine ⟨hreads.scan_eq, ?_, hreads.room⟩
    rintro v stop rfl
    obtain ⟨hadvances, hinside⟩ := hreads.stop_le
    exact ⟨by omega, hinside⟩
  items depth count pos hpos hdepth := by
    have hitems := runs_itemsAt (decodes_decode hdepth) count (Nat.le_refl pos) hpos
    exact hitems.mono fun _ _ h => h.2
  one depth hdepth := by
    refine (runs_takeFrame hdepth).mono ?_
    rintro looks ⟨l, rest⟩ ⟨-, hreads, hrest⟩
    exact ⟨hreads.scan_eq, hreads.taken_le, congrArg Buffer.bytes hrest⟩
  all depth turns hdepth hturns := by
    refine (runs_takeAll hdepth hturns).mono ?_
    rintro looks d ⟨hroom, hall⟩
    exact ⟨hall, hroom⟩

/-- An array that announces as many items as it may, of which two are there. -/
example :
    let b : Buffer := ⟨utf8 "*536870912\r\n:1\r\n*1\r\n+a\r\n$9\r\nend", by decide +kernel⟩
    (itemsAt (decode b 8) 536870912 12).run 0 = .ok ((3, .incomplete), 4) ∧
      (decode b 9 0).run 0 = .ok (.incomplete, 5) := ⟨rfl, rfl⟩

end ShardFleet.Resp
