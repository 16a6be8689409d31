import ShardFleet.Proofs.Pieces
import ShardFleet.Proofs.Numerals
import ShardFleet.Resp.Writer

/-!
# The grammar of frames

Which bytes are a frame of a value, stated without a reader: a reader accepts exactly these. So the
grammar gives no bytes two meanings, and no frame is the beginning of another.
-/

namespace ShardFleet.Resp

open Scan

/-! ### The grammar -/

/-- Bytes in which no line ends. -/
def OneLine (b : Bytes) : Prop := ¬ crlf <:+: b

mutual

/-- Whether some bytes are a frame of a value. -/
inductive Derives : Value → Bytes → Prop where
  | simple {s : String} (h : OneLine (utf8 s)) : Derives (.simple s) (line 0x2B (utf8 s))
  | error {s : String} (h : OneLine (utf8 s)) : Derives (.error s) (line 0x2D (utf8 s))
  | integer {n : Int64} {digits : Bytes} (h : Numeral.Spells digits n.toInt) :
      Derives (.integer n) (line 0x3A digits)
  | bulk {payload digits : Bytes} (h : Numeral.Spells digits payload.length)
      (le : payload.length ≤ maxLength) :
      Derives (.bulk payload) (line 0x24 digits ++ payload ++ crlf)
  | nullBulk {digits : Bytes} (h : Numeral.Spells digits (-1)) :
      Derives .nullBulk (line 0x24 digits)
  | array {items : List Value} {digits frames : Bytes} (h : Numeral.Spells digits items.length)
      (le : items.length ≤ maxLength) (all : DerivesAll items frames) :
      Derives (.array items) (line 0x2A digits ++ frames)
  | nullArray {digits : Bytes} (h : Numeral.Spells digits (-1)) :
      Derives .nullArray (line 0x2A digits)

/-- Whether some bytes are frames of values, one after the other. -/
inductive DerivesAll : List Value → Bytes → Prop where
  | nil : DerivesAll [] []
  | cons {v : Value} {items : List Value} {frame frames : Bytes} (first : Derives v frame)
      (others : DerivesAll items frames) : DerivesAll (v :: items) (frame ++ frames)

end

/-! ### Lines -/

theorem oneLine_nil : OneLine [] := by
  intro h
  exact absurd (List.eq_nil_of_infix_nil h) (by decide)

theorem oneLine_cons {x : UInt8} {b : Bytes} :
    OneLine (x :: b) ↔ ¬ (x = 0x0D ∧ b.head? = some 0x0A) ∧ OneLine b := by
  have hend : crlf <+: x :: b ↔ x = 0x0D ∧ b.head? = some 0x0A := by
    cases b <;> simp [crlf, eq_comm]
  rw [OneLine, List.infix_cons_iff, hend, not_or]
  rfl

theorem oneLine_of_spells {digits : Bytes} {z : Int} (h : Numeral.Spells digits z) :
    OneLine digits := by
  rintro ⟨front, back, rfl⟩
  have hmem : (0x0D : UInt8) ∈ front ++ crlf ++ back := by simp [crlf]
  have := h.mem _ hmem
  exact absurd this (by decide)

theorem oneLine_of_readLine {b l rest : Bytes} (h : readLine b = some (l, rest)) :
    OneLine l ∧ b = l ++ crlf ++ rest := by
  fun_induction readLine b generalizing l with
  | case1 x y tail hend =>
    cases h
    obtain ⟨rfl, rfl⟩ := hend
    exact ⟨oneLine_nil, rfl⟩
  | case2 x y tail hend ih =>
    obtain ⟨⟨l', r⟩, hl, hlr⟩ := Option.map_eq_some_iff.1 h
    cases hlr
    obtain ⟨hone, hsplit⟩ := ih hl
    refine ⟨oneLine_cons.2 ⟨?_, hone⟩, by rw [hsplit]; rfl⟩
    rintro ⟨rfl, hhead⟩
    -- The byte after `x` is the next one of the line, or the first of the line's end.
    cases l' with
    | nil => cases hsplit; cases hhead
    | cons z l' => cases hsplit; exact hend ⟨rfl, Option.some.inj hhead⟩
  | case3 => cases h

theorem readLine_of_oneLine {l : Bytes} (h : OneLine l) (rest : Bytes) :
    readLine (l ++ crlf ++ rest) = some (l, rest) := by
  induction l with
  | nil => rfl
  | cons x l ih =>
    obtain ⟨hend, hl⟩ := oneLine_cons.1 h
    obtain ⟨y, tail, hsplit⟩ : ∃ y tail, l ++ crlf ++ rest = y :: tail := by
      cases l <;> exact ⟨_, _, rfl⟩
    have hnot : ¬ (x = 0x0D ∧ y = 0x0A) := by
      rintro ⟨rfl, rfl⟩
      cases l with
      | nil => cases hsplit
      | cons z l => cases hsplit; exact hend ⟨rfl, rfl⟩
    have hread := ih hl
    rw [List.cons_append, List.cons_append, hsplit]
    rw [hsplit] at hread
    rw [readLine, if_neg hnot, hread]
    rfl

/-- A line runs to its first end. -/
theorem readLine_eq_some_iff {b l rest : Bytes} :
    readLine b = some (l, rest) ↔ OneLine l ∧ b = l ++ crlf ++ rest :=
  ⟨oneLine_of_readLine, fun ⟨h, hsplit⟩ => hsplit ▸ readLine_of_oneLine h rest⟩

theorem readLine_line {lead : UInt8} {body : Bytes} (hlead : lead ≠ 0x0D) (h : OneLine body)
    (rest : Bytes) : readLine (line lead body ++ rest) = some (lead :: body, rest) := by
  rw [readLine_eq_some_iff]
  exact ⟨oneLine_cons.2 ⟨fun hx => hlead hx.1, h⟩, rfl⟩

/-! ### Readers of parts -/

theorem ofExcept_eq_found_iff {α : Type} {r : Except Fault α} {b rest : Bytes} {v : α} :
    Scan.ofExcept b r = .found v rest ↔ r = .ok v ∧ b = rest := by
  cases r <;> simp [Scan.ofExcept]

theorem map_eq_found_iff {α β : Type} {r : Scan α} {f : α → β} {w : β} {rest : Bytes} :
    r.map f = .found w rest ↔ ∃ v, r = .found v rest ∧ f v = w := by
  cases r <;> simp [Scan.map, and_comm]

theorem readInteger_eq_ok_iff {body : Bytes} {v : Value} :
    ((Numeral.read body).mapError Fault.notInteger).map Value.integer = .ok v ↔
      ∃ n : Int64, Numeral.Spells body n.toInt ∧ .integer n = v := by
  simp only [← Numeral.read_eq_ok_iff]
  cases Numeral.read body <;> simp [Except.mapError, Except.map]

theorem readText_eq_ok_iff {make : String → Value} {body : Bytes} {v : Value} :
    readText make body = .ok v ↔ ∃ s, body = utf8 s ∧ v = make s := by
  unfold readText
  cases h : Utf8.decode body with
  | error f =>
    have hne : ∀ s, body ≠ utf8 s := fun s hs => by
      rw [Utf8.decode_eq_ok_iff.2 hs] at h
      cases h
    simp [hne]
  | ok s =>
    rw [Utf8.decode_eq_ok_iff] at h
    constructor
    · intro hv
      exact ⟨s, h, (Except.ok.inj hv).symm⟩
    · rintro ⟨t, ht, rfl⟩
      rw [utf8_injective (h.symm.trans ht)]

theorem readLength_eq_ok_iff {fault : Int64 → Fault} {digits : Bytes} {length : Option Nat} :
    readLength fault digits = .ok length ↔ ∃ n : Int64, Numeral.Spells digits n.toInt ∧
      (n.toInt = -1 ∧ length = none ∨
        (0 ≤ n.toInt ∧ n.toInt ≤ maxLength) ∧ length = some n.toInt.toNat) := by
  unfold readLength
  cases h : Numeral.read digits with
  | error e =>
    have hnot : ∀ n : Int64, ¬ Numeral.Spells digits n.toInt := fun n hn => by
      rw [← Numeral.read_eq_ok_iff, h] at hn
      cases hn
    simp [hnot]
  | ok n =>
    have hn : ∀ m : Int64, Numeral.Spells digits m.toInt ↔ n = m := fun m => by
      rw [← Numeral.read_eq_ok_iff, h, Except.ok.injEq]
    simp only [hn, exists_eq_left']
    split_ifs <;> grind

theorem readLength_eq_none_iff {fault : Int64 → Fault} {digits : Bytes} :
    readLength fault digits = .ok none ↔ Numeral.Spells digits (-1) := by
  rw [readLength_eq_ok_iff]
  constructor
  · rintro ⟨n, hn, ⟨hone, -⟩ | ⟨-, hsome⟩⟩
    · rwa [hone] at hn
    · cases hsome
  · intro h
    exact ⟨-1, h, .inl ⟨rfl, rfl⟩⟩

theorem readLength_eq_some_iff {fault : Int64 → Fault} {digits : Bytes} {n : Nat} :
    readLength fault digits = .ok (some n) ↔ Numeral.Spells digits n ∧ n ≤ maxLength := by
  rw [readLength_eq_ok_iff]
  constructor
  · rintro ⟨m, hm, ⟨-, hnone⟩ | ⟨hrange, hsome⟩⟩
    · cases hnone
    · obtain rfl := Option.some.inj hsome
      rw [Int.toNat_of_nonneg hrange.1]
      exact ⟨hm, by omega⟩
  · rintro ⟨h, hle⟩
    have hfits : n < 2 ^ 63 := Nat.lt_of_le_of_lt hle (by decide)
    have hn : (Int64.ofNat n).toInt = n := Int64.toInt_ofNat_of_lt hfits
    exact ⟨Int64.ofNat n, by rwa [hn], .inr ⟨by omega, by rw [hn, Int.toNat_natCast]⟩⟩

/-- What a reader finds behind a length, where `absent` is the value that is not there. -/
theorem length_eq_found_iff {fault : Int64 → Fault} {digits b rest : Bytes} {absent v : Value}
    {next : Nat → Scan Value} :
    (match readLength fault digits with
      | .error e => Scan.invalid e
      | .ok none => Scan.found absent b
      | .ok (some n) => next n) = .found v rest ↔
      Numeral.Spells digits (-1) ∧ absent = v ∧ b = rest ∨
        ∃ n : Nat, (Numeral.Spells digits n ∧ n ≤ maxLength) ∧ next n = .found v rest := by
  have hnone : Numeral.Spells digits (-1) ↔ readLength fault digits = .ok none :=
    readLength_eq_none_iff.symm
  have hsome (n : Nat) : Numeral.Spells digits n ∧ n ≤ maxLength ↔
      readLength fault digits = .ok (some n) := readLength_eq_some_iff.symm
  simp only [hnone, hsome]
  rcases readLength fault digits with e | (_ | n) <;> simp

theorem readPayload_eq_found_iff {n : Nat} {b payload rest : Bytes} :
    readPayload n b = .found payload rest ↔ payload.length = n ∧ b = payload ++ crlf ++ rest := by
  unfold readPayload
  constructor
  · intro h
    split_ifs at h with hlen hend
    cases h
    refine ⟨List.length_take_of_le (by omega), ?_⟩
    calc b = b.take n ++ b.drop n := (List.take_append_drop n b).symm
      _ = b.take n ++ ((b.drop n).take 2 ++ (b.drop n).drop 2) := by
        rw [List.take_append_drop 2]
      _ = b.take n ++ crlf ++ b.drop (n + 2) := by
        rw [hend, List.drop_drop, List.append_assoc]
        rfl
  · rintro ⟨rfl, rfl⟩
    have hlen : ¬ (payload ++ crlf ++ rest).length < payload.length + 2 := by
      simp only [List.length_append, crlf, List.length_cons, List.length_nil]
      omega
    have hend : (crlf ++ rest).take 2 = [0x0D, 0x0A] := rfl
    rw [if_neg hlen, List.append_assoc, List.drop_left, if_pos hend, List.take_left,
      List.drop_length_add_append]
    rfl

/-! ### Reading follows the grammar -/

theorem readItems_eq_parse {depth : Nat} {b : Bytes} (h : b.length ≤ depth) (n : Nat) :
    readItems (readFrame depth) n b = readItems parse n b :=
  readItems_congr (fun _ hb => readFrame_eq_parse (Nat.le_trans hb h))
    (fun _ _ _ => readFrame_rest_le) n b (Nat.le_refl _)

theorem readAfter_eq {depth : Nat} {rest : Bytes} (h : rest.length ≤ depth) (lead : UInt8)
    (body : Bytes) : readAfter depth lead body rest = readAfter rest.length lead body rest := by
  simp only [readAfter, readItems_eq_parse h, readItems_eq_parse (Nat.le_refl _)]

theorem parse_of_no_line {b : Bytes} (h : readLine b = none) : parse b = .incomplete := by
  rw [← readFrame_eq_parse (Nat.le_succ b.length), readFrame_succ, h]

theorem parse_of_empty_line {b rest : Bytes} (h : readLine b = some ([], rest)) :
    parse b = .invalid .emptyHeader := by
  rw [← readFrame_eq_parse (Nat.le_succ b.length), readFrame_succ, h]

theorem parse_of_readLine {b body rest : Bytes} {lead : UInt8}
    (h : readLine b = some (lead :: body, rest)) :
    parse b = readAfter rest.length lead body rest := by
  have hsplit := (readLine_eq_some_iff.1 h).2
  have hlength : rest.length ≤ b.length := by
    rw [hsplit, List.length_append]
    omega
  rw [← readFrame_eq_parse (Nat.le_succ b.length), readFrame_succ, h, ← readAfter_eq hlength]

theorem parse_line {lead : UInt8} {body : Bytes} (hlead : lead ≠ 0x0D) (h : OneLine body)
    (rest : Bytes) :
    parse (line lead body ++ rest) = readAfter rest.length lead body rest :=
  parse_of_readLine (readLine_line hlead h rest)

/-- Items that are read follow the grammar, if each of them does. -/
theorem derivesAll_of_readItems {n : Nat} {b rest : Bytes} {items : List Value}
    (h : readItems parse n b = .found items rest)
    (ih : ∀ c v after, c.length ≤ b.length → parse c = .found v after →
      ∃ frame, Derives v frame ∧ c = frame ++ after) :
    ∃ frames, DerivesAll items frames ∧ b = frames ++ rest ∧ items.length = n := by
  induction n generalizing b items with
  | zero =>
    cases h
    exact ⟨[], .nil, rfl, rfl⟩
  | succ n ihn =>
    rw [readItems] at h
    cases hfirst : parse b with
    | found v after =>
      rw [hfirst] at h
      cases hothers : readItems parse n after with
      | found others left =>
        simp only [andThen, hothers, Scan.map, found.injEq] at h
        obtain ⟨rfl, rfl⟩ := h
        obtain ⟨frame, hframe, rfl⟩ := ih b v after (Nat.le_refl _) hfirst
        obtain ⟨frames, hframes, rfl, hlength⟩ := ihn hothers fun c w left hc =>
          ih c w left (by rw [List.length_append]; omega)
        exact ⟨frame ++ frames, .cons hframe hframes, (List.append_assoc ..).symm, by
          rw [List.length_cons, hlength]⟩
      | _ => simp [andThen, hothers, Scan.map] at h
    | _ => simp [hfirst, andThen] at h

theorem derives_of_readAfter {lead : UInt8} {body after rest : Bytes} {v : Value}
    (hone : OneLine body) (h : readAfter after.length lead body after = .found v rest)
    (ih : ∀ c v rest, c.length ≤ after.length → parse c = .found v rest →
      ∃ frame, Derives v frame ∧ c = frame ++ rest) :
    ∃ frame, Derives v frame ∧ line lead body ++ after = frame ++ rest := by
  unfold readAfter at h
  split_ifs at h with hsimple herror hinteger hbulk harray
  · subst hsimple
    obtain ⟨htext, rfl⟩ := ofExcept_eq_found_iff.1 h
    obtain ⟨s, rfl, rfl⟩ := readText_eq_ok_iff.1 htext
    exact ⟨_, .simple hone, rfl⟩
  · subst herror
    obtain ⟨htext, rfl⟩ := ofExcept_eq_found_iff.1 h
    obtain ⟨s, rfl, rfl⟩ := readText_eq_ok_iff.1 htext
    exact ⟨_, .error hone, rfl⟩
  · subst hinteger
    obtain ⟨hread, rfl⟩ := ofExcept_eq_found_iff.1 h
    obtain ⟨n, hn, rfl⟩ := readInteger_eq_ok_iff.1 hread
    exact ⟨_, .integer hn, rfl⟩
  · subst hbulk
    rcases length_eq_found_iff.1 h with ⟨hspells, rfl, rfl⟩ | ⟨n, ⟨hspells, hle⟩, hnext⟩
    · exact ⟨_, .nullBulk hspells, rfl⟩
    · obtain ⟨payload, hpayload, rfl⟩ := map_eq_found_iff.1 hnext
      obtain ⟨rfl, rfl⟩ := readPayload_eq_found_iff.1 hpayload
      exact ⟨_, .bulk hspells hle, by simp only [List.append_assoc]⟩
  · subst harray
    rcases length_eq_found_iff.1 h with ⟨hspells, rfl, rfl⟩ | ⟨n, ⟨hspells, hle⟩, hnext⟩
    · exact ⟨_, .nullArray hspells, rfl⟩
    · rw [readItems_eq_parse (Nat.le_refl _)] at hnext
      obtain ⟨items, hitems, rfl⟩ := map_eq_found_iff.1 hnext
      obtain ⟨frames, hframes, rfl, rfl⟩ := derivesAll_of_readItems hitems ih
      exact ⟨_, .array hspells hle hframes, (List.append_assoc ..).symm⟩

/-- What is read as a frame follows the grammar. -/
theorem derives_of_parse {b rest : Bytes} {v : Value} (h : parse b = .found v rest) :
    ∃ frame, Derives v frame ∧ b = frame ++ rest := by
  induction hn : b.length using Nat.strongRecOn generalizing b v rest with
  | ind n ih =>
    cases hl : readLine b with
    | none =>
      rw [parse_of_no_line hl] at h
      cases h
    | some p =>
      obtain ⟨l, after⟩ := p
      cases l with
      | nil =>
        rw [parse_of_empty_line hl] at h
        cases h
      | cons lead body =>
        rw [parse_of_readLine hl] at h
        obtain ⟨hone, rfl⟩ := readLine_eq_some_iff.1 hl
        refine derives_of_readAfter (oneLine_cons.1 hone).2 h fun c w left hc hp => ?_
        refine ih c.length ?_ hp rfl
        rw [← hn, List.length_append, List.length_append]
        simp
        omega

mutual

/-- What follows the grammar is read, whatever comes after it. -/
theorem parse_of_derives {v : Value} {frame : Bytes} (h : Derives v frame) (rest : Bytes) :
    parse (frame ++ rest) = .found v rest := by
  cases h with
  | simple h =>
    rw [parse_line (by decide) h]
    exact ofExcept_eq_found_iff.2 ⟨readText_eq_ok_iff.2 ⟨_, rfl, rfl⟩, rfl⟩
  | error h =>
    rw [parse_line (by decide) h]
    exact ofExcept_eq_found_iff.2 ⟨readText_eq_ok_iff.2 ⟨_, rfl, rfl⟩, rfl⟩
  | integer h =>
    rw [parse_line (by decide) (oneLine_of_spells h)]
    exact ofExcept_eq_found_iff.2 ⟨readInteger_eq_ok_iff.2 ⟨_, h, rfl⟩, rfl⟩
  | bulk h le =>
    rw [List.append_assoc, List.append_assoc, parse_line (by decide) (oneLine_of_spells h)]
    refine length_eq_found_iff.2 (.inr ⟨_, ⟨h, le⟩, map_eq_found_iff.2 ⟨_, ?_, rfl⟩⟩)
    exact readPayload_eq_found_iff.2 ⟨rfl, (List.append_assoc ..).symm⟩
  | nullBulk h =>
    rw [parse_line (by decide) (oneLine_of_spells h)]
    exact length_eq_found_iff.2 (.inl ⟨h, rfl, rfl⟩)
  | array h le all =>
    rw [List.append_assoc, parse_line (by decide) (oneLine_of_spells h)]
    refine length_eq_found_iff.2 (.inr ⟨_, ⟨h, le⟩, map_eq_found_iff.2 ⟨_, ?_, rfl⟩⟩)
    rw [readItems_eq_parse (Nat.le_refl _)]
    exact readItems_of_derivesAll all rest
  | nullArray h =>
    rw [parse_line (by decide) (oneLine_of_spells h)]
    exact length_eq_found_iff.2 (.inl ⟨h, rfl, rfl⟩)

theorem readItems_of_derivesAll {items : List Value} {frames : Bytes} (h : DerivesAll items frames)
    (rest : Bytes) : readItems parse items.length (frames ++ rest) = .found items rest := by
  cases h with
  | nil => rfl
  | cons first others =>
    have hothers := readItems_of_derivesAll others rest
    rw [List.length_cons, readItems, List.append_assoc, parse_of_derives first]
    simp [andThen, hothers, Scan.map]

end

/-- **A reader accepts exactly the frames of the grammar**, and takes from a buffer the one frame at
its front: bytes have one meaning, and no frame is the beginning of another. -/
theorem parse_iff_derives :
    (∀ b rest v, parse b = .found v rest ↔ ∃ frame, Derives v frame ∧ b = frame ++ rest) ∧
      ∀ v w frame longer, Derives v frame → Derives w longer → frame <+: longer →
        v = w ∧ frame = longer := by
  refine ⟨fun b rest v => ⟨derives_of_parse, ?_⟩, ?_⟩
  · rintro ⟨frame, hframe, rfl⟩
    exact parse_of_derives hframe rest
  · rintro v w frame longer hv hw ⟨more, rfl⟩
    have hshort := parse_of_derives hv more
    have hlong := parse_of_derives hw []
    rw [List.append_nil, hshort, found.injEq] at hlong
    obtain ⟨rfl, rfl⟩ := hlong
    exact ⟨rfl, (List.append_nil _).symm⟩

/-- An array of a payload that looks like a frame, and of an integer with a sign and a zero. -/
theorem parse_iff_derives_of_array :
    let payload : Bytes := [0x2B, 0x61, 0x0D, 0x0A]
    let v := Value.array [.bulk payload, .integer (-7)]
    let frame := line 0x2A [0x32] ++
      (line 0x24 [0x34] ++ payload ++ crlf ++ line 0x3A [0x2D, 0x30, 0x37])
    Derives v frame ∧ parse (frame ++ [0x2B]) = .found v [0x2B] ∧
      ∀ w longer, Derives w longer → frame <+: longer → v = w ∧ frame = longer := by
  intro payload v frame
  have hbulk : Derives (.bulk payload) (line 0x24 [0x34] ++ payload ++ crlf) :=
    .bulk (.plain ⟨by simp, by simp⟩) (by decide)
  have hinteger : Derives (.integer (-7)) (line 0x3A [0x2D, 0x30, 0x37]) :=
    .integer (.minus ⟨by simp, by simp⟩)
  have hitems := DerivesAll.cons hbulk (.cons hinteger .nil)
  rw [List.append_nil] at hitems
  have hv : Derives v frame := .array (.plain ⟨by simp, by simp⟩) (by decide) hitems
  exact ⟨hv, (parse_iff_derives.1 _ _ _).2 ⟨frame, hv, rfl⟩,
    fun w longer hw => parse_iff_derives.2 v w frame longer hv hw⟩

end ShardFleet.Resp
