import ShardFleet.Proofs.Encoding

/-!
# The normal form of a frame

A reader takes many spellings of one value, of which the written form is one that is as short as any.
So whatever is read can be written, in no more bytes than were read, and what is written is read as the
same value again.
-/

namespace ShardFleet.Resp

/-! ### Integer lines -/

/-- Digits are at least as many as those that are written for their number. -/
theorem Numeral.Digits.length_le {b : Bytes} (h : Numeral.Digits b) :
    (utf8 (Numeral.decimal b).repr).length ≤ b.length := by
  induction b using List.reverseRecOn with
  | nil => exact absurd rfl h.ne_nil
  | append_singleton b x ih =>
    have hx : x.toNat - 0x30 < 10 := by
      have := UInt8.le_iff_toNat_le.1 (h.digit x (by simp)).2
      simp at this
      omega
    rw [utf8_repr, decimal_concat, List.length_append, List.length_append]
    split
    · simp
    · rename_i hlong
      -- The number has two digits or more, so there are digits before the last.
      have hb : b ≠ [] := by
        rintro rfl
        exact hlong (by simpa [decimal, decimalFrom] using hx)
      have hlength := ih ⟨hb, fun y hy => h.digit y (List.mem_append_left _ hy)⟩
      rw [show (decimal b * 10 + (x.toNat - 0x30)) / 10 = decimal b by omega]
      simpa using hlength

/-- No line that writes an integer is shorter than the one that is written for it. -/
theorem Numeral.Spells.length_le {b : Bytes} {z : Int} (h : Numeral.Spells b z) :
    (utf8 (toString z)).length ≤ b.length := by
  cases h with
  | plain h => exact h.length_le
  | plus h => exact Nat.le_succ_of_le h.length_le
  | @minus digits h =>
    have hlength := h.length_le
    rw [utf8_integer]
    split
    · -- What is not negative after a minus sign is zero.
      rename_i hz
      rw [show (-(decimal digits : Int)).toNat = decimal digits by omega]
      exact Nat.le_succ_of_le hlength
    · rw [Int.neg_neg, Int.toNat_natCast]
      exact Nat.succ_le_succ hlength

/-! ### Frames -/

theorem length_line_le (lead : UInt8) {body body' : Bytes} (h : body.length ≤ body'.length) :
    (line lead body).length ≤ (line lead body').length := by
  simp only [line, List.length_append, List.length_cons]
  omega

mutual

/-- No frame of a value is shorter than the one that is written for it. -/
theorem length_encode_le {v : Value} {frame : Bytes} (h : Derives v frame) :
    (encode v).length ≤ frame.length := by
  cases h with
  | simple | error => exact Nat.le_refl _
  | integer h => exact length_line_le _ h.length_le
  | bulk h =>
    have hheader := length_line_le 0x24 h.length_le
    simp only [encode, encodeBulk, header, List.length_append] at hheader ⊢
    exact Nat.add_le_add_right (Nat.add_le_add_right hheader _) _
  | nullBulk h | nullArray h => exact length_line_le _ h.length_le
  | array h le all =>
    have hheader := length_line_le 0x2A h.length_le
    simp only [encode, header, List.length_append] at hheader ⊢
    exact Nat.add_le_add hheader (length_encodeAll_le all)

theorem length_encodeAll_le {items : List Value} {frames : Bytes} (h : DerivesAll items frames) :
    (encodeAll items).length ≤ frames.length := by
  cases h with
  | nil => exact Nat.le_refl _
  | cons first others =>
    rw [encodeAll, List.length_append, List.length_append]
    exact Nat.add_le_add (length_encode_le first) (length_encodeAll_le others)

end

/-- The frame at the front of a buffer, if there is one, in its normal form: read, and written anew. -/
def normalForm? (b : Bytes) : Option Bytes :=
  match parse b with
  | .found v _ => some (encode v)
  | _ => none

theorem parse_encode_nil {v : Value} (h : v.Encodable) : parse (encode v) = .found v [] := by
  simpa using parse_encode h []

theorem normalForm?_encode {v : Value} (h : v.Encodable) :
    normalForm? (encode v) = some (encode v) := by
  rw [normalForm?, parse_encode_nil h]

/-- **What is read has a normal form**: it can be written, in no more bytes than were read, and these are
read as the same value, whatever follows them. So to read and write a frame again changes nothing that
the first time has not changed. -/
theorem read_has_normal_form {b rest : Bytes} {v : Value} (h : parse b = .found v rest) :
    v.Encodable ∧ (∃ frame, b = frame ++ rest ∧ (encode v).length ≤ frame.length) ∧
      parse (encode v) = .found v [] ∧ (∀ after, parse (encode v ++ after) = .found v after) ∧
      normalForm? b = some (encode v) ∧ normalForm? (encode v) = some (encode v) := by
  obtain ⟨frame, hframe, hsplit⟩ := derives_of_parse h
  have hencodable := encodable_of_derives hframe
  exact ⟨hencodable, ⟨frame, hsplit, length_encode_le hframe⟩, parse_encode_nil hencodable,
    parse_encode hencodable, by rw [normalForm?, h], normalForm?_encode hencodable⟩

/-- An array whose length is padded, of a negative zero and of a payload whose length has a plus sign. -/
theorem normal_form_of_padded :
    let b := utf8 "*02\r\n:-00\r\n$+1\r\na\r\n+OK\r\n"
    let v := Value.array [.integer 0, .bulk (utf8 "a")]
    let written := utf8 "*2\r\n:0\r\n$1\r\na\r\n"
    parse b = .found v (utf8 "+OK\r\n") ∧ encode v = written ∧ v.Encodable ∧
      parse written = .found v [] ∧ normalForm? b = some written ∧ normalForm? written = some written := by
  intro b v written
  have hparse : parse b = .found v (utf8 "+OK\r\n") := by decide +kernel
  have hencode : encode v = written := by decide +kernel
  obtain ⟨hencodable, -, hread, -, hnormal, hagain⟩ := read_has_normal_form hparse
  rw [hencode] at hread hnormal hagain
  exact ⟨hparse, hencode, hencodable, hread, hnormal, hagain⟩

end ShardFleet.Resp
