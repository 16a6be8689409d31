import ShardFleet.Proofs.Encoding

/-!
# Commands on the wire

However binary the arguments of commands are, what is sent for the commands is read as these, and
as no others.
-/

namespace ShardFleet

namespace Resp

/-! ### Telling written pieces apart -/

theorem line_append_inj {lead : UInt8} {b c r s : Bytes} (hlead : lead ≠ 0x0D) (hb : OneLine b)
    (hc : OneLine c) (h : line lead b ++ r = line lead c ++ s) : b = c ∧ r = s := by
  have hread := readLine_line hlead hb r
  rw [h, readLine_line hlead hc s] at hread
  simpa [eq_comm] using hread

theorem header_append_inj {lead : UInt8} {m n : Nat} {r s : Bytes} (hlead : lead ≠ 0x0D)
    (h : header lead m ++ r = header lead n ++ s) : m = n ∧ r = s := by
  obtain ⟨hdigits, hrest⟩ := line_append_inj hlead (oneLine_of_spells (Numeral.spells_natural m))
    (oneLine_of_spells (Numeral.spells_natural n)) h
  refine ⟨?_, hrest⟩
  have hm := (Numeral.digits_repr m).2
  have hn := (Numeral.digits_repr n).2
  rw [← Nat.toString_eq_repr] at hm hn
  rw [← hm, hdigits, hn]

theorem encodeBulk_append_inj {b c r s : Bytes} (h : encodeBulk b ++ r = encodeBulk c ++ s) :
    b = c ∧ r = s := by
  simp only [encodeBulk, List.append_assoc] at h
  obtain ⟨hlength, hrest⟩ := header_append_inj (by decide) h
  obtain ⟨rfl, hrest⟩ := List.append_inj hrest hlength
  exact ⟨rfl, List.append_cancel_left (List.append_cancel_left hrest)⟩

theorem encodeBulks_append_inj {bs cs : List Bytes} {r s : Bytes} (hlength : bs.length = cs.length)
    (h : bs.flatMap encodeBulk ++ r = cs.flatMap encodeBulk ++ s) : bs = cs ∧ r = s := by
  induction bs generalizing cs with
  | nil =>
    obtain rfl := List.eq_nil_of_length_eq_zero hlength.symm
    exact ⟨rfl, h⟩
  | cons b bs ih =>
    obtain ⟨c, cs, rfl⟩ := List.exists_cons_of_length_eq_add_one hlength.symm
    simp only [List.flatMap_cons, List.append_assoc] at h
    obtain ⟨rfl, hrest⟩ := encodeBulk_append_inj h
    obtain ⟨rfl, rfl⟩ := ih (by simpa using hlength) hrest
    exact ⟨rfl, rfl⟩

end Resp

namespace Command

open Resp

/-- The buffer with the command written behind it, one piece after the other. -/
def writeTo (buffer : Bytes) (c : Command) : Bytes :=
  c.args.foldl (fun buffer arg => buffer ++ encodeBulk arg)
    (buffer ++ header 0x2A (c.args.length + 1) ++ encodeBulk (utf8 c.name))

/-- Whether a reader takes byte strings as long, and arrays as long, as the command's. -/
structure Fits (c : Command) : Prop where
  name : (utf8 c.name).length ≤ maxLength
  args : ∀ arg ∈ c.args, arg.length ≤ maxLength
  count : c.args.length + 1 ≤ maxLength

theorem encode_eq (c : Command) : c.encode = Resp.encode c.toValue := by
  simp [Command.encode, toValue, Resp.encode, encodeAll_eq_flatMap, words, List.flatMap_map]

theorem writeTo_eq (buffer : Bytes) (c : Command) : c.writeTo buffer = buffer ++ c.encode := by
  simp [writeTo, List.foldl_append_eq_append, Command.encode, words, List.flatMap_def]

theorem Fits.encodable {c : Command} (h : c.Fits) : c.toValue.Encodable := by
  refine Value.encodable_array.2 ⟨by simpa [words] using h.count, fun v hv => ?_⟩
  obtain ⟨word, hword, rfl⟩ := List.mem_map.1 hv
  have hle : word.length ≤ maxLength := by
    rcases List.mem_cons.1 hword with rfl | harg
    · exact h.name
    · exact h.args word harg
  exact (Value.encodable_of_leaf (by simp)).2 hle

theorem parse_encode {c : Command} (h : c.Fits) (rest : Bytes) :
    parse (c.encode ++ rest) = .found c.toValue rest := by
  rw [encode_eq]
  exact Resp.parse_encode h.encodable rest

theorem drain_encode {cs : List Command} (h : ∀ c ∈ cs, c.Fits) :
    drain (cs.flatMap Command.encode) = ⟨cs.map toValue, none, []⟩ := by
  induction cs with
  | nil => rfl
  | cons c cs ih =>
    obtain ⟨hc, hcs⟩ := List.forall_mem_cons.1 h
    rw [List.flatMap_cons, drain_of_found (parse_encode hc _), ih hcs]
    rfl

theorem encode_append_inj {c d : Command} {r s : Bytes} (h : c.encode ++ r = d.encode ++ s) :
    c = d ∧ r = s := by
  simp only [Command.encode, List.append_assoc] at h
  obtain ⟨hcount, hwords⟩ := header_append_inj (by decide) h
  have hlength : c.words.length = d.words.length := by simpa [words] using hcount
  obtain ⟨hwords, hrest⟩ := encodeBulks_append_inj hlength hwords
  obtain ⟨hname, hargs⟩ := List.cons.inj hwords
  refine ⟨?_, hrest⟩
  cases c
  cases d
  cases utf8_injective hname
  cases hargs
  rfl

theorem encode_ne_nil (c : Command) : c.encode ≠ [] := by
  simp [Command.encode, header, line]

theorem flatMap_encode_injective :
    Function.Injective fun cs : List Command => cs.flatMap encode := by
  intro cs
  induction cs with
  | nil =>
    intro ds h
    cases ds with
    | nil => rfl
    | cons d ds => simp [encode_ne_nil] at h
  | cons c cs ih =>
    intro ds h
    cases ds with
    | nil => simp [encode_ne_nil] at h
    | cons d ds =>
      obtain ⟨rfl, hrest⟩ := encode_append_inj h
      rw [ih hrest]

/-- **Commands cannot be forged through their arguments**: what is sent for commands is read as
these commands, it is what is written for them as values, and no other commands are sent so. -/
theorem commands_unforged :
    (∀ cs : List Command, (∀ c ∈ cs, c.Fits) →
      drain (cs.flatMap Command.encode) = ⟨cs.map toValue, none, []⟩) ∧
    (∀ (buffer : Bytes) (c : Command),
      c.writeTo buffer = buffer ++ c.encode ∧ c.encode = Resp.encode c.toValue) ∧
    Function.Injective fun cs : List Command => cs.flatMap Command.encode :=
  ⟨fun _ h => drain_encode h, fun buffer c => ⟨writeTo_eq buffer c, encode_eq c⟩,
    flatMap_encode_injective⟩

/-- Two commands, of which the first holds another one, line ends and a zero byte in an argument. -/
def nested : List Command :=
  [⟨"SET", [utf8 "k", utf8 "*1\r\n$8\r\nFLUSHALL\r\n" ++ [0, 0xFF]]⟩, ⟨"PING", []⟩]

theorem commands_unforged_of_nested :
    (∀ c ∈ nested, c.Fits) ∧
      drain (nested.flatMap Command.encode) = ⟨nested.map toValue, none, []⟩ := by
  have hfits : ∀ c ∈ nested, c.Fits :=
    List.forall_mem_cons.2 ⟨⟨by decide, by decide, by decide⟩,
      List.forall_mem_singleton.2 ⟨by decide, by decide, by decide⟩⟩
  exact ⟨hfits, commands_unforged.1 nested hfits⟩

end Command

end ShardFleet
