import Mathlib.Data.List.Basic
import ShardFleet.Toml.Reader
import ShardFleet.Toml.Writer

/-!
# Reading texts back

A text is written in one of four kinds of quotes, whichever shows it best, and is read back whole from each
of them. What has to be seen to is where a text ends: a row of quotes inside it may not be taken for its end,
and quotes right before its end belong to it.
-/

namespace ShardFleet.Toml

/-! ### One character between double quotes -/

theorem hexNumber_append {k acc n : Nat} {cs : List Char} (h : hexNumber k acc cs = some (n, []))
    (rest : List Char) : hexNumber k acc (cs ++ rest) = some (n, rest) := by
  induction k generalizing acc cs with
  | zero =>
    cases h
    rfl
  | succ k ih =>
    cases cs with
    | nil => cases h
    | cons c cs =>
      cases hd : hexDigit? c with
      | none => simp [hexNumber, hd] at h
      | some d =>
        simp only [hexNumber, hd, Option.bind_some, List.cons_append] at h ⊢
        exact ih h

/-- What stands for a character between double quotes: the character itself, or an escape. -/
inductive Spelt (c : Char) : List Char → Prop where
  | plain (h : isBasicChar c ∨ c = '\n' ∨ c = '"') : Spelt c [c]
  | escape {e} (h : ∀ rest, escape (e ++ rest) = some (c, rest)) : Spelt c ('\\' :: e)

theorem escape_control :
    ∀ n < 128, hexNumber 4 0 ((Text.hexPadded 4 n).map Char.toUpper).toList = some (n, []) := by
  decide +kernel

theorem isControl_lt {c : Char} (h : isControl c) : c.toNat < 128 := by
  simp only [isControl, Bool.or_eq_true, Bool.and_eq_true, decide_eq_true_eq] at h
  obtain h | rfl := h
  · have : c.toNat < ' '.toNat := h.1.1
    exact Nat.lt_trans this (by decide)
  · decide

/-- Characters that are no controls are above the space, or one of the controls that texts may hold. -/
theorem not_isControl {c : Char} (h : ¬ isControl c) :
    (' ' ≤ c ∨ c = '\n' ∨ c = '\t') ∧ c ≠ '\x7f' := by
  simp only [isControl, Bool.or_eq_true, Bool.and_eq_true, decide_eq_true_eq, not_or, not_and_or,
    Char.not_lt, ne_eq, not_not, or_assoc] at h
  exact h

theorem isBasicChar_iff {c : Char} :
    isBasicChar c ↔ c = '\t' ∨ ' ' ≤ c ∧ c ≠ '"' ∧ c ≠ '\\' ∧ c ≠ '\x7f' := by
  simp [isBasicChar, and_assoc]

theorem isLiteralChar_iff {c : Char} :
    isLiteralChar c ↔ c = '\t' ∨ ' ' ≤ c ∧ c ≠ '\'' ∧ c ≠ '\x7f' := by
  simp [isLiteralChar, and_assoc]

theorem spelt_escaped {c : Char} (h : c ≠ '"') : Spelt c (escaped c).toList := by
  unfold escaped
  split
  any_goals exact .escape fun rest => rfl
  rename_i hslash
  split
  · rename_i hc
    have hnumber := hexNumber_append (escape_control c.toNat (isControl_lt hc))
    have hmark : "\\u".toList = ['\\', 'u'] := rfl
    rw [String.toList_append, hmark, List.cons_append, List.singleton_append]
    refine .escape fun rest => ?_
    have hvalid : c.toNat.isValidChar := c.valid
    rw [List.cons_append, escape, escape.scalar, hnumber, Option.bind_some]
    simp only [if_pos hvalid, Char.ofNat_toNat]
  · rename_i hc
    rw [String.toList_singleton]
    obtain ⟨hspace | hline | htab, hdelete⟩ := not_isControl hc
    · exact .plain (.inl (isBasicChar_iff.2 (.inr ⟨hspace, h, hslash, hdelete⟩)))
    · exact .plain (.inr (.inl hline))
    · exact .plain (.inl (isBasicChar_iff.2 (.inl htab)))

theorem Spelt.ne_nil {c : Char} {w : List Char} (h : Spelt c w) : w ≠ [] := by
  cases h <;> exact List.cons_ne_nil _ _

theorem newline?_eq_none {r : List Char} (hline : r.head? ≠ some '\n') (hreturn : r.head? ≠ some '\r') :
    newline? r = none := by
  unfold newline?
  split
  · exact absurd rfl hline
  · exact absurd rfl hreturn
  · rfl

/-- What follows the backslash of an escape is no line break. -/
theorem newline?_of_escape {r rest : List Char} {c : Char} (h : escape r = some (c, rest)) :
    newline? (skipSpaces r) = none := by
  unfold escape at h
  split at h <;> first | rfl | cases h

/-! ### Texts on one line -/

theorem basicFrom_spelt {c : Char} {w : List Char} (h : Spelt c w) (hline : c ≠ '\n')
    (hquote : w ≠ ['"']) (fuel : Nat) (r : List Char) :
    basicFrom (fuel + 1) (w ++ r) = (basicFrom fuel r).map fun (s, r) => (c :: s, r) := by
  cases h with
  | escape h =>
    rw [List.cons_append, basicFrom, h, Option.bind_some]
  | plain h =>
    have hc : c ≠ '"' := fun hc => hquote (by rw [hc])
    have hbasic : isBasicChar c := by simpa [hline, hc] using h
    have hslash : c ≠ '\\' := by
      rintro rfl
      revert hbasic
      decide
    simp [basicFrom, hbasic]

/-- A character of a text on one line. -/
def spelling (c : Char) : List Char := (if c = '"' then "\\\"" else escaped c).toList

theorem spelt_spelling (c : Char) : Spelt c (spelling c) := by
  unfold spelling
  split
  · rename_i h
    rw [h]
    exact .escape fun rest => rfl
  · rename_i h
    exact spelt_escaped h

theorem spelling_head (c : Char) : (spelling c).head? ≠ some '"' := by
  by_cases hc : c = '"'
  · rw [hc]
    decide
  · have h := spelt_spelling c
    cases hw : spelling c with
    | nil => simp
    | cons x w =>
      rw [hw] at h
      cases h with
      | plain => simpa using hc
      | escape => simp

theorem basicFrom_flatMap {cs : List Char} (hline : '\n' ∉ cs) (rest : List Char) {fuel : Nat}
    (hfuel : cs.length < fuel) :
    basicFrom fuel (cs.flatMap spelling ++ '"' :: rest) = some (cs, rest) := by
  induction cs generalizing fuel with
  | nil =>
    obtain ⟨fuel, rfl⟩ := Nat.exists_eq_add_one.2 hfuel
    rfl
  | cons c cs ih =>
    obtain ⟨fuel, rfl⟩ := Nat.exists_eq_add_one.2 (Nat.zero_lt_of_lt hfuel)
    obtain ⟨hc, hcs⟩ := not_or.1 (mt List.mem_cons.2 hline)
    have hquote : spelling c ≠ ['"'] := fun h => spelling_head c (by rw [h]; rfl)
    rw [List.flatMap_cons, List.append_assoc, basicFrom_spelt (spelt_spelling c) (Ne.symm hc) hquote,
      ih hcs (Nat.lt_of_succ_lt_succ hfuel)]
    rfl

theorem length_le_flatMap (cs : List Char) : cs.length ≤ (cs.flatMap spelling).length := by
  induction cs with
  | nil => exact Nat.le_refl 0
  | cons c cs ih =>
    have := List.length_pos_iff.2 (spelt_spelling c).ne_nil
    rw [List.length_cons, List.flatMap_cons, List.length_append]
    omega

theorem toList_lineQuoted (cs : List Char) :
    (lineQuoted cs).toList = '"' :: (cs.flatMap spelling ++ ['"']) := by
  simp only [lineQuoted, String.toList_append, String.toList_join, List.flatMap_map]
  rfl

theorem text_lineQuoted {cs : List Char} (hline : '\n' ∉ cs) (rest : List Char) :
    text ((lineQuoted cs).toList ++ '\n' :: rest) = some (String.ofList cs, '\n' :: rest) := by
  rw [toList_lineQuoted, List.cons_append, List.append_assoc, List.singleton_append]
  -- A text that is not empty does not begin with a quote, so the quotes are not three.
  have hshort : text ('"' :: (cs.flatMap spelling ++ '"' :: '\n' :: rest)) =
      lineText ('"' :: (cs.flatMap spelling ++ '"' :: '\n' :: rest)) := by
    cases cs with
    | nil => rfl
    | cons c cs =>
      have hhead := spelling_head c
      obtain ⟨x, w, hw⟩ := List.exists_cons_of_ne_nil (spelt_spelling c).ne_nil
      rw [hw] at hhead
      rw [List.flatMap_cons, hw]
      have hx : x ≠ '"' := by simpa using hhead
      simp [text, hx]
  rw [hshort, lineText, basicFrom_flatMap hline]
  · rfl
  · have := length_le_flatMap cs
    simp only [List.length_append, List.length_cons]
    omega

theorem literalFrom_append {cs : List Char} (h : ∀ c ∈ cs, isLiteralChar c) (rest : List Char) :
    literalFrom (cs ++ '\'' :: rest) = some (cs, rest) := by
  induction cs with
  | nil => rfl
  | cons c cs ih =>
    obtain ⟨hc, hcs⟩ := List.forall_mem_cons.1 h
    have hquote : c ≠ '\'' := by
      rintro rfl
      revert hc
      decide
    simp [literalFrom, hc, ih hcs]

theorem text_literal {s : String} (h : ∀ c ∈ s.toList, isLiteralChar c) (rest : List Char) :
    text (("'" ++ s ++ "'").toList ++ '\n' :: rest) = some (s, '\n' :: rest) := by
  have hchars : ("'" ++ s ++ "'").toList ++ '\n' :: rest = '\'' :: (s.toList ++ '\'' :: '\n' :: rest) := by
    simp
  rw [hchars]
  have hshort : text ('\'' :: (s.toList ++ '\'' :: '\n' :: rest)) =
      lineText ('\'' :: (s.toList ++ '\'' :: '\n' :: rest)) := by
    cases hs : s.toList with
    | nil => rfl
    | cons c cs =>
      have hc : c ≠ '\'' := by
        rintro rfl
        have := h '\'' (hs ▸ List.mem_cons_self)
        revert this
        decide
      simp [text, hc]
  rw [hshort, lineText, literalFrom_append h]
  exact congrArg (fun t => some (t, '\n' :: rest)) String.ofList_toList

/-! ### Texts on several lines -/

theorem closing_eq_none_of_first {q a : Char} (h : a ≠ q) (r : List Char) : closing q (a :: r) = none := by
  unfold closing
  split
  · rename_i heq
    cases heq
    simp [h]
  · rfl

theorem closing_eq_none_of_second {q a : Char} (h : a ≠ q) (r : List Char) :
    closing q (q :: a :: r) = none := by
  cases r <;> simp [closing, h]

theorem closing_eq_none_of_third {q a : Char} (h : a ≠ q) (r : List Char) :
    closing q (q :: q :: a :: r) = none := by
  simp [closing, h]

/-- The inside of a text that has no three quotes in a row at its beginning either is nothing but the
quotes right before the end of the text, or does not end here. -/
theorem closing_cases {q : Char} (hq : '\n' ≠ q) {body : List Char} (h : ¬ [q, q, q] <+: body)
    (rest : List Char) :
    (closing q (body ++ q :: q :: q :: '\n' :: rest) = some (body, '\n' :: rest) ∧ ∀ c ∈ body, c = q) ∨
      (closing q (body ++ q :: q :: q :: '\n' :: rest) = none ∧ body ≠ []) := by
  match body with
  | [] => exact .inl ⟨by cases rest <;> simp [closing, hq], by simp⟩
  | a :: r =>
    by_cases ha : a = q
    · subst ha
      match r with
      | [] => exact .inl ⟨by cases rest <;> simp [closing, hq], by simp⟩
      | b :: r =>
        by_cases hb : b = a
        · subst hb
          match r with
          | [] => exact .inl ⟨by simp [closing], by simp⟩
          | c :: r =>
            have hc : c ≠ b := by
              rintro rfl
              exact h ⟨r, rfl⟩
            exact .inr ⟨closing_eq_none_of_third hc _, List.cons_ne_nil _ _⟩
        · exact .inr ⟨closing_eq_none_of_second hb _, List.cons_ne_nil _ _⟩
    · exact .inr ⟨closing_eq_none_of_first ha _, List.cons_ne_nil _ _⟩

/-- One character more, where `s` are the lengths of the longest row of `q` and of the present one. -/
def rowStep (q : Char) (s : Nat × Nat) (c : Char) : Nat × Nat :=
  if c = q then (max s.1 (s.2 + 1), s.2 + 1) else (s.1, 0)

theorem le_foldl_rowStep (q : Char) (cs : List Char) (s : Nat × Nat) :
    s.1 ≤ (cs.foldl (rowStep q) s).1 := by
  induction cs generalizing s with
  | nil => exact Nat.le_refl _
  | cons c cs ih =>
    refine Nat.le_trans ?_ (ih (rowStep q s c))
    unfold rowStep
    split
    · exact Nat.le_max_left _ _
    · exact Nat.le_refl _

theorem le_foldl_rowStep_replicate (q : Char) (n : Nat) (s : Nat × Nat) :
    s.2 + (n + 1) ≤ ((List.replicate (n + 1) q).foldl (rowStep q) s).1 := by
  induction n generalizing s with
  | zero =>
    simp only [List.replicate_succ, List.replicate_zero, List.foldl_cons, List.foldl_nil, rowStep, if_true]
    exact Nat.le_max_right _ _
  | succ n ih =>
    have := ih (rowStep q s q)
    rw [List.replicate_succ, List.foldl_cons]
    simp only [rowStep, if_true] at this ⊢
    omega

/-- Every row of a character is at most as long as the longest one. -/
theorem le_longestRow {q : Char} {n : Nat} {cs : List Char} (h : List.replicate n q <:+: cs) :
    n ≤ longestRow q cs := by
  cases n with
  | zero => exact Nat.zero_le _
  | succ n =>
    obtain ⟨before, after, rfl⟩ := h
    change _ ≤ ((before ++ List.replicate (n + 1) q ++ after).foldl (rowStep q) (0, 0)).1
    rw [List.foldl_append, List.foldl_append]
    refine Nat.le_trans ?_ (le_foldl_rowStep q after _)
    refine Nat.le_trans ?_ (le_foldl_rowStep_replicate q n _)
    omega

theorem not_mem_of_longestRow {q : Char} {cs : List Char} (h : longestRow q cs = 0) : q ∉ cs := by
  intro hq
  obtain ⟨before, after, rfl⟩ := List.append_of_mem hq
  have hrow : List.replicate 1 q <:+: before ++ q :: after := ⟨before, after, by simp⟩
  have := le_longestRow hrow
  omega

theorem not_infix_of_longestRow {q : Char} {cs : List Char} (h : longestRow q cs ≤ 2) :
    ¬ [q, q, q] <:+: cs := by
  intro hq
  have hrow : List.replicate 3 q <:+: cs := hq
  have := le_longestRow hrow
  omega

theorem literalLinesFrom_closed {fuel : Nat} {r : List Char} {x : List Char × List Char}
    (h : closing '\'' r = some x) : literalLinesFrom (fuel + 1) r = some x := by
  simp only [literalLinesFrom, h]

theorem literalLinesFrom_cons {fuel : Nat} {c : Char} {r : List Char}
    (hopen : closing '\'' (c :: r) = none) (hc : isLiteralChar c ∨ c = '\n' ∨ c = '\'') :
    literalLinesFrom (fuel + 1) (c :: r) =
      (literalLinesFrom fuel r).map fun (s, r) => (c :: s, r) := by
  simp only [literalLinesFrom, hopen]
  by_cases hline : c = '\n'
  · subst hline
    rfl
  · have hreturn : c ≠ '\r' := by
      rintro rfl
      revert hc
      decide
    rw [newline?_eq_none (by simpa using hline) (by simpa using hreturn)]
    have hplain : (isLiteralChar c || c = '\'') = true := by simpa [hline] using hc
    simp only [hplain, if_true]

theorem literalLinesFrom_append {cs : List Char} (h : ∀ c ∈ cs, ¬ isControl c)
    (hrows : ¬ ['\'', '\'', '\''] <:+: cs) (rest : List Char) {fuel : Nat} (hfuel : cs.length < fuel) :
    literalLinesFrom fuel (cs ++ '\'' :: '\'' :: '\'' :: '\n' :: rest) = some (cs, '\n' :: rest) := by
  induction cs generalizing fuel with
  | nil =>
    obtain ⟨fuel, rfl⟩ := Nat.exists_eq_add_one.2 hfuel
    obtain ⟨hclosed, -⟩ | ⟨-, hne⟩ := closing_cases (by decide) (fun hq => hrows hq.isInfix) rest
    · exact literalLinesFrom_closed hclosed
    · exact absurd rfl hne
  | cons c cs ih =>
    obtain ⟨fuel, rfl⟩ := Nat.exists_eq_add_one.2 (Nat.zero_lt_of_lt hfuel)
    obtain ⟨hc, hcs⟩ := List.forall_mem_cons.1 h
    obtain ⟨hclosed, -⟩ | ⟨hopen, -⟩ := closing_cases (by decide) (fun hq => hrows hq.isInfix) rest
    · exact literalLinesFrom_closed hclosed
    · have hplain : isLiteralChar c ∨ c = '\n' ∨ c = '\'' := by
        by_cases hquote : c = '\''
        · exact .inr (.inr hquote)
        · obtain ⟨hspace | hline | htab, hdelete⟩ := not_isControl hc
          · exact .inl (isLiteralChar_iff.2 (.inr ⟨hspace, hquote, hdelete⟩))
          · exact .inr (.inl hline)
          · exact .inl (isLiteralChar_iff.2 (.inl htab))
      have hinner : ¬ ['\'', '\'', '\''] <:+: cs := fun hq =>
        hrows (hq.trans (List.suffix_cons c cs).isInfix)
      rw [List.cons_append] at hopen ⊢
      rw [literalLinesFrom_cons hopen hplain, ih hcs hinner (Nat.lt_of_succ_lt_succ hfuel)]
      rfl

/-! ### Texts on several lines, between double quotes -/

/-- The double quotes in a row after one more character, of which the third is escaped. -/
def nextRun (run : Nat) (c : Char) : Nat := if c = '"' ∧ run ≠ 2 then run + 1 else 0

/-- What stands for a character after `run` double quotes in a row. -/
def spellingAfter (run : Nat) (c : Char) : List Char :=
  if c = '"' ∧ run ≠ 2 then ['"'] else spelling c

theorem toList_linesInner_cons (run : Nat) (c : Char) (cs : List Char) :
    (linesInner run (c :: cs)).toList = spellingAfter run c ++ (linesInner (nextRun run c) cs).toList := by
  rw [linesInner]
  unfold spellingAfter nextRun spelling
  by_cases hc : c = '"' <;> by_cases hrun : run = 2 <;> simp [hc, hrun]

theorem spelt_spellingAfter (run : Nat) (c : Char) : Spelt c (spellingAfter run c) := by
  unfold spellingAfter
  split
  · rename_i h
    rw [h.1]
    exact .plain (.inr (.inr rfl))
  · exact spelt_spelling c

/-- Fewer than three double quotes are left unescaped in a row. -/
theorem not_prefix_linesInner {run : Nat} (hrun : run ≤ 2) (cs : List Char) :
    ¬ List.replicate (3 - run) '"' <+: (linesInner run cs).toList := by
  induction cs generalizing run with
  | nil =>
    intro h
    have := h.length_le
    simp [linesInner] at this
    omega
  | cons c cs ih =>
    rw [toList_linesInner_cons]
    obtain ⟨k, hk⟩ : ∃ k, 3 - run = k + 1 := ⟨2 - run, by omega⟩
    rw [hk, List.replicate_succ]
    unfold spellingAfter nextRun
    split
    · rename_i hc
      have := ih (show run + 1 ≤ 2 by omega)
      rw [List.singleton_append, List.cons_prefix_cons]
      rintro ⟨-, h⟩
      rw [show 3 - (run + 1) = k by omega] at this
      exact this h
    · rintro ⟨t, ht⟩
      have hhead := spelling_head c
      obtain ⟨x, w, hw⟩ := List.exists_cons_of_ne_nil (spelt_spelling c).ne_nil
      rw [hw] at hhead ht
      obtain rfl : '"' = x := (List.cons.inj ht).1
      exact hhead rfl

/-- Double quotes that are all left unescaped are those of the text. -/
theorem linesInner_eq_of_quotes {run : Nat} {cs : List Char}
    (h : ∀ c ∈ (linesInner run cs).toList, c = '"') : (linesInner run cs).toList = cs := by
  induction cs generalizing run with
  | nil => rfl
  | cons c cs ih =>
    rw [toList_linesInner_cons] at h ⊢
    obtain ⟨hfirst, hrest⟩ := List.forall_mem_append.1 h
    rw [ih hrest]
    unfold spellingAfter at hfirst ⊢
    split
    · rename_i hc
      rw [hc.1]
      rfl
    · rename_i hc
      rw [if_neg hc] at hfirst
      have hhead := spelling_head c
      obtain ⟨x, w, hw⟩ := List.exists_cons_of_ne_nil (spelt_spelling c).ne_nil
      rw [hw] at hhead hfirst
      exact absurd (congrArg some (hfirst x List.mem_cons_self)) hhead

theorem basicLinesFrom_closed {fuel : Nat} {r : List Char} {x : List Char × List Char}
    (h : closing '"' r = some x) : basicLinesFrom (fuel + 1) r = some x := by
  simp only [basicLinesFrom, h]

theorem basicLinesFrom_spelt {fuel : Nat} {c : Char} {w r : List Char} (h : Spelt c w)
    (hopen : closing '"' (w ++ r) = none) :
    basicLinesFrom (fuel + 1) (w ++ r) =
      (basicLinesFrom fuel r).map fun (s, r) => (c :: s, r) := by
  cases h with
  | escape h =>
    rw [List.cons_append] at hopen ⊢
    simp only [basicLinesFrom, hopen, newline?_of_escape (h r), h, Option.bind_some]
  | plain h =>
    rw [List.singleton_append] at hopen ⊢
    have hslash : c ≠ '\\' := by
      rintro rfl
      revert h
      decide
    simp only [basicLinesFrom, hopen]
    by_cases hline : c = '\n'
    · subst hline
      rfl
    · have hreturn : c ≠ '\r' := by
        rintro rfl
        revert h
        decide
      have hplain : (isBasicChar c || c = '"') = true := by simpa [hline] using h
      rw [newline?_eq_none (by simpa using hline) (by simpa using hreturn)]
      simp only [hplain, if_true]

theorem basicLinesFrom_linesInner {run : Nat} (hrun : run ≤ 2) (cs rest : List Char) {fuel : Nat}
    (hfuel : cs.length < fuel) :
    basicLinesFrom fuel ((linesInner run cs).toList ++ '"' :: '"' :: '"' :: '\n' :: rest) =
      some (cs, '\n' :: rest) := by
  induction cs generalizing run fuel with
  | nil =>
    obtain ⟨fuel, rfl⟩ := Nat.exists_eq_add_one.2 hfuel
    have hrow : ¬ ['"', '"', '"'] <+: ([] : List Char) := by decide
    obtain ⟨hclosed, -⟩ | ⟨-, hne⟩ := closing_cases (by decide) hrow rest
    · exact basicLinesFrom_closed hclosed
    · exact absurd rfl hne
  | cons c cs ih =>
    obtain ⟨fuel, rfl⟩ := Nat.exists_eq_add_one.2 (Nat.zero_lt_of_lt hfuel)
    have hrow : ¬ ['"', '"', '"'] <+: (linesInner run (c :: cs)).toList := by
      rintro ⟨t, ht⟩
      refine not_prefix_linesInner hrun (c :: cs) ⟨List.replicate run '"' ++ t, ?_⟩
      rw [← List.append_assoc, List.replicate_append_replicate, Nat.sub_add_cancel (by omega)]
      exact ht
    obtain ⟨hclosed, hquotes⟩ | ⟨hopen, -⟩ := closing_cases (by decide) hrow rest
    · rw [linesInner_eq_of_quotes hquotes] at hclosed ⊢
      exact basicLinesFrom_closed hclosed
    · have hnext : nextRun run c ≤ 2 := by
        unfold nextRun
        split <;> omega
      rw [toList_linesInner_cons, List.append_assoc] at hopen ⊢
      rw [basicLinesFrom_spelt (spelt_spellingAfter run c) hopen,
        ih hnext (Nat.lt_of_succ_lt_succ hfuel)]
      rfl

/-! ### Any text -/

theorem length_le_linesInner (run : Nat) (cs : List Char) :
    cs.length ≤ (linesInner run cs).toList.length := by
  induction cs generalizing run with
  | nil => exact Nat.zero_le _
  | cons c cs ih =>
    have hpos := List.length_pos_iff.2 (spelt_spellingAfter run c).ne_nil
    have := ih (nextRun run c)
    rw [toList_linesInner_cons, List.length_append, List.length_cons]
    omega

/-- A text of several lines begins with a quote, an escape or a character of its own. -/
theorem head_linesInner {run : Nat} {cs tail : List Char} {x : Char}
    (h : ((linesInner run cs).toList ++ '"' :: tail).head? = some x) :
    x = '"' ∨ x = '\\' ∨ x ∈ cs ∧ x ≠ '\r' := by
  cases cs with
  | nil =>
    obtain rfl : '"' = x := by simpa [linesInner] using h
    exact .inl rfl
  | cons c cs =>
    rw [toList_linesInner_cons, List.append_assoc] at h
    have hspelt := spelt_spellingAfter run c
    generalize spellingAfter run c = w at h hspelt
    cases hspelt with
    | escape =>
      obtain rfl : '\\' = x := by simpa using h
      exact .inr (.inl rfl)
    | plain hc =>
      obtain rfl : c = x := by simpa using h
      refine .inr (.inr ⟨List.mem_cons_self, ?_⟩)
      rintro rfl
      revert hc
      decide

/-- The line break before a text that has line breaks. -/
def startOf (cs : List Char) : String := if cs.contains '\n' then "\n" else ""

/-- The line break before a text is not part of it, and there is none where it would be missed. -/
theorem newline?_startOf {cs body : List Char} (hreturn : body.head? ≠ some '\r')
    (h : body.head? = some '\n' → '\n' ∈ cs) :
    (newline? ((startOf cs).toList ++ body)).getD ((startOf cs).toList ++ body) = body := by
  unfold startOf
  split
  · rfl
  · rename_i hlines
    have hline : body.head? ≠ some '\n' := fun hhead => hlines (by simpa using h hhead)
    change (newline? body).getD body = body
    rw [newline?_eq_none hline hreturn, Option.getD_none]

theorem text_escapedLines (cs rest : List Char) :
    text (("\"\"\"" ++ startOf cs ++ linesInner 0 cs ++ "\"\"\"").toList ++ '\n' :: rest) =
      some (String.ofList cs, '\n' :: rest) := by
  let body := (linesInner 0 cs).toList ++ '"' :: '"' :: '"' :: '\n' :: rest
  have hchars : ("\"\"\"" ++ startOf cs ++ linesInner 0 cs ++ "\"\"\"").toList ++ '\n' :: rest =
      '"' :: '"' :: '"' :: ((startOf cs).toList ++ body) := by
    simp [body]
  have hstart : (newline? ((startOf cs).toList ++ body)).getD ((startOf cs).toList ++ body) = body := by
    refine newline?_startOf (fun h => ?_) fun h => ?_
    · simpa using head_linesInner h
    · simpa using head_linesInner h
  rw [hchars, text, hstart, basicLinesFrom_linesInner (by decide)]
  · rfl
  · have := length_le_linesInner 0 cs
    simp only [body, List.length_append, List.length_cons]
    omega

theorem text_literalLines {s : String} (h : ∀ c ∈ s.toList, ¬ isControl c)
    (hrows : longestRow '\'' s.toList ≤ 2) (rest : List Char) :
    text (("'''" ++ startOf s.toList ++ s ++ "'''").toList ++ '\n' :: rest) =
      some (s, '\n' :: rest) := by
  let body := s.toList ++ '\'' :: '\'' :: '\'' :: '\n' :: rest
  have hchars : ("'''" ++ startOf s.toList ++ s ++ "'''").toList ++ '\n' :: rest =
      '\'' :: '\'' :: '\'' :: ((startOf s.toList).toList ++ body) := by
    simp [body]
  have hhead : ∀ c, body.head? = some c → c = '\'' ∨ c ∈ s.toList := by
    intro c hc
    cases hs : s.toList with
    | nil => exact .inl (by simpa [body, hs, eq_comm] using hc)
    | cons d cs => exact .inr (List.mem_cons.2 (.inl (by simpa [body, hs, eq_comm] using hc)))
  have hstart : (newline? ((startOf s.toList).toList ++ body)).getD
      ((startOf s.toList).toList ++ body) = body := by
    refine newline?_startOf (fun hc => ?_) fun hc => ?_
    · obtain h' | hmem := hhead _ hc
      · exact absurd h' (by decide)
      · exact h _ hmem (by decide)
    · obtain h' | hmem := hhead _ hc
      · exact absurd h' (by decide)
      · exact hmem
  rw [hchars, text, hstart, literalLinesFrom_append h (not_infix_of_longestRow hrows)]
  · exact congrArg (fun t => some (t, '\n' :: rest)) String.ofList_toList
  · simp only [body, List.length_append, List.length_cons]
    omega

/-- The four ways to write a text, with what each of them needs. -/
theorem quotedText_cases (s : String) :
    (quotedText s = lineQuoted s.toList ∧ '\n' ∉ s.toList) ∨
      (quotedText s = "'" ++ s ++ "'" ∧ ∀ c ∈ s.toList, isLiteralChar c) ∨
      quotedText s = "\"\"\"" ++ startOf s.toList ++ linesInner 0 s.toList ++ "\"\"\"" ∨
      (quotedText s = "'''" ++ startOf s.toList ++ s ++ "'''" ∧ (∀ c ∈ s.toList, ¬ isControl c) ∧
        longestRow '\'' s.toList ≤ 2) := by
  simp only [quotedText, Bool.and_eq_true, Bool.not_eq_true', List.any_eq_false, decide_eq_true_eq,
    ← startOf.eq_def]
  split
  · rename_i h
    exact .inl ⟨rfl, by simpa using h.2⟩
  split
  · rename_i h
    obtain ⟨⟨hcontrols, hquotes⟩, hlines⟩ := h
    refine .inr (.inl ⟨rfl, fun c hc => isLiteralChar_iff.2 ?_⟩)
    have hquote : c ≠ '\'' := fun h => not_mem_of_longestRow hquotes (h ▸ hc)
    obtain ⟨hspace | rfl | htab, hdelete⟩ := not_isControl (hcontrols c hc)
    · exact .inr ⟨hspace, hquote, hdelete⟩
    · simp [hc] at hlines
    · exact .inl htab
  split
  · exact .inr (.inr (.inl rfl))
  split
  · rename_i h
    exact .inr (.inr (.inr ⟨rfl, h⟩))
  split
  · rename_i h
    simp only [startOf, h, if_true, true_or, or_true]
  · rename_i h
    exact .inl ⟨rfl, by simpa using h⟩

/-- **A text that is written is read back whole**, and reading ends at the end of its line. -/
theorem text_quotedText (s : String) (rest : List Char) :
    text ((quotedText s).toList ++ '\n' :: rest) = some (s, '\n' :: rest) := by
  obtain ⟨h, hline⟩ | ⟨h, hchars⟩ | h | ⟨h, hcontrols, hrows⟩ := quotedText_cases s <;> rw [h]
  · rw [text_lineQuoted hline, String.ofList_toList]
  · exact text_literal hchars rest
  · rw [text_escapedLines, String.ofList_toList]
  · exact text_literalLines hcontrols hrows rest

theorem head_quotedText (s : String) :
    (∃ r, (quotedText s).toList = '"' :: r) ∨ ∃ r, (quotedText s).toList = '\'' :: r := by
  obtain ⟨h, -⟩ | ⟨h, -⟩ | h | ⟨h, -⟩ := quotedText_cases s <;> rw [h]
  · exact .inl ⟨_, toList_lineQuoted _⟩
  · exact .inr ⟨s.toList ++ ['\''], by simp⟩
  · exact .inl ⟨_, by simp only [String.toList_append]; rfl⟩
  · exact .inr ⟨_, by simp only [String.toList_append]; rfl⟩

end ShardFleet.Toml
