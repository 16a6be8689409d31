import ShardFleet.Proofs.TomlLines

/-!
# Reading documents back

A document is written header by header, and every header opens a table at the end of the one around it. What
is being read at any point is therefore a table inside frames, each of which is what was read before of the
table around it. Reading a table keeps the frames, and gives back the fields that were written.
-/

namespace ShardFleet.Toml

namespace Table

/-- A table that a header has named, with what stands in it so far. -/
def named (es : List (String × Item)) : Table := .mk false false es

theorem find?_named_of_fresh {es : List (String × Item)} {key : String} (h : key ∉ es.map (·.1)) :
    (named es).find? key = none := by
  have hnone : es.find? (·.1 = key) = none := by
    rw [List.find?_eq_none]
    intro e he hkey
    exact h (List.mem_map.2 ⟨e, he, by simpa using hkey⟩)
  rw [find?, named, entries, hnone, Option.map_none]

theorem find?_named_concat {es : List (String × Item)} {key : String} (h : key ∉ es.map (·.1))
    (item : Item) : (named (es ++ [(key, item)])).find? key = some item := by
  have hnone : es.find? (·.1 = key) = none := by
    rw [List.find?_eq_none]
    intro e he hkey
    exact h (List.mem_map.2 ⟨e, he, by simpa using hkey⟩)
  rw [find?, named, entries, List.find?_append, hnone]
  simp

theorem set_named_of_fresh {es : List (String × Item)} {key : String} (h : key ∉ es.map (·.1))
    (item : Item) : (named es).set key item = named (es ++ [(key, item)]) := by
  have hany : es.any (·.1 = key) = false := by
    rw [List.any_eq_false]
    intro e he hkey
    exact h (List.mem_map.2 ⟨e, he, by simpa using hkey⟩)
  rw [set, named, entries, hany]
  rfl

theorem set_named_concat {es : List (String × Item)} {key : String} (h : key ∉ es.map (·.1))
    (item item' : Item) :
    (named (es ++ [(key, item)])).set key item' = named (es ++ [(key, item')]) := by
  have hmap : es.map (fun e => if e.1 = key then (key, item') else e) = es := by
    refine (List.map_congr_left fun e he => ?_).trans (List.map_id es)
    exact if_neg fun hkey => h (List.mem_map.2 ⟨e, he, hkey⟩)
  rw [set, named, entries, if_pos (by simp), List.map_append, hmap]
  simp [named, implied, dotted]

end Table

open Toml.Table

/-! ### Tables inside tables -/

/-- What surrounds a table that is being read: the table around it up to the key at which it stands, and
the tables before it where it is one of an array. -/
structure Frame where
  before : List (String × Item)
  key : String
  closed : Option (List Table)

/-- The table that is being read as an item of the table around it. -/
def Frame.item (f : Frame) (t : Table) : Item :=
  match f.closed with
  | none => .table t
  | some closed => .tables closed t

/-- A table inside frames, the outermost of which comes first. -/
def plug : List Frame → Table → Table
  | [], t => t
  | f :: fs, t => named (f.before ++ [(f.key, f.item (plug fs t))])

/-- The keys at which a table inside frames stands. -/
def pathOf (frames : List Frame) : List String := frames.map (·.key)

/-- Frames whose keys are not used before in the tables around. -/
def Fresh (frames : List Frame) : Prop := ∀ f ∈ frames, f.key ∉ f.before.map (·.1)

theorem plug_concat (frames : List Frame) (f : Frame) (t : Table) :
    plug (frames ++ [f]) t = plug frames (named (f.before ++ [(f.key, f.item t)])) := by
  induction frames with
  | nil => rfl
  | cons g frames ih => rw [List.cons_append, plug, plug, ih]

theorem pathOf_concat (frames : List Frame) (f : Frame) :
    pathOf (frames ++ [f]) = pathOf frames ++ [f.key] := by
  simp [pathOf]

theorem Fresh.concat {frames : List Frame} (h : Fresh frames) {f : Frame} (hf : f.key ∉ f.before.map (·.1)) :
    Fresh (frames ++ [f]) := by
  intro g hg
  rcases List.mem_append.1 hg with hg | hg
  · exact h g hg
  · rw [List.mem_singleton.1 hg]
    exact hf

/-- A change of the table at a path leaves the frames around it. -/
theorem update_plug {frames : List Frame} (h : Fresh frames) (f : Table → Option Table) (t : Table) :
    update false f (pathOf frames) (plug frames t) = (f t).map (plug frames) := by
  induction frames with
  | nil => simp [pathOf, plug, update]
  | cons g frames ih =>
    obtain ⟨hg, hframes⟩ := List.forall_mem_cons.1 h
    have hfind := find?_named_concat hg
    have hset := set_named_concat hg
    obtain ⟨before, key, closed⟩ := g
    simp only [pathOf, List.map_cons, plug, Frame.item] at hfind hset ih ⊢
    cases closed with
    | none =>
      rw [update, hfind]
      simp only [Bool.false_and, Bool.false_eq_true, if_false, ih hframes, Option.map_map,
        Function.comp_def, hset]
    | some closed =>
      rw [update, hfind]
      simp only [ih hframes, Option.map_map, Function.comp_def, hset]

section

variable {frames : List Frame} {es : List (String × Item)} {key : String}

theorem insert_plug (h : Fresh frames) (hkey : key ∉ es.map (·.1)) (v : Tree) :
    Draft.insert ⟨plug frames (named es), pathOf frames⟩ [] key v =
      some ⟨plug frames (named (es ++ [(key, .value v)])), pathOf frames⟩ := by
  have hinsert : insertValue [] key v (named es) = some (named (es ++ [(key, .value v)])) := by
    rw [insertValue, update, find?_named_of_fresh hkey, set_named_of_fresh hkey]
    rfl
  rw [Draft.insert, update_plug h, hinsert]
  rfl

theorem openTable_plug (h : Fresh frames) (hkey : key ∉ es.map (·.1)) :
    openTable (pathOf frames) key (plug frames (named es)) =
      some (plug (frames ++ [⟨es, key, none⟩]) (named [])) := by
  rw [openTable, update_plug h, find?_named_of_fresh hkey, plug_concat]
  simp only [set_named_of_fresh hkey]
  rfl

theorem openElement_plug_first (h : Fresh frames) (hkey : key ∉ es.map (·.1)) :
    openElement (pathOf frames) key (plug frames (named es)) =
      some (plug (frames ++ [⟨es, key, some []⟩]) (named [])) := by
  rw [openElement, update_plug h, find?_named_of_fresh hkey, plug_concat]
  simp only [set_named_of_fresh hkey]
  rfl

theorem openElement_plug_next (h : Fresh frames) (hkey : key ∉ es.map (·.1)) (closed : List Table)
    (last : Table) :
    openElement (pathOf frames) key (plug (frames ++ [⟨es, key, some closed⟩]) last) =
      some (plug (frames ++ [⟨es, key, some (closed ++ [last])⟩]) (named [])) := by
  rw [plug_concat, openElement, update_plug h, plug_concat]
  simp only [Frame.item, find?_named_concat hkey, set_named_concat hkey]
  rfl

end

/-! ### Lines after lines -/

/-- Reading some lines takes one draft to another, whatever follows the lines. -/
def Reads (d : Draft) (lines : List String) (d' : Draft) : Prop :=
  ∀ fuel rest, readLines (fuel + lines.length) d
    ((lines.flatMap fun l => l.toList ++ ['\n']) ++ rest) = readLines fuel d' rest

theorem Reads.nil (d : Draft) : Reads d [] d := fun _ _ => rfl

theorem Reads.trans {d d' d'' : Draft} {ls ls' : List String} (h : Reads d ls d') (h' : Reads d' ls' d'') :
    Reads d (ls ++ ls') d'' := by
  intro fuel rest
  rw [List.flatMap_append, List.append_assoc, List.length_append, Nat.add_comm ls.length,
    ← Nat.add_assoc, h, h']

/-- A line that does not begin with a space. -/
theorem Reads.line {d d' : Draft} {l : String} (hspace : ∀ r, skipSpaces (l.toList ++ '\n' :: r) =
      l.toList ++ '\n' :: r) (h : ∀ rest, readLine d (l.toList ++ '\n' :: rest) = some (d', rest)) :
    Reads d [l] d' := by
  intro fuel rest
  have hchars : ([l].flatMap fun l => l.toList ++ ['\n']) ++ rest = l.toList ++ '\n' :: rest := by simp
  rw [hchars, List.length_singleton, readLines, hspace]
  split
  · rename_i hnil
    simp at hnil
  · rw [h]
    rfl

theorem Reads.blank (d : Draft) : Reads d [""] d :=
  .line (fun _ => rfl) fun rest => readLine_blank d rest

/-- A blank line before other lines changes nothing. -/
theorem reads_blank_cons {d d' : Draft} {ls : List String} : Reads d ("" :: ls) d' ↔ Reads d ls d' := by
  constructor
  · intro h fuel rest
    have := h fuel rest
    rwa [← List.singleton_append, List.flatMap_append, List.append_assoc, List.length_append,
      Nat.add_comm [""].length, ← Nat.add_assoc, Reads.blank d] at this
  · exact (Reads.blank d).trans

/-! ### Tables that are read back -/

mutual

/-- Tables that are read back as they were, in which tables nest less than `n` deep: all keys are
different and need no quotes, and the fields that are plain values come before the others. -/
inductive Sheet : (n : Nat) → List (String × Tree) → Prop where
  | mk {n : Nat} {plain tabled : List (String × Tree)} (bare : ∀ f ∈ plain ++ tabled, Bare f.1)
      (nodup : ((plain ++ tabled).map (·.1)).Nodup) (values : ∀ f ∈ plain, Plain f.2)
      (headers : ∀ f ∈ tabled, Tabled n f.2) : Sheet (n + 1) (plain ++ tabled)

/-- Values that are written under headers of their own. -/
inductive Tabled : (n : Nat) → Tree → Prop where
  | table {n : Nat} {fields : List (String × Tree)} (h : Sheet n fields) : Tabled n (.table fields)
  | tables {n : Nat} {first : List (String × Tree)} {others : List (List (String × Tree))}
    (h : ∀ fields ∈ first :: others, Sheet n fields) :
    Tabled n (.list ((first :: others).map .table))

end

/-- The lines of some sections, with a blank line before each. -/
def blocks (ss : List Section) : List String := ss.flatMap fun s => "" :: s.header :: s.lines

theorem Plain.hasHeader {v : Tree} (h : Plain v) : hasHeader v = false := by
  cases h <;> rfl

theorem plainLines_append (fs gs : List (String × Tree)) :
    plainLines (fs ++ gs) = plainLines fs ++ plainLines gs := by
  induction fs with
  | nil => rfl
  | cons f fs ih =>
    obtain ⟨key, v⟩ := f
    rw [List.cons_append]
    cases v <;> simp only [plainLines, ih] <;> split <;> rfl

theorem sections_append (path : String) (fs gs : List (String × Tree)) :
    sections path (fs ++ gs) = sections path fs ++ sections path gs := by
  induction fs with
  | nil => rfl
  | cons f fs ih => rw [List.cons_append, sections, sections, ih, List.append_assoc]

theorem plainLines_of_plain {fs : List (String × Tree)} (h : ∀ f ∈ fs, Plain f.2) :
    plainLines fs = fs.map fun f => f.1 ++ " = " ++ inline f.2 := by
  induction fs with
  | nil => rfl
  | cons f fs ih =>
    obtain ⟨hf, hfs⟩ := List.forall_mem_cons.1 h
    obtain ⟨key, v⟩ := f
    have hheader := Plain.hasHeader hf
    rw [List.map_cons, ← ih hfs]
    cases hf <;> simp only [plainLines] <;> rfl

theorem plainLines_of_tabled {n : Nat} {fs : List (String × Tree)} (h : ∀ f ∈ fs, Tabled n f.2) :
    plainLines fs = [] := by
  induction fs with
  | nil => rfl
  | cons f fs ih =>
    obtain ⟨hf, hfs⟩ := List.forall_mem_cons.1 h
    obtain ⟨key, v⟩ := f
    cases hf <;> exact ih hfs

theorem sections_of_plain {path : String} {fs : List (String × Tree)} (h : ∀ f ∈ fs, Plain f.2) :
    sections path fs = [] := by
  induction fs with
  | nil => rfl
  | cons f fs ih =>
    obtain ⟨hf, hfs⟩ := List.forall_mem_cons.1 h
    obtain ⟨key, v⟩ := f
    cases hf <;> exact ih hfs

theorem blocks_append (ss ts : List Section) : blocks (ss ++ ts) = blocks ss ++ blocks ts :=
  List.flatMap_append

theorem blocks_cons (header : String) (lines : List String) (ss : List Section) :
    blocks (⟨header, lines⟩ :: ss) = "" :: header :: (lines ++ blocks ss) := rfl

theorem toFields_append (es es' : List (String × Item)) :
    toFields (es ++ es') = toFields es ++ toFields es' := by
  induction es with
  | nil => rfl
  | cons e es ih => rw [List.cons_append, toFields, toFields, ih, List.cons_append]

theorem map_fst_toFields (es : List (String × Item)) : (toFields es).map (·.1) = es.map (·.1) := by
  induction es with
  | nil => rfl
  | cons e es ih => rw [toFields, List.map_cons, List.map_cons, ih]

theorem toTrees_append (ts ts' : List Table) : toTrees (ts ++ ts') = toTrees ts ++ toTrees ts' := by
  induction ts with
  | nil => rfl
  | cons t ts ih => rw [List.cons_append, toTrees, toTrees, ih, List.cons_append]

section

variable {frames : List Frame} {es : List (String × Item)}

/-- The plain fields of a table are put into it one after the other. -/
theorem reads_plain (es : List (String × Item)) (hfresh : Fresh frames) {fs : List (String × Tree)}
    (hbare : ∀ f ∈ fs, Bare f.1)
    (hnodup : (es.map (·.1) ++ fs.map (·.1)).Nodup) (hvalues : ∀ f ∈ fs, Plain f.2) :
    ∃ items, toFields items = fs ∧ Reads ⟨plug frames (named es), pathOf frames⟩ (plainLines fs)
      ⟨plug frames (named (es ++ items)), pathOf frames⟩ := by
  rw [plainLines_of_plain hvalues]
  induction fs generalizing es with
  | nil => exact ⟨[], rfl, by rw [List.append_nil]; exact .nil _⟩
  | cons f fs ih =>
    obtain ⟨hf, hbare⟩ := List.forall_mem_cons.1 hbare
    obtain ⟨hv, hvalues⟩ := List.forall_mem_cons.1 hvalues
    have hkey : f.1 ∉ es.map (·.1) := fun h =>
      (List.nodup_append.1 hnodup).2.2 _ h _ List.mem_cons_self rfl
    have hline : Reads ⟨plug frames (named es), pathOf frames⟩ [f.1 ++ " = " ++ inline f.2]
        ⟨plug frames (named (es ++ [(f.1, .value f.2)])), pathOf frames⟩ := by
      refine .line (fun r => ?_) fun rest => ?_
      · simpa using skipSpaces_bare hf (" = ".toList ++ (inline f.2).toList ++ '\n' :: r)
      · rw [readLine_field _ hf hv, insert_plug hfresh hkey]
        rfl
    have hnodup' : ((es ++ [(f.1, Item.value f.2)]).map (·.1) ++ fs.map (·.1)).Nodup := by
      simpa using hnodup
    obtain ⟨items, hitems, hreads⟩ := ih _ hbare hnodup' hvalues
    refine ⟨(f.1, .value f.2) :: items, ?_, ?_⟩
    · rw [toFields, hitems]
      rfl
    · rw [List.append_assoc] at hreads
      exact hline.trans hreads

/-- That tables which nest less than `n` deep are read back, wherever their header stands. -/
def ReadsSheets (n : Nat) : Prop :=
  ∀ {frames : List Frame} {fs : List (String × Tree)}, Fresh frames → (∀ k ∈ pathOf frames, Bare k) →
    frames.length + n ≤ nestingLimit → Sheet n fs →
    ∃ items path, toFields items = fs ∧ Reads ⟨plug frames (named []), pathOf frames⟩
      (plainLines fs ++ blocks (sections (dotted (pathOf frames)) fs)) ⟨plug frames (named items), path⟩

theorem reads_element {path : List String} {key : String} (hpath : ∀ k ∈ path, Bare k) (hbare : Bare key)
    (hlimit : path.length < nestingLimit) {t t' : Table} (hopen : openElement path key t = some t')
    (current : List String) :
    Reads ⟨t, current⟩ ["[[" ++ dotted (path ++ [key]) ++ "]]"] ⟨t', path ++ [key]⟩ := by
  refine .line (fun r => ?_) fun rest => ?_
  · simp [skipSpaces, isSpace]
  · rw [readLine_element _ hpath hbare hlimit, hopen]
    rfl

variable {n : Nat} {key : String} (hfresh : Fresh frames) (hpath : ∀ k ∈ pathOf frames, Bare k)
  (hlimit : frames.length + (n + 1) ≤ nestingLimit) (hbare : Bare key) (hkey : key ∉ es.map (·.1))

include hfresh hpath hlimit hbare hkey

/-- A header opens a table at the end of the one around it. -/
theorem reads_header (current : List String) :
    Reads ⟨plug frames (named es), current⟩ ["[" ++ dotted (pathOf frames ++ [key]) ++ "]"]
      ⟨plug (frames ++ [⟨es, key, none⟩]) (named []), pathOf frames ++ [key]⟩ := by
  refine .line (fun r => ?_) fun rest => ?_
  · simp [skipSpaces, isSpace]
  · rw [readLine_header _ hpath hbare (by simp [pathOf]; omega), openTable_plug hfresh hkey]
    rfl

variable (ih : ReadsSheets n)

include ih

/-- What stands under a header is read into the table that the header has opened. -/
theorem reads_under (closed : Option (List Table)) {fs : List (String × Tree)} (h : Sheet n fs) :
    ∃ items path, toFields items = fs ∧
      Reads ⟨plug (frames ++ [⟨es, key, closed⟩]) (named []), pathOf frames ++ [key]⟩
        (plainLines fs ++ blocks (sections (dotted (pathOf frames ++ [key])) fs))
        ⟨plug (frames ++ [⟨es, key, closed⟩]) (named items), path⟩ := by
  have hframes := hfresh.concat (f := ⟨es, key, closed⟩) hkey
  have hkeys : ∀ k ∈ pathOf (frames ++ [⟨es, key, closed⟩]), Bare k := by
    rw [pathOf_concat]
    exact List.forall_mem_append.2 ⟨hpath, List.forall_mem_singleton.2 hbare⟩
  have hdepth : (frames ++ [(⟨es, key, closed⟩ : Frame)]).length + n ≤ nestingLimit := by
    rw [List.length_append, List.length_singleton]
    omega
  obtain ⟨items, path, hitems, hreads⟩ := ih hframes hkeys hdepth h
  rw [pathOf_concat] at hreads
  exact ⟨items, path, hitems, hreads⟩

/-- The tables of an array follow each other, and every one closes the one before it. -/
theorem reads_elements {others : List (List (String × Tree))} (h : ∀ fs ∈ others, Sheet n fs)
    (closed : List Table) (last : Table) (current : List String) :
    ∃ closed' last' path, toTrees (closed' ++ [last']) =
        toTrees (closed ++ [last]) ++ others.map .table ∧
      Reads ⟨plug (frames ++ [⟨es, key, some closed⟩]) last, current⟩
        (blocks (elementSections (dotted (pathOf frames ++ [key])) (others.map .table)))
        ⟨plug (frames ++ [⟨es, key, some closed'⟩]) last', path⟩ := by
  induction others generalizing closed last current with
  | nil => exact ⟨closed, last, current, by simp, .nil _⟩
  | cons fs others ihrest =>
    obtain ⟨hfs, hothers⟩ := List.forall_mem_cons.1 h
    have hheader := reads_element hpath hbare (by simp [pathOf]; omega)
      (openElement_plug_next hfresh hkey closed last) current
    obtain ⟨items, path, hitems, hunder⟩ :=
      reads_under hfresh hpath hlimit hbare hkey ih (some (closed ++ [last])) hfs
    obtain ⟨closed', last', path', htrees, hrest⟩ :=
      ihrest hothers (closed ++ [last]) (named items) path
    refine ⟨closed', last', path', ?_, ?_⟩
    · rw [htrees, toTrees_append _ [named items], List.append_assoc]
      simp [toTrees, named, toTree, hitems]
    · rw [List.map_cons, elementSections, blocks_append, blocks_cons, List.cons_append, reads_blank_cons]
      exact (hheader.trans hunder).trans hrest

/-- A field under headers of its own is put at the end of its table. -/
theorem reads_tabled {v : Tree} (h : Tabled n v) (current : List String) :
    ∃ item path, Item.toTree item = v ∧ Reads ⟨plug frames (named es), current⟩
      (blocks (fieldSections (dotted (pathOf frames ++ [key])) v))
      ⟨plug frames (named (es ++ [(key, item)])), path⟩ := by
  cases h with
  | table h =>
    rename_i fs
    have hheader := reads_header hfresh hpath hlimit hbare hkey current
    obtain ⟨items, path, hitems, hunder⟩ :=
      reads_under hfresh hpath hlimit hbare hkey ih none h
    refine ⟨.table (named items), path, ?_, ?_⟩
    · rw [Item.toTree, named, toTree, hitems]
    · rw [fieldSections, blocks_cons, reads_blank_cons]
      have := hheader.trans hunder
      rw [plug_concat frames _ (named items)] at this
      exact this
  | tables h =>
    rename_i first others
    obtain ⟨hfirst, hothers⟩ := List.forall_mem_cons.1 h
    have hheader := reads_element hpath hbare (by simp [pathOf]; omega)
      (openElement_plug_first hfresh hkey) current
    obtain ⟨items, path, hitems, hunder⟩ :=
      reads_under hfresh hpath hlimit hbare hkey ih (some []) hfirst
    obtain ⟨closed, last, path', htrees, hrest⟩ :=
      reads_elements hfresh hpath hlimit hbare hkey ih hothers [] (named items) path
    refine ⟨.tables closed last, path', ?_, ?_⟩
    · have hall : toTrees (closed ++ [last]) = (first :: others).map .table := by
        rw [htrees]
        simp [toTrees, named, toTree, hitems]
      rw [toTrees_append] at hall
      rw [Item.toTree, ← hall]
      rfl
    · rw [fieldSections, List.map_cons, elementSections, blocks_append, blocks_cons, List.cons_append,
        reads_blank_cons]
      have := (hheader.trans hunder).trans hrest
      rw [plug_concat frames _ last] at this
      exact this

omit hbare hkey in
theorem reads_all_tabled {fs : List (String × Tree)} (hbares : ∀ f ∈ fs, Bare f.1)
    (hnodup : (es.map (·.1) ++ fs.map (·.1)).Nodup) (h : ∀ f ∈ fs, Tabled n f.2) (current : List String) :
    ∃ items path, toFields items = fs ∧ Reads ⟨plug frames (named es), current⟩
      (blocks (sections (dotted (pathOf frames)) fs)) ⟨plug frames (named (es ++ items)), path⟩ := by
  induction fs generalizing es current with
  | nil => exact ⟨[], current, rfl, by rw [List.append_nil]; exact .nil _⟩
  | cons f fs ihrest =>
    obtain ⟨hf, hbares⟩ := List.forall_mem_cons.1 hbares
    obtain ⟨hv, hvs⟩ := List.forall_mem_cons.1 h
    have hkey : f.1 ∉ es.map (·.1) := fun h =>
      (List.nodup_append.1 hnodup).2.2 _ h _ List.mem_cons_self rfl
    obtain ⟨item, path, hitem, hfirst⟩ := reads_tabled hfresh hpath hlimit hf hkey ih hv current
    have hnodup' : ((es ++ [(f.1, item)]).map (·.1) ++ fs.map (·.1)).Nodup := by
      simpa using hnodup
    obtain ⟨items, path', hitems, hrest⟩ := ihrest hbares hnodup' hvs path
    refine ⟨(f.1, item) :: items, path', ?_, ?_⟩
    · rw [toFields, hitem, hitems]
    · rw [List.append_assoc] at hrest
      rw [sections, blocks_append, nested_dotted hpath]
      exact hfirst.trans hrest

end

/-- Tables are read back however deep they nest, up to the limit. -/
theorem readsSheets (n : Nat) : ReadsSheets n := by
  induction n with
  | zero =>
    intro frames fs _ _ _ h
    cases h
  | succ n ih =>
    intro frames fs hfresh hpath hlimit h
    cases h with
    | mk hbare hnodup hvalues hheaders =>
      rename_i plain tabled
      obtain ⟨hbares, hbares'⟩ := List.forall_mem_append.1 hbare
      rw [List.map_append] at hnodup
      obtain ⟨items, hitems, hplain⟩ :=
        reads_plain [] hfresh hbares (List.nodup_append.1 hnodup).1 hvalues
      have hnodup' : (items.map (·.1) ++ tabled.map (·.1)).Nodup := by
        rwa [← map_fst_toFields, hitems]
      obtain ⟨items', path, hitems', htabled⟩ :=
        reads_all_tabled hfresh hpath hlimit ih hbares' hnodup' hheaders (pathOf frames)
      refine ⟨items ++ items', path, ?_, ?_⟩
      · rw [toFields_append, hitems, hitems']
      · rw [plainLines_append, plainLines_of_tabled hheaders, List.append_nil, sections_append,
          sections_of_plain hvalues, List.nil_append]
        exact hplain.trans htabled

/-! ### Documents -/

/-- What is written for sections that follow other lines. -/
theorem foldl_sections {lines : List String} (h : lines ≠ []) (ss : List Section) :
    ss.foldl (fun lines s => lines ++ (if lines.isEmpty then [] else [""]) ++ s.header :: s.lines) lines =
      lines ++ blocks ss := by
  induction ss generalizing lines with
  | nil => simp [blocks]
  | cons s ss ih =>
    have hfull : lines.isEmpty = false := by simpa using h
    rw [List.foldl_cons, hfull, ih (by simp)]
    simp [blocks]

theorem reads_foldl_sections {d d' : Draft} {lines : List String} {ss : List Section}
    (h : Reads d (lines ++ blocks ss) d') :
    Reads d (ss.foldl
      (fun lines s => lines ++ (if lines.isEmpty then [] else [""]) ++ s.header :: s.lines) lines) d' := by
  by_cases hlines : lines = []
  · subst hlines
    cases ss with
    | nil => exact h
    | cons s ss =>
      rw [List.nil_append, blocks_cons, reads_blank_cons] at h
      rw [List.foldl_cons, foldl_sections (by simp)]
      exact h
  · rw [foldl_sections hlines]
    exact h

theorem fieldsWritable_iff {fs : List (String × Tree)} :
    fieldsWritable fs = true ↔ ∀ f ∈ fs, isWritable f.2 = true := by
  induction fs with
  | nil => simp [fieldsWritable]
  | cons f fs ih => rw [fieldsWritable, Bool.and_eq_true, ih, List.forall_mem_cons]

theorem allWritable_iff {vs : List Tree} : allWritable vs = true ↔ ∀ v ∈ vs, isWritable v = true := by
  induction vs with
  | nil => simp [allWritable]
  | cons v vs ih => rw [allWritable, Bool.and_eq_true, ih, List.forall_mem_cons]

theorem Plain.writable {v : Tree} (h : Plain v) : isWritable v = true := by
  cases h with
  | text | boolean | noItems => rfl
  | count n h =>
    have hmin : Int64.minValue.toInt ≤ (n : Int) := by
      have : Int64.minValue.toInt ≤ 0 := by decide
      omega
    simp only [isWritable, hmin, h, decide_true, Bool.and_self]

/-- Tables that are read back can be written. -/
theorem Sheet.writable {n : Nat} {fs : List (String × Tree)} (h : Sheet n fs) :
    fieldsWritable fs = true := by
  induction n generalizing fs with
  | zero => cases h
  | succ n ih =>
    cases h with
    | mk _ _ hvalues hheaders =>
      rw [fieldsWritable_iff]
      refine List.forall_mem_append.2 ⟨fun f hf => (hvalues f hf).writable, fun f hf => ?_⟩
      have htabled := hheaders f hf
      generalize f.2 = v at htabled
      cases htabled with
      | table h => exact ih h
      | tables h =>
        rw [isWritable, allWritable_iff, List.forall_mem_map]
        exact fun fields hfields => ih (h fields hfields)

/-- Plain values are written before the tables, wherever they stand among them. -/
theorem write_swap {n : Nat} {plain tabled : List (String × Tree)} (hplain : ∀ f ∈ plain, Plain f.2)
    (htabled : ∀ f ∈ tabled, Tabled n f.2) : write (tabled ++ plain) = write (plain ++ tabled) := by
  have hwritable : fieldsWritable (tabled ++ plain) = fieldsWritable (plain ++ tabled) := by
    rw [Bool.eq_iff_iff, fieldsWritable_iff, fieldsWritable_iff, List.forall_mem_append,
      List.forall_mem_append, and_comm]
  have hlines : plainLines (tabled ++ plain) = plainLines (plain ++ tabled) := by
    rw [plainLines_append, plainLines_append, plainLines_of_tabled htabled, List.append_nil,
      List.nil_append]
  have hsections : sections "" (tabled ++ plain) = sections "" (plain ++ tabled) := by
    rw [sections_append, sections_append, sections_of_plain hplain, List.append_nil, List.nil_append]
  rw [write, write, hwritable, hlines, hsections]

/-- No document begins with a byte order mark. -/
theorem readLines_mark (fuel : Nat) (d : Draft) (r : List Char) :
    readLines (fuel + 1) d ('\uFEFF' :: r) = none := by
  rfl

theorem read_of_no_mark {s : String} (h : ∀ r, s.toList ≠ '\uFEFF' :: r) :
    read s = (readLines (s.toList.length + 1) {} s.toList).map fun d => d.tables.toTree := by
  unfold read
  generalize s.toList = cs at h
  split
  · exact absurd rfl (h _)
  · rfl

theorem length_le_chars (lines : List String) :
    lines.length ≤ (lines.flatMap fun l => l.toList ++ ['\n']).length := by
  induction lines with
  | nil => exact Nat.le_refl 0
  | cons l lines ih =>
    rw [List.flatMap_cons, List.length_append, List.length_append, List.length_cons, List.length_singleton]
    omega

/-- The tree of the draft to which the lines of a document lead. -/
theorem read_of_reads {lines : List String} {d : Draft} (h : Reads {} lines d) :
    read (String.join (lines.map (· ++ "\n"))) = some d.tables.toTree := by
  let cs := lines.flatMap fun l => l.toList ++ ['\n']
  have hchars : (String.join (lines.map (· ++ "\n"))).toList = cs := by
    simp [cs, String.toList_join, List.flatMap_map]
  have hread : readLines (cs.length + 1) {} cs = some d := by
    have hfuel : cs.length + 1 = (cs.length - lines.length + 1) + lines.length := by
      have : lines.length ≤ cs.length := length_le_chars lines
      omega
    have := h (cs.length - lines.length + 1) []
    rw [List.append_nil] at this
    rw [hfuel]
    exact this
  have hmark : ∀ r, cs ≠ '\uFEFF' :: r := by
    intro r hr
    rw [hr, readLines_mark] at hread
    cases hread
  rw [read_of_no_mark (hchars ▸ hmark), hchars, hread, Option.map_some]

/-- **A document is read back as the table that was written.** -/
theorem read_write {n : Nat} {fs : List (String × Tree)} (h : Sheet n fs) (hn : n ≤ nestingLimit) :
    ∃ text, write fs = some text ∧ read text = some (.table fs) := by
  obtain ⟨items, path, hitems, hreads⟩ :=
    readsSheets n (show Fresh [] by simp [Fresh]) (by simp [pathOf]) (by simpa using hn) h
  refine ⟨_, by rw [write, if_pos h.writable], ?_⟩
  change Reads {} (plainLines fs ++ blocks (sections "" fs)) _ at hreads
  rw [read_of_reads (reads_foldl_sections hreads), ← hitems]
  rfl

end ShardFleet.Toml
