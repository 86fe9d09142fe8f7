import RelayLadder.Listing.Row
import Mathlib.Data.List.DropRight

/-! # Reading written records back

A listing is written as records, one to a line, and read back by splitting the text at line
ends, reading each line as a record and trimming its fields. A field survives this trip when
it holds no line break and has no blank at either end: the writer quotes what needs quotes,
the reader undoes the quoting and trims nothing. Every line that a program writes is made of
such fields, so the text of a listing reads back as exactly the records it was written from.
-/

namespace RelayLadder

namespace Text

/-! ## Trimming -/

theorem trimChars_eq_rdropWhile (cs : List Char) :
    trimChars cs = (cs.dropWhile isBlank).rdropWhile isBlank := rfl

theorem trimChars_eq_self {cs : List Char} (hhead : ∀ c ∈ cs.head?, isBlank c = false)
    (hlast : ∀ c ∈ cs.getLast?, isBlank c = false) : trimChars cs = cs := by
  have hfront : cs.dropWhile isBlank = cs := by
    cases cs with
    | nil => rfl
    | cons c cs => exact List.dropWhile_cons_of_neg (by simpa using hhead c rfl)
  have hback : cs.reverse.dropWhile isBlank = cs.reverse := by
    cases h : cs.reverse with
    | nil => rfl
    | cons c cs' =>
      have : c ∈ cs.getLast? := by rw [← List.head?_reverse, h]; rfl
      exact List.dropWhile_cons_of_neg (by simpa using hlast c this)
  rw [trimChars, hfront, hback, List.reverse_reverse]

/-- The first character that trimming keeps is not blank. -/
theorem head_dropWhile_isBlank (cs : List Char) :
    ∀ x ∈ (cs.dropWhile isBlank).head?, isBlank x = false := by
  intro x hx
  have := List.head?_dropWhile_not isBlank cs
  rw [Option.mem_def.mp hx] at this
  exact this

/-- Trimming leaves a text that starts with a character that is not blank: trimming the back
keeps a prefix of the front. -/
theorem head_trimChars (cs : List Char) : ∀ x ∈ (trimChars cs).head?, isBlank x = false := by
  intro x hx
  obtain ⟨rest, hrest⟩ := List.rdropWhile_prefix (p := isBlank) (l := cs.dropWhile isBlank)
  rw [trimChars_eq_rdropWhile] at hx
  cases hy : (cs.dropWhile isBlank).rdropWhile isBlank with
  | nil => simp [hy] at hx
  | cons y ys =>
    rw [hy] at hx
    obtain rfl : y = x := by simpa using hx
    have hfy : (cs.dropWhile isBlank).head? = some y := by rw [← hrest, hy]; rfl
    exact head_dropWhile_isBlank cs y hfy

theorem trimChars_trimChars (cs : List Char) : trimChars (trimChars cs) = trimChars cs := by
  have hkeep : (trimChars cs).dropWhile isBlank = trimChars cs := by
    cases hy : trimChars cs with
    | nil => rfl
    | cons y ys =>
      exact List.dropWhile_cons_of_neg (by simpa using head_trimChars cs y (by simp [hy]))
  rw [trimChars_eq_rdropWhile (trimChars cs), hkeep, trimChars_eq_rdropWhile cs,
    List.rdropWhile_idempotent]

theorem trim_trim (s : String) : trim (trim s) = trim s := by
  simp [trim, trimChars_trimChars]

theorem mem_of_mem_trimChars {cs : List Char} {c : Char} (h : c ∈ trimChars cs) : c ∈ cs := by
  rw [trimChars_eq_rdropWhile] at h
  obtain ⟨rest, hrest⟩ := List.rdropWhile_prefix (p := isBlank) (l := cs.dropWhile isBlank)
  have h' : c ∈ cs.dropWhile isBlank := hrest ▸ List.mem_append_left _ h
  exact (List.dropWhile_suffix isBlank).subset h'

/-- A field that reads back as written: it holds no line break and no blank at either end. -/
structure Clean (f : String) : Prop where
  no_break : ∀ c ∈ f.toList, Delimited.Reader.isLineBreak c = false
  trim_eq : trim f = f

end Text

/-! ## Records -/

namespace Text.Delimited

namespace Reader

/-- The reader has read the fields `acc` and then the field `f`, which is still open. -/
structure Pending (r : Reader) (acc : List String) (f : String) : Prop where
  fields_eq : r.fields = acc
  field_eq : r.field = f.toList
  place_eq : r.place = .unquoted ∨ r.place = .quoteInQuoted ∨
    f = "" ∧ (r.place = .fieldStart ∨ r.place = .recordStart)

/-- Inside quotes every character is kept, a quote being written twice. -/
theorem foldlM_feed_quoted (pre : List Char) (acc : List String) (cs : List Char) :
    (cs.flatMap fun c => if c == '"' then ['"', '"'] else [c]).foldlM feed ⟨.quoted, pre, acc⟩ =
      some ⟨.quoted, pre ++ cs, acc⟩ := by
  induction cs generalizing pre with
  | nil => simp
  | cons c cs ih =>
    by_cases hc : c = '"'
    · subst hc
      simpa [feed, add] using ih (pre ++ ['"'])
    · simpa [hc, feed, add] using ih (pre ++ [c])

/-- Outside quotes every character up to a comma or a line break is kept. -/
theorem foldlM_feed_unquoted (pre : List Char) (acc : List String) (cs : List Char)
    (hcs : ∀ c ∈ cs, isLineBreak c = false ∧ c ≠ ',') :
    cs.foldlM feed ⟨.unquoted, pre, acc⟩ = some ⟨.unquoted, pre ++ cs, acc⟩ := by
  induction cs generalizing pre with
  | nil => simp
  | cons c cs ih =>
    obtain ⟨hbreak, hcomma⟩ := hcs c List.mem_cons_self
    have hrest := ih (pre ++ [c]) fun d hd => hcs d (List.mem_cons_of_mem _ hd)
    simp [feed, hbreak, hcomma, add, hrest]

theorem needsQuotes_eq_false {f : String} (h : needsQuotes f = false) :
    ∀ c ∈ f.toList, c ≠ ',' ∧ c ≠ '"' ∧ c ≠ '\n' := by
  intro c hc
  have := List.any_eq_false.mp h c hc
  simp only [Bool.or_eq_true, beq_iff_eq, not_or] at this
  exact ⟨this.1.1, this.1.2, this.2⟩

/-- A written field read from the start of a field is read whole and left open. -/
theorem foldlM_feed_writeField {p : Place} (hp : p = .fieldStart ∨ p = .recordStart)
    (acc : List String) {f : String} (hf : Clean f) :
    ∃ r, (writeField f).toList.foldlM feed ⟨p, [], acc⟩ = some r ∧ r.Pending acc f ∧
      (r.place = .recordStart → p = .recordStart) := by
  have hstart : ∀ c, isLineBreak c = false → feed ⟨p, [], acc⟩ c = some (atFieldStart ⟨p, [], acc⟩ c) := by
    intro c hc
    rcases hp with rfl | rfl <;> simp [feed, hc]
  cases hq : needsQuotes f with
  | true =>
    -- a quote opens the field, the characters follow, a quote closes it
    refine ⟨⟨.quoteInQuoted, f.toList, acc⟩, ?_, ⟨rfl, rfl, .inr (.inl rfl)⟩, by simp⟩
    have hopen : atFieldStart ⟨p, [], acc⟩ '"' = ⟨.quoted, [], acc⟩ := by
      simp [atFieldStart, isLineBreak]
    simp only [writeField, hq, if_true, String.toList_ofList]
    rw [List.foldlM_append, List.foldlM_cons, hstart '"' (by decide), hopen]
    simp only [Option.bind_eq_bind, Option.bind_some, foldlM_feed_quoted, List.nil_append,
      List.foldlM_cons, List.foldlM_nil]
    rfl
  | false =>
    have hplain := needsQuotes_eq_false hq
    rw [writeField_plain hq]
    cases hcs : f.toList with
    | nil =>
      refine ⟨⟨p, [], acc⟩, rfl, ⟨rfl, hcs.symm, .inr (.inr ⟨?_, hp⟩)⟩, fun h => h⟩
      exact String.toList_eq_nil_iff.mp hcs
    | cons c cs =>
      have hc := hplain c (hcs ▸ List.mem_cons_self)
      have hcb := hf.no_break c (hcs ▸ List.mem_cons_self)
      -- the first character is not a blank, as the field is trimmed
      have hsp : c ≠ ' ' := by
        have htrim : trimChars (c :: cs) = c :: cs := by
          simpa [trim, hcs] using congrArg String.toList hf.trim_eq
        have := head_trimChars (c :: cs) c (by rw [htrim]; rfl)
        intro hsp
        rw [hsp] at this
        exact absurd this (by decide)
      refine ⟨⟨.unquoted, c :: cs, acc⟩, ?_, ⟨rfl, hcs.symm, .inl rfl⟩, by simp⟩
      rw [List.foldlM_cons, hstart c hcb]
      have hfirst : atFieldStart ⟨p, [], acc⟩ c = ⟨.unquoted, [c], acc⟩ := by
        simp [atFieldStart, hcb, hc.1, hc.2.1, hsp, add]
      rw [hfirst]
      simpa using foldlM_feed_unquoted [c] acc cs fun d hd =>
        ⟨hf.no_break d (hcs ▸ List.mem_cons_of_mem _ hd), (hplain d (hcs ▸ List.mem_cons_of_mem _ hd)).1⟩

theorem Pending.feed_comma {r : Reader} {acc : List String} {f : String} (h : r.Pending acc f) :
    r.feed ',' = some ⟨.fieldStart, [], acc ++ [f]⟩ := by
  obtain ⟨place, field, fields⟩ := r
  obtain ⟨hfields, hfield, hp⟩ := h
  simp only at hfields hfield hp
  subst hfields hfield
  rcases hp with rfl | rfl | ⟨rfl, rfl | rfl⟩ <;> simp [feed, atFieldStart, isLineBreak, save]

theorem Pending.finish_eq {r : Reader} {acc : List String} {f : String} (h : r.Pending acc f)
    (hp : r.place ≠ .recordStart) : r.finish = acc ++ [f] := by
  obtain ⟨place, field, fields⟩ := r
  obtain ⟨hfields, hfield, hplace⟩ := h
  simp only at hfields hfield hplace hp
  subst hfields hfield
  rcases hplace with rfl | rfl | ⟨rfl, rfl | rfl⟩
  · simp [finish, save]
  · simp [finish, save]
  · simp [finish, save]
  · exact absurd rfl hp

/-- The fields after the first, each written after a comma, are read one after another; the
record is whole once the line ends. -/
theorem foldlM_feed_fields (fs : List String) (hfs : ∀ g ∈ fs, Text.Clean g) :
    ∀ (r : Reader) (acc : List String) (f : String), r.Pending acc f →
      (fs = [] → r.place ≠ .recordStart) →
      ∃ r', (fs.flatMap fun g => ',' :: (writeField g).toList).foldlM feed r = some r' ∧
        r'.finish = acc ++ f :: fs := by
  induction fs with
  | nil => exact fun r acc f h hp => ⟨r, rfl, h.finish_eq (hp rfl)⟩
  | cons g gs ih =>
    intro r acc f h _
    obtain ⟨r₁, hr₁, hpend, hplace⟩ :=
      foldlM_feed_writeField (.inl rfl) (acc ++ [f]) (hfs g List.mem_cons_self)
    obtain ⟨r', hr', hfin⟩ := ih (fun g' hg' => hfs g' (List.mem_cons_of_mem _ hg')) r₁ _ g
      hpend fun _ hstart => by simpa using hplace hstart
    refine ⟨r', ?_, by simpa using hfin⟩
    rw [List.flatMap_cons, List.foldlM_append, List.foldlM_cons, h.feed_comma]
    simp only [Option.bind_eq_bind, Option.bind_some, hr₁, hr']

end Reader

theorem intercalate_singleton_cons {α : Type} (x : α) (a : List α) (l : List (List α)) :
    [x].intercalate (a :: l) = a ++ l.flatMap (x :: ·) := by
  induction l generalizing a with
  | nil => simp
  | cons b l ih => rw [List.intercalate_cons_cons, ih]; simp

theorem mem_intercalate_singleton {α : Type} {x c : α} {ls : List (List α)}
    (h : c ∈ [x].intercalate ls) : c = x ∨ ∃ l ∈ ls, c ∈ l := by
  cases ls with
  | nil => simp at h
  | cons a l =>
    rw [intercalate_singleton_cons] at h
    rcases List.mem_append.mp h with h | h
    · exact .inr ⟨a, List.mem_cons_self, h⟩
    · obtain ⟨b, hb, hcb⟩ := List.mem_flatMap.mp h
      rcases List.mem_cons.mp hcb with rfl | hcb
      · exact .inl rfl
      · exact .inr ⟨b, List.mem_cons_of_mem _ hb, hcb⟩

/-- A record of at least two fields, each without a line break or a blank at either end,
reads back as its fields. -/
theorem readLine_writeRecord {f : String} {fs : List String} (hfs : fs ≠ [])
    (hclean : ∀ g ∈ f :: fs, Text.Clean g) : readLine (writeRecord (f :: fs)) = .ok (f :: fs) := by
  have hchars : (writeRecord (f :: fs)).toList =
      (writeField f).toList ++ fs.flatMap fun g => ',' :: (writeField g).toList := by
    rw [writeRecord, String.toList_intercalate, List.map_map, List.map_cons,
      show ",".toList = [','] from rfl, intercalate_singleton_cons, List.flatMap_map]
    rfl
  obtain ⟨r₀, hr₀, hpend, -⟩ := Reader.foldlM_feed_writeField (.inr rfl) [] (hclean f List.mem_cons_self)
  obtain ⟨r, hr, hfin⟩ := Reader.foldlM_feed_fields fs (fun g hg => hclean g (List.mem_cons_of_mem _ hg))
    r₀ [] f hpend fun h => absurd h hfs
  have hfeed : (writeRecord (f :: fs)).toList.foldlM Reader.feed Reader.start = some r := by
    rw [hchars, List.foldlM_append]
    simp only [Reader.start, hr₀, Option.bind_eq_bind, Option.bind_some, hr]
  simp [readLine, hfeed, hfin]

theorem mem_writeField {f : String} {c : Char} (h : c ∈ (writeField f).toList) :
    c ∈ f.toList ∨ c = '"' := by
  unfold writeField at h
  split at h
  · simp only [String.toList_ofList, List.mem_cons, List.mem_append, List.mem_flatMap] at h
    rcases h with (rfl | ⟨d, hd, hcd⟩) | h
    · exact .inr rfl
    · split at hcd
      · simp only [List.mem_cons, List.not_mem_nil, or_false] at hcd
        rcases hcd with rfl | rfl <;> exact .inr rfl
      · obtain rfl := List.mem_singleton.mp hcd
        exact .inl hd
    · exact .inr (by simpa using h)
  · exact .inl h

/-- A written record holds the characters of its fields, commas and quotes. -/
theorem mem_writeRecord {fs : List String} {c : Char} (h : c ∈ (writeRecord fs).toList) :
    (∃ f ∈ fs, c ∈ f.toList) ∨ c = ',' ∨ c = '"' := by
  rw [writeRecord, String.toList_intercalate] at h
  rcases mem_intercalate_singleton h with h | ⟨l, hl, hc⟩
  · exact .inr (.inl h)
  · simp only [List.map_map, List.mem_map, Function.comp_apply] at hl
    obtain ⟨f, hf, rfl⟩ := hl
    rcases mem_writeField hc with hc | hc
    · exact .inl ⟨f, hf, hc⟩
    · exact .inr (.inr hc)

namespace Reader

/-- Every character that the reader keeps, in the open field and in the fields read, is one of
`cs`. -/
def Within (r : Reader) (cs : List Char) : Prop :=
  (∀ c ∈ r.field, c ∈ cs) ∧ ∀ f ∈ r.fields, ∀ c ∈ f.toList, c ∈ cs

variable {r r' : Reader} {cs : List Char}

theorem Within.save (h : r.Within cs) (p : Place) : (r.save p).Within cs := by
  refine ⟨by simp [Reader.save], fun f hf c hc => ?_⟩
  simp only [Reader.save, List.mem_append, List.mem_singleton] at hf
  rcases hf with hf | rfl
  · exact h.2 f hf c hc
  · exact h.1 c (by simpa using hc)

theorem Within.add (h : r.Within cs) (p : Place) {c : Char} (hc : c ∈ cs) :
    (r.add p c).Within cs := by
  refine ⟨fun d hd => ?_, h.2⟩
  simp only [Reader.add, List.mem_append, List.mem_singleton] at hd
  rcases hd with hd | rfl
  · exact h.1 d hd
  · exact hc

theorem Within.atFieldStart (h : r.Within cs) {c : Char} (hc : c ∈ cs) :
    (r.atFieldStart c).Within cs := by
  unfold Reader.atFieldStart
  split_ifs
  · exact h.save _
  · exact h
  · exact h
  · exact h.save _
  · exact h.add _ hc

/-- Reading a character keeps within the characters read. -/
theorem Within.feed (h : r.Within cs) {c : Char} (hc : c ∈ cs) (hr : r.feed c = some r') :
    r'.Within cs := by
  unfold Reader.feed at hr
  split at hr
  · split_ifs at hr
    · obtain rfl := Option.some.inj hr
      exact h
    · obtain rfl := Option.some.inj hr
      exact h.atFieldStart hc
  · obtain rfl := Option.some.inj hr
    exact h.atFieldStart hc
  · split_ifs at hr <;> obtain rfl := Option.some.inj hr
    · exact h.save _
    · exact h.save _
    · exact h.add _ hc
  · split_ifs at hr <;> obtain rfl := Option.some.inj hr
    · exact h
    · exact h.add _ hc
  · split_ifs at hr <;> obtain rfl := Option.some.inj hr
    · exact h.add _ hc
    · exact h.save _
    · exact h.save _
    · exact h.add _ hc
  · -- after a line break only further line breaks are read
    split_ifs at hr
    obtain rfl := Option.some.inj hr
    exact h

theorem Within.foldlM_feed (h : r.Within cs) {l : List Char} (hl : ∀ c ∈ l, c ∈ cs)
    (hr : l.foldlM Reader.feed r = some r') : r'.Within cs := by
  induction l generalizing r with
  | nil =>
    obtain rfl := Option.some.inj hr
    exact h
  | cons c l ih =>
    rw [List.foldlM_cons] at hr
    obtain ⟨r₁, h₁, hr⟩ := Option.bind_eq_some_iff.mp hr
    exact ih (h.feed (hl c List.mem_cons_self) h₁) (fun d hd => hl d (List.mem_cons_of_mem _ hd)) hr

theorem Within.finish (h : r.Within cs) : ∀ f ∈ r.finish, ∀ c ∈ f.toList, c ∈ cs := by
  unfold Reader.finish
  split
  · exact h.2
  · exact h.2
  all_goals exact (h.save _).2

end Reader

/-- The fields of a line are made of its characters. -/
theorem mem_of_readLine {s : String} {fs : List String} (h : readLine s = .ok fs) :
    ∀ f ∈ fs, ∀ c ∈ f.toList, c ∈ s.toList := by
  unfold readLine at h
  split at h
  · rename_i r hr
    obtain rfl : r.finish = fs := by simpa using h
    have hstart : Reader.start.Within s.toList := ⟨by simp [Reader.start], by simp [Reader.start]⟩
    exact (Reader.Within.foldlM_feed hstart (fun c hc => hc) hr).finish
  · simp at h

end Text.Delimited

/-! ## Lines -/

theorem unifyLineEnds_of_forall {cs : List Char} (h : ∀ c ∈ cs, c ≠ '\r') :
    unifyLineEnds cs = cs := by
  induction cs with
  | nil => rfl
  | cons c cs ih =>
    have hc := h c List.mem_cons_self
    have hstep : unifyLineEnds (c :: cs) = c :: unifyLineEnds cs := by
      cases cs <;> simp [unifyLineEnds, hc]
    rw [hstep, ih fun d hd => h d (List.mem_cons_of_mem _ hd)]

/-- Lines each ended by a separator are the lines, and an empty one after them, joined by it. -/
theorem flatten_map_append_singleton {α : Type} (ls : List (List α)) (x : α) :
    (ls.map (· ++ [x])).flatten = [x].intercalate (ls ++ [[]]) := by
  induction ls with
  | nil => simp
  | cons l ls ih =>
    rw [List.map_cons, List.flatten_cons, ih, List.cons_append,
      List.intercalate_cons_of_ne_nil (by simp), List.append_assoc]

/-- No piece of a split holds the separator. -/
theorem not_mem_of_mem_splitOn {α : Type} [BEq α] [LawfulBEq α] {x : α} :
    ∀ {l w : List α}, w ∈ l.splitOn x → x ∉ w
  | [], w, hw => by
    simp only [List.splitOn_nil, List.mem_singleton] at hw
    simp [hw]
  | y :: ys, w, hw => by
    rw [List.splitOn, List.splitOnP_cons_eq_if_modifyHead] at hw
    split_ifs at hw with hy
    · rcases List.mem_cons.mp hw with rfl | hw
      · simp
      · exact not_mem_of_mem_splitOn hw
    · obtain ⟨r, rs, hr⟩ := List.exists_cons_of_ne_nil (List.splitOnP_ne_nil (· == x) ys)
      rw [hr, List.modifyHead_cons] at hw
      rcases List.mem_cons.mp hw with rfl | hw
      · intro hx
        rcases List.mem_cons.mp hx with rfl | hx
        · simp at hy
        · exact not_mem_of_mem_splitOn (l := ys) (by rw [List.splitOn, hr]; exact List.mem_cons_self) hx
      · exact not_mem_of_mem_splitOn (l := ys) (by rw [List.splitOn, hr]; exact List.mem_cons_of_mem _ hw)

theorem mem_intercalate_of_mem {α : Type} (x : α) {ls : List (List α)} {w : List α} {c : α}
    (hw : w ∈ ls) (hc : c ∈ w) : c ∈ [x].intercalate ls := by
  cases ls with
  | nil => simp at hw
  | cons a l =>
    rw [Text.Delimited.intercalate_singleton_cons]
    rcases List.mem_cons.mp hw with rfl | hw
    · exact List.mem_append_left _ hc
    · exact List.mem_append_right _ (List.mem_flatMap.mpr ⟨w, hw, List.mem_cons_of_mem _ hc⟩)

theorem ne_cr_of_mem_unifyLineEnds {cs : List Char} : ∀ c ∈ unifyLineEnds cs, c ≠ '\r' := by
  fun_induction unifyLineEnds cs with
  | case1 r ih => simpa using ih
  | case2 r _ ih => simpa using ih
  | case3 c r _ hc ih =>
    intro d hd
    rcases List.mem_cons.mp hd with rfl | hd
    · exact hc
    · exact ih d hd
  | case4 => simp

namespace RowCursor

/-- The lines of a text hold no line break. -/
theorem not_isLineBreak_of_mem_textLines {text l : String} (hl : l ∈ textLines text) :
    ∀ c ∈ l.toList, Text.Delimited.Reader.isLineBreak c = false := by
  obtain ⟨hl, -⟩ := List.mem_filter.mp hl
  obtain ⟨w, hw, rfl⟩ := List.mem_map.mp hl
  intro c hc
  rw [String.toList_ofList] at hc
  have hlf : c ≠ '\n' := fun h => not_mem_of_mem_splitOn hw (h ▸ hc)
  have hcr : c ≠ '\r' := by
    have := mem_intercalate_of_mem '\n' hw hc
    rw [List.intercalate_splitOn] at this
    exact ne_cr_of_mem_unifyLineEnds c this
  simp [Text.Delimited.Reader.isLineBreak, hlf, hcr]

/-- Lines without line breaks and not blank, each ended by a line feed, are read back as
themselves. -/
theorem textLines_join {ls : List String}
    (hbreak : ∀ l ∈ ls, ∀ c ∈ l.toList, Text.Delimited.Reader.isLineBreak c = false)
    (hblank : ∀ l ∈ ls, Text.isBlankText l = false) :
    textLines (String.join (ls.map (·.push '\n'))) = ls := by
  have hchars : (String.join (ls.map (·.push '\n'))).toList =
      ['\n'].intercalate (ls.map String.toList ++ [[]]) := by
    rw [String.toList_join, List.flatMap_map, ← flatten_map_append_singleton, List.map_map]
    simp [List.flatMap_def, Function.comp_def]
  have hnone : ∀ l ∈ ls.map String.toList ++ [[]], '\n' ∉ l := by
    intro l hl hn
    simp only [List.mem_append, List.mem_map, List.mem_singleton] at hl
    rcases hl with ⟨s, hs, rfl⟩ | rfl
    · exact absurd (hbreak s hs _ hn) (by decide)
    · simp at hn
  have hcr : ∀ c ∈ ['\n'].intercalate (ls.map String.toList ++ [[]]), c ≠ '\r' := by
    intro c hc hcr
    rcases Text.Delimited.mem_intercalate_singleton hc with h | ⟨l, hl, hcl⟩
    · rw [hcr] at h
      exact absurd h (by decide)
    · simp only [List.mem_append, List.mem_map, List.mem_singleton] at hl
      rcases hl with ⟨s, hs, rfl⟩ | rfl
      · exact absurd (hbreak s hs c hcl) (by simp [hcr, Text.Delimited.Reader.isLineBreak])
      · simp at hcl
  rw [textLines, hchars, unifyLineEnds_of_forall hcr, List.splitOn_intercalate _ hnone (by simp),
    List.map_append, List.map_map]
  simp only [Function.comp_def, String.ofList_toList, List.map_id', List.map_cons, List.map_nil,
    List.filter_append]
  rw [List.filter_eq_self.mpr fun l hl => by simp [hblank l hl]]
  simp [Text.isBlankText]

/-- Splitting a text at line feeds whose lines are not blank and hold no line break, after a
first line that reads as a header, gives those lines as data lines. -/
theorem ofText_join {header : String} {ls : List String} (hh : isHeader header = true)
    (hbreak : ∀ l ∈ header :: ls, ∀ c ∈ l.toList, Text.Delimited.Reader.isLineBreak c = false)
    (hblank : ∀ l ∈ header :: ls, Text.isBlankText l = false) :
    ofText (String.join ((header :: ls).map (·.push '\n'))) = ⟨ls, true, 0⟩ := by
  rw [ofText, textLines_join hbreak hblank]
  simp [hh]

end RowCursor

/-! ## Rows -/

namespace Row

/-- A record of clean fields reads as the row that its fields make. -/
theorem parse?_writeRecord {f : String} {fs : List String} (hfs : fs ≠ [])
    (hclean : ∀ g ∈ f :: fs, Text.Clean g) :
    parse? (Text.Delimited.writeRecord (f :: fs)) = ofFields? (f :: fs) := by
  have htrim : (f :: fs).map Text.trim = f :: fs := by
    rw [List.map_congr_left fun g hg => (hclean g hg).trim_eq, List.map_id']
  simp [parse?, parse, Text.Delimited.readLine_writeRecord hfs hclean, Except.map, htrim]

theorem mem_of_field? {fs : List String} {i : Nat} {c : String} (h : field? fs i = some c) :
    c ∈ fs ∧ c ≠ "" := by
  unfold field? at h
  split at h
  · rename_i f hf
    split at h
    · simp at h
    · rename_i hne
      obtain rfl := Option.some.inj h
      exact ⟨List.mem_of_getElem? hf, by simpa using hne⟩
  · simp at h

/-- The comment of a row is one of its fields, and not empty. -/
theorem comment_of_ofFields? {fs : List String} {r : Row} (h : ofFields? fs = some r) :
    ∀ c ∈ r.comment, c ∈ fs ∧ c ≠ "" := by
  intro c hc
  unfold ofFields? at h
  split at h
  · simp only [bind, Option.bind_eq_some_iff] at h
    obtain ⟨_, -, _, -, h⟩ := h
    split at h
    · simp at h
    · obtain rfl := Option.some.inj h
      exact mem_of_field? hc
  · simp at h

theorem exists_of_parse? {l : String} {r : Row} (h : parse? l = some r) :
    ∃ fs, Text.Delimited.readLine l = .ok fs ∧ ofFields? (fs.map Text.trim) = some r := by
  unfold parse? parse at h
  cases hl : Text.Delimited.readLine l with
  | error e => simp [hl, Except.map] at h
  | ok fs => exact ⟨fs, rfl, by simpa [hl, Except.map] using h⟩

end Row

theorem RowCursor.ofText_pos (text : String) : (RowCursor.ofText text).pos = 0 := by
  unfold RowCursor.ofText
  split
  · split <;> rfl
  · rfl

theorem RowCursor.mem_textLines_of_mem_lines {text l : String}
    (hl : l ∈ (RowCursor.ofText text).lines) : l ∈ RowCursor.textLines text := by
  unfold RowCursor.ofText at hl
  split at hl
  · rename_i first rest h
    rw [h]
    split at hl
    · exact List.mem_cons_of_mem _ hl
    · exact hl
  · simp at hl

/-- Every comment of a row read from a text is clean and not empty: it is a trimmed field of a
line, and lines hold no line break. -/
theorem comment_clean_of_mem_readRows {text : String} {r : Row} (hr : r ∈ readRows text) :
    ∀ c ∈ r.comment, Text.Clean c ∧ c ≠ "" := by
  intro c hc
  simp only [readRows, RowCursor.readAll, RowCursor.ofText_pos, List.drop_zero] at hr
  obtain ⟨l, hl, hparse⟩ := List.mem_filterMap.mp hr
  obtain ⟨fs, hread, hfields⟩ := Row.exists_of_parse? hparse
  obtain ⟨hcf, hne⟩ := Row.comment_of_ofFields? hfields c hc
  obtain ⟨f, hf, rfl⟩ := List.mem_map.mp hcf
  have hbreak := RowCursor.not_isLineBreak_of_mem_textLines (RowCursor.mem_textLines_of_mem_lines hl)
  refine ⟨⟨fun d hd => ?_, Text.trim_trim f⟩, hne⟩
  -- a character of the trimmed field is one of the line
  have hdf : d ∈ f.toList := by
    simp only [Text.trim, String.toList_ofList] at hd
    exact Text.mem_of_mem_trimChars hd
  exact hbreak d (Text.Delimited.mem_of_readLine hread f hf d hdf)

end RelayLadder
