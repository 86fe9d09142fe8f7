import RelayLadder.Proofs.RoundTrip
import RelayLadder.Proofs.Readings
import RelayLadder.Proofs.Measure

/-! # The symbol table of a listing

The assembler gathers one symbol per canonical address text, scanning the operands of the rows
in order. This module describes the table as a whole: it keeps the first reference to each
canonical text (`symbolTable_eq`), so its keys are the canonical texts in the order first met
(`symbolTable_keys`), and every address that a node of the built program names is among them
(`format_mem_symbolTable`, `addresses_referred`).

The table takes the operands that start with a letter and read as an address. Of the operands
that read as an address, the letter test drops exactly those that start with a blank
(`DeviceAddress.startsWithLetter_iff`). An operand read from a listing is trimmed, and a
trimmed text that reads as an address starts with its device letter, in either case
(`DeviceAddress.isAlpha_head_of_parse?`), so on a listing the test drops no reference, and
since a listing gives no row an empty comment, every symbol's comment is its row's, trimmed
(`symbolTable_readRows`).
-/

namespace RelayLadder

/-! ## Operands that read as addresses start with a letter -/

namespace Text

/-- The upper case of a character: the character itself, the shift of a run it lies on, or an
expansion. -/
theorem upperChar_cases (c : Char) :
    upperChar c = [c] ∨
      (∃ r ∈ upperRuns, r.holds c.toNat ∧ upperChar c = [Char.ofNat (c.toNat + r.shift).toNat]) ∨
      ∃ e ∈ upperExpansions, upperChar c = e.2.map Char.ofNat := by
  unfold upperChar
  cases he : upperExpansions.find? (·.1 == c.toNat) with
  | some e => exact .inr (.inr ⟨e, List.mem_of_find?_eq_some he, rfl⟩)
  | none =>
    cases hr : upperRuns.find? (·.holds c.toNat) with
    | none => exact .inl rfl
    | some r =>
      exact .inr (.inl ⟨r, List.mem_of_find?_eq_some hr, by simpa using List.find?_some hr, rfl⟩)

/-- An expansion is at least two characters, and its second is no digit. -/
theorem upperExpansions_second :
    upperExpansions.all (fun e => decide (2 ≤ e.2.length) && !isDigit (Char.ofNat (e.2.getD 1 0))) = true := by
  decide +kernel

/-- An expansion has a second character, and it is no digit. -/
theorem second_of_mem_upperExpansions {e : Nat × List Nat} (he : e ∈ upperExpansions) :
    ∃ x y ys, e.2 = x :: y :: ys ∧ isDigit (Char.ofNat y) = false := by
  obtain ⟨hlen, hdig⟩ := Bool.and_eq_true_iff.mp (List.all_eq_true.mp upperExpansions_second e he)
  match he2 : e.2, hlen with
  | x :: y :: ys, _ => exact ⟨x, y, ys, rfl, by simpa [he2] using hdig⟩

/-- The runs send to a device letter only the small ASCII letters. -/
theorem upperRuns_device :
    upperRuns.all (fun r => Device.all.all fun d =>
      let n := (d.letter.toNat : Int) - r.shift
      !(decide (0 ≤ n) && r.holds n.toNat) || decide (0x61 ≤ n ∧ n ≤ 0x7a)) = true := by
  decide +kernel

/-- A character reads as a device only as that device's letter. -/
theorem letter_of_ofChar? {x : Char} {d : Device} (h : Device.ofChar? x = some d) : x = d.letter :=
  (beq_iff_eq.mp (List.find?_some (p := fun e : Device => e.letter == x) h)).symm

/-- A character whose upper case starts with a device letter followed by a digit, or by nothing
yet, is an ASCII letter. -/
theorem isAlpha_of_upperChar {c x : Char} {rest : List Char} {d : Device}
    (h : upperChar c = x :: rest) (hx : Device.ofChar? x = some d)
    (hrest : ∀ y ∈ rest.head?, isDigit y = true) : c.isAlpha = true := by
  have hxd := letter_of_ofChar? hx
  rcases upperChar_cases c with hc | ⟨r, hr, hholds, hc⟩ | ⟨e, he, hc⟩
  · rw [hc, List.cons.injEq] at h
    rw [h.1, hxd]
    cases d <;> decide
  · rw [hc, List.cons.injEq, hxd] at h
    -- the letter is the shift of the character's code point
    have hpos : 0 < d.letter.toNat := by cases d <;> decide
    have hval : (c.toNat + r.shift).toNat = d.letter.toNat := by
      have := congrArg Char.toNat h.1
      rw [Char.toNat_ofNat] at this
      split at this
      · exact this
      · omega
    have hrun := List.all_eq_true.mp (List.all_eq_true.mp upperRuns_device r hr) d
      (by cases d <;> decide)
    have hn : (d.letter.toNat : Int) - r.shift = c.toNat := by omega
    simp only [hn, Int.toNat_natCast, hholds, Bool.and_true, Bool.or_eq_true, Bool.not_eq_true',
      decide_eq_false_iff_not, decide_eq_true_eq] at hrun
    rcases hrun with hrun | hrun
    · omega
    · simp only [Char.isAlpha, Char.isLower, Bool.or_eq_true, Bool.and_eq_true, decide_eq_true_eq,
        ge_iff_le, UInt32.le_iff_toNat_le, Char.toNat_val]
      have ha : 'a'.toNat = 97 := rfl
      have hz : 'z'.toNat = 122 := rfl
      exact .inr ⟨by omega, by omega⟩
  · obtain ⟨x0, y0, ys, he2, hdig⟩ := second_of_mem_upperExpansions he
    rw [hc, he2] at h
    simp only [List.map_cons, List.cons.injEq] at h
    have := hrest (Char.ofNat y0) (by rw [← h.2]; rfl)
    rw [hdig] at this
    exact absurd this (by decide)

/-- No character has an empty upper case. -/
theorem upperChar_ne_nil (c : Char) : upperChar c ≠ [] := by
  rcases upperChar_cases c with hc | ⟨r, -, -, hc⟩ | ⟨e, he, hc⟩ <;> rw [hc]
  · simp
  · simp
  · obtain ⟨x0, y0, ys, he2, -⟩ := second_of_mem_upperExpansions he
    simp [he2]

/-- An ASCII letter is printable, so it is no blank. -/
theorem isBlank_eq_false_of_isAlpha {c : Char} (h : c.isAlpha = true) : isBlank c = false := by
  refine isBlank_eq_false ?_
  simp only [Char.isAlpha, Char.isUpper, Char.isLower, Bool.or_eq_true, Bool.and_eq_true,
    decide_eq_true_eq, ge_iff_le, UInt32.le_iff_toNat_le, Char.toNat_val] at h
  have hA : 'A'.toNat = 65 := rfl
  have hZ : 'Z'.toNat = 90 := rfl
  have ha : 'a'.toNat = 97 := rfl
  have hz : 'z'.toNat = 122 := rfl
  unfold Printable
  omega

/-- Trimming keeps a first character that is no blank. -/
theorem trimChars_cons_of_not_isBlank {c : Char} (cs : List Char) (hc : isBlank c = false) :
    ∃ rest, trimChars (c :: cs) = c :: rest := by
  rw [trimChars_eq_rdropWhile, List.dropWhile_cons_of_neg (by simp [hc])]
  obtain ⟨rest, hrest⟩ := List.rdropWhile_prefix isBlank (c :: cs)
  cases h : (c :: cs).rdropWhile isBlank with
  | nil => simpa [hc] using List.rdropWhile_eq_nil_iff.mp h c List.mem_cons_self
  | cons d ds =>
    -- a prefix of `c :: cs` that is not empty starts with `c`
    rw [h, List.cons_append, List.cons.injEq] at hrest
    exact ⟨ds, by rw [hrest.1]⟩

end Text

/-- A run of digits read off the front of a text starts with a digit. -/
theorem head_of_readDigits {cs rest : List Char} {n : Nat} (h : readDigits cs = some (n, rest)) :
    ∃ y ys, cs = y :: ys ∧ Text.isDigit y = true := by
  simp only [readDigits, List.span_eq_takeWhile_dropWhile, Option.map_eq_some_iff] at h
  obtain ⟨m, hm, -⟩ := h
  obtain ⟨hne, hall⟩ := Text.digitsValue?_eq_some hm
  cases cs with
  | nil => simp at hne
  | cons y ys =>
    refine ⟨y, ys, rfl, ?_⟩
    cases hy : Text.isDigit y
    · simp [hy] at hne
    · rfl

namespace DeviceAddress

/-- The trimmed text of an operand that reads as an address starts with an ASCII letter: the
device letter, in either case. -/
theorem isAlpha_head_trim_of_parse? {s : String} {a : DeviceAddress} (h : parse? s = some a) :
    ∃ c cs, (Text.trim s).toList = c :: cs ∧ c.isAlpha = true := by
  rw [parse?, toList_upper_trim] at h
  cases hl : (Text.trim s).toList with
  | nil => simp [hl, ofChars?] at h
  | cons c cs =>
    refine ⟨c, cs, rfl, ?_⟩
    rw [hl, List.flatMap_cons] at h
    cases hu : Text.upperChar c with
    | nil => exact absurd hu (Text.upperChar_ne_nil c)
    | cons x rest =>
      rw [hu, List.cons_append] at h
      -- only the device letter and the digits after it are needed
      rw [ofChars?] at h
      obtain ⟨d, hd, h⟩ := Option.bind_eq_some_iff.mp h
      obtain ⟨⟨n, r'⟩, hn, -⟩ := Option.bind_eq_some_iff.mp h
      obtain ⟨y, ys, hy, hdig⟩ := head_of_readDigits hn
      refine Text.isAlpha_of_upperChar hu hd fun z hz => ?_
      cases rest with
      | nil => simp at hz
      | cons z' rest =>
        simp only [List.head?_cons, Option.mem_def, Option.some.injEq] at hz
        simp only [List.cons_append, List.cons.injEq] at hy
        rw [← hz, hy.1]
        exact hdig

/-- A trimmed text that reads as an address starts with an ASCII letter. -/
theorem isAlpha_head_of_parse? {s : String} {a : DeviceAddress} (hs : Text.trim s = s)
    (h : parse? s = some a) : ∃ c cs, s.toList = c :: cs ∧ c.isAlpha = true := by
  have := isAlpha_head_trim_of_parse? h
  rwa [hs] at this

/-- The letter test keeps an operand that reads as an address exactly when the operand does not
start with a blank. A blank is no letter in any script, so a test for any letter keeps the same
operands. -/
theorem startsWithLetter_iff {s : String} {a : DeviceAddress} (h : parse? s = some a) :
    startsWithLetter s = true ↔ ∀ c ∈ s.toList.head?, Text.isBlank c = false := by
  obtain ⟨c, cs, htrim, hc⟩ := isAlpha_head_trim_of_parse? h
  constructor
  · intro hs d hd
    rw [startsWithLetter, Option.mem_def.mp hd, Option.any_some] at hs
    exact Text.isBlank_eq_false_of_isAlpha hs
  · intro hhead
    cases hl : s.toList with
    | nil => simp [Text.trim, Text.trimChars, hl] at htrim
    | cons d ds =>
      -- the first character survives trimming, so it is the letter the address starts with
      obtain ⟨rest, hrest⟩ := Text.trimChars_cons_of_not_isBlank ds (hhead d (by simp [hl]))
      have hcd : c :: cs = d :: rest := by rw [← htrim, ← hrest, Text.trim, hl, String.toList_ofList]
      rw [List.cons.injEq] at hcd
      simp [startsWithLetter, hl, ← hcd.1, hc]

end DeviceAddress

namespace Row

/-- The operands of a row are among the fields it was read from. -/
theorem operands_of_ofFields? {fs : List String} {r : Row} (h : ofFields? fs = some r) :
    ∀ o ∈ r.operands, ∀ s ∈ o, s ∈ fs := by
  intro o ho s hs
  unfold ofFields? at h
  split at h
  · simp only [bind, Option.bind_eq_some_iff] at h
    obtain ⟨_, -, _, -, h⟩ := h
    split at h
    · simp at h
    · obtain rfl := Option.some.inj h
      simp only [operands, List.mem_cons, List.not_mem_nil, or_false] at ho
      rcases ho with rfl | rfl | rfl <;> exact (mem_of_field? hs).1
  · simp at h

end Row

/-- The operands of a row read from a listing are trimmed. -/
theorem operand_trimmed_of_mem_readRows {text : String} {r : Row} (hr : r ∈ readRows text) :
    ∀ o ∈ r.operands, ∀ s ∈ o, Text.trim s = s := by
  intro o ho s hs
  simp only [readRows, RowCursor.readAll, RowCursor.ofText_pos, List.drop_zero] at hr
  obtain ⟨l, -, hparse⟩ := List.mem_filterMap.mp hr
  obtain ⟨fs, -, hfields⟩ := Row.exists_of_parse? hparse
  obtain ⟨f, -, rfl⟩ := List.mem_map.mp (Row.operands_of_ofFields? hfields o ho s hs)
  exact Text.trim_trim f

/-! ## Lists kept by first key -/

section EraseDupsBy

variable {α β : Type} [BEq β] [LawfulBEq β] (f : α → β)

/-- Keeping the first element of each key, an element put last is kept exactly when its key is
new. -/
theorem eraseDupsBy_append_singleton : (l : List α) → (x : α) →
    (l ++ [x]).eraseDupsBy (fun y z => f y == f z) =
      if f x ∈ l.map f then l.eraseDupsBy (fun y z => f y == f z)
      else l.eraseDupsBy (fun y z => f y == f z) ++ [x]
  | [], x => by simp [List.eraseDupsBy_cons]
  | a :: as, x => by
    have ih := eraseDupsBy_append_singleton (as.filter fun b => (f b == f a) = false) x
    simp only [List.cons_append, List.eraseDupsBy_cons, List.filter_append]
    by_cases hxa : f x = f a
    · simp [hxa]
    · -- an element keyed as the new one is kept by the filter, as it is not keyed as the head
      have hmem : f x ∈ (as.filter fun b => (f b == f a) = false).map f ↔ f x ∈ (a :: as).map f := by
        simp only [List.map_cons, List.mem_cons, hxa, false_or, List.mem_map, List.mem_filter]
        exact ⟨fun ⟨b, ⟨hb, _⟩, hbx⟩ => ⟨b, hb, hbx⟩,
          fun ⟨b, hb, hbx⟩ => ⟨b, ⟨hb, by simp [hbx, hxa]⟩, hbx⟩⟩
      have hkeep : [x].filter (fun b => (f b == f a) = false) = [x] := by simp [hxa]
      simp only [hkeep, ih, hmem]
      split <;> simp
termination_by l => l.length
decreasing_by exact Nat.lt_succ_of_le (List.length_filter_le _ _)

/-- The keys of the first elements are the keys in the order first met. -/
theorem map_eraseDupsBy (l : List α) :
    (l.eraseDupsBy (fun y z => f y == f z)).map f = (l.map f).eraseDups := by
  induction l using List.reverseRecOn with
  | nil => simp
  | append_singleton l x ih =>
    rw [eraseDupsBy_append_singleton, List.map_append, List.map_singleton,
      eraseDups_append_singleton]
    split <;> simp [ih]

/-- Keeping the first element of each key keeps elements of the list, in its order. -/
theorem eraseDupsBy_sublist (r : α → α → Bool) : (l : List α) → (l.eraseDupsBy r).Sublist l
  | [] => by simp
  | a :: as => by
    rw [List.eraseDupsBy_cons]
    exact ((eraseDupsBy_sublist r _).trans List.filter_sublist).cons_cons a
termination_by l => l.length
decreasing_by exact Nat.lt_succ_of_le (List.length_filter_le _ _)

end EraseDupsBy

/-! ## The symbol table -/

/-- The references the symbol table reads: each row and the address of one of its operands that
starts with a letter, rows in order and the operands of each in column order. -/
def symbolRefs (rows : List Row) : List (Row × DeviceAddress) :=
  rows.flatMap fun r => r.operands.filterMap fun op => (symbolAddress? op).map (r, ·)

/-- The symbols that a reference opens: the address under its canonical text, with the comment
its row gives its symbols, boolean when its device holds bits or it names a bit, and a word
otherwise. -/
def symbolOf (x : Row × DeviceAddress) : Symbol :=
  { key := x.2.format, address := x.2, comment := x.1.symbolComment,
    dataType := some (if x.2.device.isBit || x.2.bitIndex.isSome then .bool else .word) }

theorem mem_symbolRefs {rows : List Row} {r : Row} (hr : r ∈ rows) {op : Option String}
    (hop : op ∈ r.operands) {a : DeviceAddress} (ha : symbolAddress? op = some a) :
    (r, a) ∈ symbolRefs rows :=
  List.mem_flatMap.mpr ⟨r, hr, List.mem_filterMap.mpr ⟨op, hop, by simp [ha]⟩⟩

/-- The symbols gathered over the rows are gathered over their references, one by one. -/
theorem symbolTable_eq_foldl (rows : List Row) :
    symbolTable rows =
      (symbolRefs rows).foldl (fun syms x => addSymbol syms x.2 x.1.symbolComment) [] := by
  unfold symbolTable symbolRefs
  rw [List.foldl_flatMap]
  congr 1
  funext syms r
  induction r.operands generalizing syms with
  | nil => rfl
  | cons op ops ih =>
    cases h : symbolAddress? op <;>
      simp only [List.foldl_cons, List.filterMap_cons, h, Option.map_none, Option.map_some, ih]

/-- One more reference opens a symbol after the others when its key is new, and changes
nothing otherwise. -/
theorem addSymbol_refs (refs : List (Row × DeviceAddress)) (x : Row × DeviceAddress) :
    addSymbol ((refs.eraseDupsBy fun y z => y.2.format == z.2.format).map symbolOf) x.2
        x.1.symbolComment =
      ((refs ++ [x]).eraseDupsBy fun y z => y.2.format == z.2.format).map symbolOf := by
  have hkeys : ((refs.eraseDupsBy fun y z => y.2.format == z.2.format).map symbolOf).any
      (·.key == x.2.format) = decide (x.2.format ∈ refs.map (·.2.format)) := by
    have h := map_eraseDupsBy (fun y : Row × DeviceAddress => y.2.format) refs
    rw [Bool.eq_iff_iff, List.any_map, decide_eq_true_iff, ← List.mem_eraseDups, ← h]
    simp [symbolOf]
  rw [eraseDupsBy_append_singleton (fun y : Row × DeviceAddress => y.2.format), addSymbol, hkeys]
  by_cases h : x.2.format ∈ refs.map (·.2.format)
  · simp [h]
  · simp [h, symbolOf, DeviceAddress.isBoolean]

/-- The symbol table holds the first reference to each canonical text, first met first. -/
theorem symbolTable_eq (rows : List Row) :
    symbolTable rows =
      ((symbolRefs rows).eraseDupsBy fun x y => x.2.format == y.2.format).map symbolOf := by
  simpa using (symbolTable_eq_foldl rows).trans
    (foldl_eq_of_step (fun refs => (refs.eraseDupsBy fun y z => y.2.format == z.2.format).map symbolOf)
      addSymbol_refs [] (symbolRefs rows))

/-- The keys of the symbol table are the canonical texts of the references, first met first. -/
theorem symbolTable_keys (rows : List Row) :
    (symbolTable rows).map (·.key) = ((symbolRefs rows).map (·.2.format)).eraseDups := by
  rw [symbolTable_eq, List.map_map]
  exact map_eraseDupsBy (fun x : Row × DeviceAddress => x.2.format) (symbolRefs rows)

/-! ## The symbol table of a listing

A listing trims its fields and gives no row an empty comment, so there the letter test drops no
operand that reads as an address, and every comment is trimmed. -/

/-- The references of rows to device addresses: each row and an address one of its operands
reads as, rows in order and the operands of each in column order. -/
def addressRefs (rows : List Row) : List (Row × DeviceAddress) :=
  rows.flatMap fun r => r.operands.filterMap fun op => (op.bind DeviceAddress.parse?).map (r, ·)

/-- The symbol that a reference opens: the address under its canonical text, with the trimmed
comment of its row, boolean when its device holds bits or it names a bit, and a word
otherwise. -/
def refSymbol (x : Row × DeviceAddress) : Symbol :=
  { key := x.2.format, address := x.2, comment := x.1.comment.map Text.trim,
    dataType := some (if x.2.device.isBit || x.2.bitIndex.isSome then .bool else .word) }

/-- A trimmed operand that reads as an address starts with a letter, so the symbol table reads it
as the builder does. -/
theorem symbolAddress?_of_trimmed {op : Option String} (h : ∀ s ∈ op, Text.trim s = s) :
    symbolAddress? op = op.bind DeviceAddress.parse? := by
  cases op with
  | none => rfl
  | some s =>
    cases ha : DeviceAddress.parse? s with
    | none => simp [symbolAddress?, Option.filter_some, ha]
    | some a =>
      obtain ⟨c, cs, hs, hc⟩ := DeviceAddress.isAlpha_head_of_parse? (h s rfl) ha
      have hletter : startsWithLetter s = true := by simp [startsWithLetter, hs, hc]
      simp [symbolAddress?, Option.filter_some, hletter, ha]

/-- Over rows whose operands are trimmed, the symbol table reads every reference. -/
theorem symbolRefs_eq_addressRefs {rows : List Row}
    (h : ∀ r ∈ rows, ∀ op ∈ r.operands, ∀ s ∈ op, Text.trim s = s) :
    symbolRefs rows = addressRefs rows :=
  List.flatMap_congr fun r hr =>
    List.filterMap_congr fun op hop => by rw [symbolAddress?_of_trimmed (h r hr op hop)]

/-- A row with no empty comment gives its symbols its comment trimmed. -/
theorem Row.symbolComment_of_ne_empty {r : Row} (h : ∀ c ∈ r.comment, c ≠ "") :
    r.symbolComment = r.comment.map Text.trim := by
  cases hc : r.comment with
  | none => simp [Row.symbolComment, hc]
  | some c => simp [Row.symbolComment, hc, h c hc]

/-- The symbol table of a listing holds the first reference to each canonical text, first met
first, with the trimmed comment of its row. -/
theorem symbolTable_readRows (text : String) :
    symbolTable (readRows text) =
      ((addressRefs (readRows text)).eraseDupsBy fun x y => x.2.format == y.2.format).map
        refSymbol := by
  rw [symbolTable_eq, symbolRefs_eq_addressRefs fun r hr => operand_trimmed_of_mem_readRows hr]
  refine List.map_congr_left fun x hx => ?_
  -- each kept reference comes from a row of the listing, whose comment is not empty
  obtain ⟨r, hr, hx⟩ := List.mem_flatMap.mp ((eraseDupsBy_sublist _ _).subset hx)
  obtain ⟨op, -, hrx⟩ := List.mem_filterMap.mp hx
  obtain ⟨a, -, rfl⟩ := Option.map_eq_some_iff.mp hrx
  have hcomment := Row.symbolComment_of_ne_empty fun c hc => (comment_clean_of_mem_readRows hr c hc).2
  simp [symbolOf, refSymbol, hcomment]

/-! ## Every address a node names is a symbol -/

/-- A row refers to an address when one of its operands reads as it. -/
def Row.RefersTo (r : Row) (a : DeviceAddress) : Prop :=
  ∃ op ∈ r.operands, op.bind DeviceAddress.parse? = some a

namespace Assembler

/-- Every node that rows build names only addresses that some row refers to. -/
theorem keeps_referred (rows : List Row) :
    Assembler.Keeps (fun n => ∀ a ∈ n.body.addresses, ∃ r ∈ rows, r.RefersTo a) rows where
  condition r hr _ _ _ _ hb := fun a ha => ⟨r, hr, conditionBody_addresses hb a ha⟩
  tap r hr _ _ _ _ hb := fun a ha => ⟨r, hr, tapBody_addresses hb a ha⟩
  block _ _ _ := by simp [NodeBody.addresses]

end Assembler

/-- Every address that a node of a built network names is one that a row refers to. -/
theorem addresses_referred (rows : List Row) :
    ∀ N ∈ buildNetworks rows, ∀ n ∈ N.nodes, ∀ a ∈ n.body.addresses, ∃ r ∈ rows, r.RefersTo a := by
  intro N hN n hn a ha
  obtain ⟨st, -, s, c, rfl, hP⟩ := exists_of_forall₂ (Assembler.keeps_referred rows).buildNetworks hN
  -- the node has the body of a node of the shape
  obtain ⟨m, hm, hbody⟩ := List.mem_map.mp (s.bodies_network st c ▸ List.mem_map_of_mem hn)
  exact hP m hm a (hbody ▸ ha)

/-- An address that a row refers to is a key of the symbol table, under its canonical text. -/
theorem format_mem_symbolTable {rows : List Row} {r : Row} (hr : r ∈ rows) {op : Option String}
    (hop : op ∈ r.operands) {a : DeviceAddress} (ha : symbolAddress? op = some a) :
    a.format ∈ (symbolTable rows).map (·.key) := by
  rw [symbolTable_keys, List.mem_eraseDups]
  exact List.mem_map.mpr ⟨(r, a), mem_symbolRefs hr hop ha, rfl⟩

end RelayLadder
