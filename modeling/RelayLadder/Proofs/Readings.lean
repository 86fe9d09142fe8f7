import RelayLadder.Proofs.Canonical
import RelayLadder.Proofs.Program
import RelayLadder.Target.Address

/-! # One reading for every text

An operand text is tried as a decimal constant, then as a hexadecimal one, then as a device
address, and the first reading that succeeds wins. The readings never compete: a decimal
constant starts with a minus sign or a digit, a hexadecimal one with `H`, `h` or a zero and an
`x`, and an address, once in upper case, with its device letter. Digits of every script keep
their case, and no digit, sign, `H` or zero is a device letter, so at most one reading succeeds
and their order decides nothing (`Operand.readings_exclusive`).

Every canonical text reads back as the value it spells, and an address read from any text has a
canonical text that reads back as the same address, so spelling what was read is idempotent. A
target address reads back from its text as well: its prefix is the first that matches.
-/

namespace RelayLadder

namespace Text

/-- Digits have no case: the runs and expansions of the case table all lie apart from the ten
code points of every script's digits. -/
theorem upperChar_of_isDigit {c : Char} (hc : isDigit c = true) : upperChar c = [c] := by
  have hruns : upperRuns.all (fun r => digitZeros.all fun z => r.last < z || z + 9 < r.first) =
      true := by decide +kernel
  have hexp : upperExpansions.all (fun e => digitZeros.all fun z => e.1 < z || z + 9 < e.1) =
      true := by decide +kernel
  obtain ⟨v, h⟩ := Option.isSome_iff_exists.mp hc
  obtain ⟨z, hz, hin⟩ : ∃ z ∈ digitZeros, z ≤ c.toNat ∧ c.toNat < z + 10 := by
    obtain ⟨l₁, z, l₂, hl, hzv, -⟩ := List.findSome?_eq_some_iff.mp h
    refine ⟨z, hl ▸ List.mem_append_right _ List.mem_cons_self, ?_⟩
    split at hzv
    · assumption
    · simp at hzv
  have h1 : upperExpansions.find? (·.1 == c.toNat) = none := by
    rw [List.find?_eq_none]
    intro e he heq
    have := List.all_eq_true.mp (List.all_eq_true.mp hexp e he) z hz
    simp only [beq_iff_eq, Bool.or_eq_true, decide_eq_true_eq] at heq this
    omega
  have h2 : upperRuns.find? (·.holds c.toNat) = none := by
    rw [List.find?_eq_none]
    intro r hr hholds
    have := List.all_eq_true.mp (List.all_eq_true.mp hruns r hr) z hz
    simp only [CaseRun.holds, Bool.and_eq_true, decide_eq_true_eq, Bool.or_eq_true] at hholds this
    omega
  simp [upperChar, h1, h2]

theorem isDigit_of_foldlM {ds : List Char} {acc n : Nat}
    (h : ds.foldlM (fun acc c => (digitValue? c).map (acc * 10 + ·)) acc = some n) :
    ∀ c ∈ ds, isDigit c = true := by
  induction ds generalizing acc with
  | nil => simp
  | cons c rest ih =>
    simp only [List.foldlM_cons, Option.bind_eq_bind, Option.bind_eq_some_iff,
      Option.map_eq_some_iff] at h
    obtain ⟨_, ⟨v, hv, rfl⟩, hrest⟩ := h
    intro x hx
    rcases List.mem_cons.mp hx with rfl | hx
    · simp [isDigit, hv]
    · exact ih hrest x hx

/-- A run that reads as a number is a non-empty run of digits. -/
theorem digitsValue?_eq_some {ds : List Char} {n : Nat} (h : digitsValue? ds = some n) :
    ds ≠ [] ∧ ∀ c ∈ ds, isDigit c = true := by
  unfold digitsValue? at h
  split at h
  · simp at h
  · rename_i hne
    exact ⟨by simpa using hne, isDigit_of_foldlM h⟩

end Text

theorem Device.ofChar?_eq_none_of_isDigit {c : Char} (h : Text.isDigit c = true) :
    Device.ofChar? c = none := by
  have hletters : Device.all.all (fun d => !Text.isDigit d.letter) = true := by decide +kernel
  rw [Device.ofChar?, List.find?_eq_none]
  intro d hd hdc
  have := List.all_eq_true.mp hletters d hd
  rw [beq_iff_eq.mp hdc, h] at this
  exact absurd this (by decide +kernel)

/-! ## Device addresses -/

namespace DeviceAddress

theorem toList_upper_trim (s : String) :
    (Text.upper (Text.trim s)).toList = (Text.trim s).toList.flatMap Text.upperChar := by
  simp [Text.upper]

/-- A text whose first character, trimmed and in upper case, is no device letter is no
address. -/
theorem parse?_eq_none_of_head {s : String} {c d : Char} {rest : List Char}
    (hs : (Text.trim s).toList = c :: rest) (hc : Text.upperChar c = [d])
    (hd : Device.ofChar? d = none) : parse? s = none := by
  rw [parse?, toList_upper_trim, hs, List.flatMap_cons, hc]
  simp [ofChars?, hd]

/-- The canonical text of an address that a text reads as reads back as the same address:
spelling what was read is idempotent. -/
theorem parse?_format_of_parse? {s : String} {a : DeviceAddress} (h : parse? s = some a) :
    parse? a.format = some a :=
  parse?_format (bitIndex_le_of_parse? h)

end DeviceAddress

/-! ## Target addresses -/

namespace TargetAddress

theorem toList_format (t : TargetAddress) :
    t.format.toList = t.memoryType.prefixText.toList ++ ':' :: Nat.toDigits 10 t.number := by
  simp [format]

theorem prefixText_facts (m : MemoryType) :
    (∀ c ∈ m.prefixText.toList, Text.Printable c) ∧ Text.upper m.prefixText = m.prefixText ∧
      MemoryType.ofPrefix? m.prefixText = some m := by
  refine ⟨?_, Text.upper_eq_self ?_, ?_⟩ <;> cases m <;>
    simp [MemoryType.prefixText, MemoryType.ofPrefix?, MemoryType.all, Text.Printable]

theorem prefixText_toList (m : MemoryType) : m.prefixText.toList =
    match m with
    | .coil => ['C'] | .discreteInput => ['D', 'I'] | .holdingRegister => ['H', 'R']
    | .inputRegister => ['I', 'R'] := by
  cases m <;> simp [MemoryType.prefixText]

/-- The text of a target address is printable: a prefix of capitals, a colon and digits. -/
theorem printable_format (t : TargetAddress) : ∀ c ∈ t.format.toList, Text.Printable c := by
  intro c hc
  rw [toList_format, List.mem_append, List.mem_cons] at hc
  rcases hc with hc | rfl | hc
  · exact (prefixText_facts _).1 c hc
  · decide +kernel
  · obtain ⟨k, hk, rfl⟩ := Text.exists_digitChar_of_mem_toDigits hc
    exact (Text.digitChar_facts hk).1

/-- The prefix of a written address is the first one that matches, and the digits after its
colon run to the end. -/
theorem shape?_format (t : TargetAddress) :
    shape? t.format.toList = some (t.memoryType.prefixText.toList, t.number) := by
  have hn := readDigits_toDigits t.number [] (by simp)
  rw [List.append_nil] at hn
  rw [toList_format, shape?, MemoryType.all]
  -- each prefix is tried in turn, so the matching is unfolded letter by letter before the
  -- character comparisons are evaluated
  cases t.memoryType <;>
    simp only [List.map_cons, List.map_nil, prefixText_toList, List.findSome?_cons,
      List.findSome?_nil, matchPrefix, List.length_cons, List.length_nil, List.zip_cons_cons,
      List.zip_nil_left, List.all_cons, List.all_nil, letterMatches, List.take_succ_cons,
      List.take_zero, List.drop_succ_cons, List.drop_zero, List.cons_append,
      List.nil_append] <;>
    simp [hn]

theorem parse?_format (t : TargetAddress) : parse? t.format = .ok (some t) := by
  have htrim := Text.trim_eq_self fun c hc => Text.isBlank_eq_false (printable_format t c hc)
  obtain ⟨-, hup, hpre⟩ := prefixText_facts t.memoryType
  unfold parse?
  rw [htrim, shape?_format]
  simp only [String.ofList_toList, hup, hpre]

/-! ## Reading a target address leniently -/

/-- Characters spell a prefix when case is ignored: letter by letter, as `letterMatches`
compares them. -/
def Spells (pre sp : List Char) : Prop := List.Forall₂ (fun l c => letterMatches l c = true) pre sp

/-- A text has the shape of an address of a space: the space's prefix spelled as `sp` when case
is ignored, a colon, and a run of decimal digits that writes `n`. -/
def Shaped (cs : List Char) (m : MemoryType) (sp : List Char) (n : Nat) : Prop :=
  ∃ ds, cs = sp ++ ':' :: ds ∧ Spells m.prefixText.toList sp ∧ Text.digitsValue? ds = some n

theorem letterMatches_iff {l c : Char} : letterMatches l c = true ↔
    c = l ∨ c = l.toLower ∨ (l = 'I' ∧ (c = Char.ofNat 0x130 ∨ c = Char.ofNat 0x131)) := by
  simp [letterMatches, or_assoc]

theorem matchPrefix_nil (cs : List Char) : matchPrefix [] cs = some ([], cs) := by
  simp [matchPrefix]

theorem matchPrefix_cons_nil (l : Char) (pre : List Char) : matchPrefix (l :: pre) [] = none := by
  simp [matchPrefix]

theorem matchPrefix_cons_cons (l c : Char) (pre cs : List Char) :
    matchPrefix (l :: pre) (c :: cs) =
      if letterMatches l c then (matchPrefix pre cs).map fun p => (c :: p.1, p.2) else none := by
  unfold matchPrefix
  by_cases h : letterMatches l c
  · simp only [List.length_cons, List.zip_cons_cons, List.all_cons, h, Bool.true_and,
      Nat.add_le_add_iff_right, List.take_succ_cons, List.drop_succ_cons, if_true]
    split <;> simp
  · rw [Bool.not_eq_true] at h
    simp only [List.zip_cons_cons, List.all_cons, h, Bool.false_and, Bool.and_false]
    simp

theorem matchPrefix_eq_some_iff {pre cs sp rest : List Char} :
    matchPrefix pre cs = some (sp, rest) ↔ cs = sp ++ rest ∧ Spells pre sp := by
  unfold Spells
  induction pre generalizing cs sp rest with
  | nil =>
    rw [matchPrefix_nil, List.forall₂_nil_left_iff]
    constructor
    · intro h
      simp only [Option.some.injEq, Prod.mk.injEq] at h
      obtain ⟨rfl, rfl⟩ := h
      exact ⟨rfl, rfl⟩
    · rintro ⟨rfl, rfl⟩
      rfl
  | cons l pre ih =>
    cases cs with
    | nil =>
      simp only [matchPrefix_cons_nil, reduceCtorEq, false_iff, not_and]
      intro h hs
      cases hs
      simp at h
    | cons c cs =>
      rw [matchPrefix_cons_cons]
      by_cases h : letterMatches l c
      · simp only [h, if_true, Option.map_eq_some_iff]
        constructor
        · rintro ⟨⟨sp', rest'⟩, hm, he⟩
          simp only [Prod.mk.injEq] at he
          obtain ⟨rfl, rfl⟩ := he
          obtain ⟨rfl, hs⟩ := ih.mp hm
          exact ⟨rfl, .cons h hs⟩
        · rintro ⟨hcs, hs⟩
          cases hs with
          | cons hl hs' =>
            rename_i c' sp'
            simp only [List.cons_append, List.cons.injEq] at hcs
            obtain ⟨rfl, rfl⟩ := hcs
            exact ⟨(sp', rest), ih.mpr ⟨rfl, hs'⟩, rfl⟩
      · simp only [h, Bool.false_eq_true, if_false, reduceCtorEq, false_iff, not_and]
        intro hcs hs
        cases hs with
        | cons hl _ =>
          simp only [List.cons_append, List.cons.injEq] at hcs
          exact h (hcs.1 ▸ hl)

theorem readDigits_eq_some_nil_iff {cs : List Char} {n : Nat} :
    readDigits cs = some (n, []) ↔ Text.digitsValue? cs = some n := by
  constructor
  · intro h
    simp only [readDigits, List.span_eq_takeWhile_dropWhile, Option.map_eq_some_iff,
      Prod.mk.injEq] at h
    obtain ⟨v, hv, rfl, hdrop⟩ := h
    have hall := List.takeWhile_append_dropWhile (p := Text.isDigit) (l := cs)
    rw [hdrop, List.append_nil] at hall
    rwa [hall] at hv
  · intro h
    simpa using @readDigits_append cs [] n (Text.digitsValue?_eq_some h).2 h (by simp)

/-- The shape read after one prefix: the prefix spelled, a colon, and digits to the end. -/
def prefixShape (pre cs : List Char) : Option (List Char × Nat) :=
  match matchPrefix pre cs with
  | some (spelled, ':' :: rest) =>
    match readDigits rest with
    | some (n, []) => some (spelled, n)
    | _ => none
  | _ => none

theorem shape?_eq (cs : List Char) :
    shape? cs = (MemoryType.all.map (·.prefixText.toList)).findSome? (prefixShape · cs) := rfl

theorem prefixShape_eq_some_iff {pre cs sp : List Char} {n : Nat} :
    prefixShape pre cs = some (sp, n) ↔
      ∃ ds, cs = sp ++ ':' :: ds ∧ Spells pre sp ∧ Text.digitsValue? ds = some n := by
  unfold prefixShape
  constructor
  · intro h
    split at h
    · rename_i spelled rest hm
      split at h
      · rename_i n' hr
        cases h
        obtain ⟨hcs, hs⟩ := matchPrefix_eq_some_iff.mp hm
        exact ⟨rest, hcs, hs, readDigits_eq_some_nil_iff.mp hr⟩
      · cases h
    · cases h
  · rintro ⟨ds, rfl, hs, hv⟩
    have hm : matchPrefix pre (sp ++ ':' :: ds) = some (sp, ':' :: ds) :=
      matchPrefix_eq_some_iff.mpr ⟨rfl, hs⟩
    simp [hm, readDigits_eq_some_nil_iff.mpr hv]

/-- The upper-case letters that prefixes are written in. -/
def prefixLetters : List Char := ['C', 'D', 'H', 'I', 'R']

theorem prefixText_letters (m : MemoryType) : ∀ l ∈ m.prefixText.toList, l ∈ prefixLetters := by
  cases m <;> simp [prefixText_toList, prefixLetters]

/-- A character that stands for a letter of a prefix has that letter as its upper case, unless
it is the dotted capital I, which has no other upper case. -/
theorem upperChar_of_letterMatches {l c : Char} (hl : l ∈ prefixLetters)
    (h : letterMatches l c = true) (hc : c ≠ Char.ofNat 0x130) : Text.upperChar c = [l] := by
  simp only [prefixLetters, List.mem_cons, List.not_mem_nil, or_false] at hl
  rcases letterMatches_iff.mp h with rfl | rfl | ⟨rfl, rfl | rfl⟩
  · rcases hl with rfl | rfl | rfl | rfl | rfl <;> decide +kernel
  · rcases hl with rfl | rfl | rfl | rfl | rfl <;> decide +kernel
  · exact absurd rfl hc
  · decide +kernel

theorem upperChar_dotted_capital_i : Text.upperChar (Char.ofNat 0x130) = [Char.ofNat 0x130] := by
  decide +kernel

/-- Only the letter I stands for the dotted capital I. -/
theorem eq_I_of_letterMatches_dotted {l : Char} (hl : l ∈ prefixLetters)
    (h : letterMatches l (Char.ofNat 0x130) = true) : l = 'I' := by
  simp only [prefixLetters, List.mem_cons, List.not_mem_nil, or_false] at hl
  rcases hl with rfl | rfl | rfl | rfl | rfl <;> revert h <;> decide +kernel

/-- A character stands for at most one letter of the prefixes. -/
theorem letter_unique {l l' c : Char} (hl : l ∈ prefixLetters) (hl' : l' ∈ prefixLetters)
    (h : letterMatches l c = true) (h' : letterMatches l' c = true) : l = l' := by
  by_cases hc : c = Char.ofNat 0x130
  · subst hc
    rw [eq_I_of_letterMatches_dotted hl h, eq_I_of_letterMatches_dotted hl' h']
  · exact List.singleton_inj.mp
      ((upperChar_of_letterMatches hl h hc).symm.trans (upperChar_of_letterMatches hl' h' hc))

theorem prefixText_ne_nil (m : MemoryType) : m.prefixText.toList ≠ [] := by
  cases m <;> simp [prefixText_toList]

/-- The first character of a spelled prefix tells the space. -/
theorem eq_of_spells_head {m m' : MemoryType} {c : Char} {sp sp' : List Char}
    (h : Spells m.prefixText.toList (c :: sp)) (h' : Spells m'.prefixText.toList (c :: sp')) :
    m = m' := by
  have hfirst : ∀ {k : MemoryType} {sp : List Char}, Spells k.prefixText.toList (c :: sp) →
      ∃ l pre, k.prefixText.toList = l :: pre ∧ letterMatches l c = true := by
    intro k sp hk
    unfold Spells at hk
    cases hkp : k.prefixText.toList with
    | nil => rw [hkp] at hk; cases hk
    | cons l pre =>
      rw [hkp] at hk
      cases hk with
      | cons hl _ => exact ⟨l, pre, rfl, hl⟩
  obtain ⟨l, pre, hm, hl⟩ := hfirst h
  obtain ⟨l', pre', hm', hl'⟩ := hfirst h'
  have hll : l = l' := letter_unique (prefixText_letters m l (by simp [hm]))
    (prefixText_letters m' l' (by simp [hm'])) hl hl'
  have hhead : m.prefixText.toList.head? = m'.prefixText.toList.head? := by
    rw [hm, hm', hll]
    rfl
  -- the four prefixes start with four different letters
  cases m <;> cases m' <;> simp [prefixText_toList] at hhead ⊢

theorem Shaped.unique {cs : List Char} {m m' : MemoryType} {sp sp' : List Char} {n n' : Nat}
    (h : Shaped cs m sp n) (h' : Shaped cs m' sp' n') : m = m' ∧ sp = sp' ∧ n = n' := by
  obtain ⟨ds, rfl, hs, hv⟩ := h
  obtain ⟨ds', he, hs', hv'⟩ := h'
  have hlen := List.Forall₂.length_eq hs
  have hlen' := List.Forall₂.length_eq hs'
  -- a spelled prefix is never empty, so both spellings start with the text's first character
  have hne : sp ≠ [] := fun h0 =>
    prefixText_ne_nil m (List.length_eq_zero_iff.mp (by simp [hlen, h0]))
  have hne' : sp' ≠ [] := fun h0 =>
    prefixText_ne_nil m' (List.length_eq_zero_iff.mp (by simp [hlen', h0]))
  obtain ⟨c, sp₁, rfl⟩ := List.exists_cons_of_ne_nil hne
  obtain ⟨c', sp₁', rfl⟩ := List.exists_cons_of_ne_nil hne'
  obtain ⟨rfl, -⟩ : c = c' ∧ _ := List.cons.inj (by simpa using he)
  obtain rfl := eq_of_spells_head hs hs'
  obtain ⟨hsp, hds⟩ := List.append_inj he (hlen.symm.trans hlen')
  obtain rfl := List.cons.inj hds |>.2
  exact ⟨rfl, hsp, Option.some.inj (hv.symm.trans hv')⟩

/-- The first of a list whose values all agree is that value. -/
theorem findSome?_eq_of_forall {α β : Type} {f : α → Option β} {l : List α} {a : α} {b : β}
    (ha : a ∈ l) (hfa : f a = some b) (hall : ∀ x ∈ l, ∀ y, f x = some y → y = b) :
    l.findSome? f = some b := by
  induction l with
  | nil => simp at ha
  | cons x xs ih =>
    rw [List.findSome?_cons]
    cases hx : f x with
    | some y => rw [hall x List.mem_cons_self y hx]
    | none =>
      have hax : a ∈ xs := by
        rcases List.mem_cons.mp ha with rfl | h
        · rw [hfa] at hx
          cases hx
        · exact h
      exact ih hax fun z hz => hall z (List.mem_cons_of_mem _ hz)

/-- A text has an address shape exactly when it is shaped as the address of some space. -/
theorem shape?_eq_some_iff {cs sp : List Char} {n : Nat} :
    shape? cs = some (sp, n) ↔ ∃ m, Shaped cs m sp n := by
  rw [shape?_eq]
  constructor
  · intro h
    obtain ⟨l₁, pre, l₂, hl, hf, -⟩ := List.findSome?_eq_some_iff.mp h
    have hpre : pre ∈ MemoryType.all.map (·.prefixText.toList) := by
      rw [hl]
      simp
    obtain ⟨m, -, rfl⟩ := List.mem_map.mp hpre
    exact ⟨m, prefixShape_eq_some_iff.mp hf⟩
  · rintro ⟨m, hshape⟩
    have hm : m ∈ MemoryType.all := by cases m <;> simp [MemoryType.all]
    refine findSome?_eq_of_forall (List.mem_map_of_mem hm) (prefixShape_eq_some_iff.mpr hshape) ?_
    rintro _ hx ⟨sp', n'⟩ hy
    obtain ⟨m', -, rfl⟩ := List.mem_map.mp hx
    obtain ⟨-, rfl, rfl⟩ := Shaped.unique (prefixShape_eq_some_iff.mp hy) hshape
    rfl

/-- Spelled without the dotted capital I, a prefix comes back in upper case as itself. -/
theorem flatMap_upperChar_of_spells {pre sp : List Char} (hs : Spells pre sp)
    (hpre : ∀ l ∈ pre, l ∈ prefixLetters) (hdot : Char.ofNat 0x130 ∉ sp) :
    sp.flatMap Text.upperChar = pre := by
  unfold Spells at hs
  induction hs with
  | nil => rfl
  | @cons l c pre sp hl _ ih =>
    rw [List.flatMap_cons,
      upperChar_of_letterMatches (hpre l List.mem_cons_self) hl fun h => hdot (h ▸ List.mem_cons_self),
      ih (fun l' hl' => hpre l' (List.mem_cons_of_mem _ hl')) fun h => hdot (List.mem_cons_of_mem _ h)]
    rfl

theorem ofPrefix?_eq_some {s : String} {m : MemoryType} (h : MemoryType.ofPrefix? s = some m) :
    m.prefixText = s := by
  simpa using List.find?_some h

/-- Reading a text shaped as an address: the address when its prefix is spelled without the
dotted capital I, and otherwise an error, as the prefix in upper case names no space. -/
theorem parse?_of_shaped {s : String} {m : MemoryType} {sp : List Char} {n : Nat}
    (h : Shaped (Text.trim s).toList m sp n) :
    parse? s = if Char.ofNat 0x130 ∈ sp then .error (.targetPrefix (Text.upper (String.ofList sp)))
      else .ok (some ⟨m, n⟩) := by
  have hshape := shape?_eq_some_iff.mpr ⟨m, h⟩
  have hupper : (Text.upper (String.ofList sp)).toList = sp.flatMap Text.upperChar := by
    simp [Text.upper]
  obtain ⟨ds, -, hs, -⟩ := h
  unfold parse?
  rw [hshape]
  split_ifs with hdot
  · cases hp : MemoryType.ofPrefix? (Text.upper (String.ofList sp)) with
    | none => simp [hp]
    | some m' =>
      -- the dotted capital I stays in upper case, and no prefix holds it
      have hmem : Char.ofNat 0x130 ∈ m'.prefixText.toList := by
        rw [ofPrefix?_eq_some hp, hupper, List.mem_flatMap]
        exact ⟨_, hdot, by rw [upperChar_dotted_capital_i]; exact List.mem_singleton_self _⟩
      exact absurd (prefixText_letters m' _ hmem) (by decide)
  · have hpre : Text.upper (String.ofList sp) = m.prefixText := by
      rw [← String.toList_inj, hupper, flatMap_upperChar_of_spells hs (prefixText_letters m) hdot]
    simp only [hpre, (prefixText_facts m).2.2]

/-- The outcomes of reading a target address leniently. The text, without the blanks around it,
reads as an address exactly when it is shaped as the address and its prefix is spelled without
the dotted capital I; it is an error exactly when it is so shaped but the prefix holds that
letter; and it is none exactly when it has no address shape. -/
theorem parse?_outcomes (s : String) :
    (∀ t, parse? s = .ok (some t) ↔
      ∃ sp, Shaped (Text.trim s).toList t.memoryType sp t.number ∧ Char.ofNat 0x130 ∉ sp) ∧
    ((∃ e, parse? s = .error e) ↔
      ∃ m sp n, Shaped (Text.trim s).toList m sp n ∧ Char.ofNat 0x130 ∈ sp) ∧
    (parse? s = .ok none ↔ ∀ m sp n, ¬Shaped (Text.trim s).toList m sp n) := by
  cases hshape : shape? (Text.trim s).toList with
  | none =>
    have hnone : ∀ m sp n, ¬Shaped (Text.trim s).toList m sp n := fun m sp n h => by
      rw [shape?_eq_some_iff.mpr ⟨m, h⟩] at hshape
      cases hshape
    have hparse : parse? s = .ok none := by
      unfold parse?
      rw [hshape]
    rw [hparse]
    exact ⟨fun t => ⟨fun h => (by cases h), fun ⟨sp, h, _⟩ => absurd h (hnone _ _ _)⟩,
      ⟨fun ⟨e, h⟩ => (by cases h), fun ⟨m, sp, n, h, _⟩ => absurd h (hnone m sp n)⟩,
      ⟨fun _ => hnone, fun _ => rfl⟩⟩
  | some p =>
    obtain ⟨sp, n⟩ := p
    obtain ⟨m, h⟩ := shape?_eq_some_iff.mp hshape
    -- every other reading of the shape is this one
    have huniq := fun {m' sp' n'} (h' : Shaped (Text.trim s).toList m' sp' n') => h.unique h'
    rw [parse?_of_shaped h]
    by_cases hdot : Char.ofNat 0x130 ∈ sp
    · simp only [hdot, if_true]
      refine ⟨fun t => ⟨fun h' => (by cases h'), fun ⟨sp', h', hdot'⟩ => ?_⟩,
        ⟨fun _ => ⟨m, sp, n, h, hdot⟩, fun _ => ⟨_, rfl⟩⟩,
        ⟨fun h' => (by cases h'), fun hno => absurd h (hno m sp n)⟩⟩
      obtain ⟨-, rfl, -⟩ := huniq h'
      exact absurd hdot hdot'
    · simp only [hdot, if_false]
      refine ⟨fun t => ⟨fun h' => ?_, fun ⟨sp', h', _⟩ => ?_⟩,
        ⟨fun ⟨e, h'⟩ => (by cases h'), fun ⟨m', sp', n', h', hdot'⟩ => ?_⟩,
        ⟨fun h' => (by cases h'), fun hno => absurd h (hno m sp n)⟩⟩
      · cases h'
        exact ⟨sp, h, hdot⟩
      · obtain ⟨rfl, -, rfl⟩ := huniq h'
        rfl
      · obtain ⟨-, rfl, -⟩ := huniq h'
        exact absurd hdot' hdot

/-- The dotted capital I reads as the letter I, but in upper case it stays itself, so the text
has the shape of an input register and reads as an error. -/
example : (parse? "İR:3").toOption = none := by
  decide +kernel

end TargetAddress

/-! ## Operands -/

namespace Operand

/-- A decimal constant is a minus sign or a digit, followed by digits. -/
theorem head_of_decimal? {cs : List Char} {v : Int} (h : decimal? cs = some v) :
    ∃ c rest, cs = c :: rest ∧ (c = '-' ∨ Text.isDigit c = true) ∧
      ∀ x ∈ rest, Text.isDigit x = true := by
  unfold decimal? at h
  split at h
  · rename_i ds
    obtain ⟨n, hn⟩ : ∃ n, Text.digitsValue? ds = some n := by
      cases hn : Text.digitsValue? ds with
      | none => simp [hn] at h
      | some n => exact ⟨n, rfl⟩
    exact ⟨'-', ds, rfl, .inl rfl, (Text.digitsValue?_eq_some hn).2⟩
  · obtain ⟨n, hn⟩ : ∃ n, Text.digitsValue? cs = some n := by
      cases hn : Text.digitsValue? cs with
      | none => simp [hn] at h
      | some n => exact ⟨n, rfl⟩
    obtain ⟨hne, hall⟩ := Text.digitsValue?_eq_some hn
    obtain ⟨c, rest, rfl⟩ := List.exists_cons_of_ne_nil hne
    exact ⟨c, rest, rfl, .inr (hall c List.mem_cons_self),
      fun x hx => hall x (List.mem_cons_of_mem _ hx)⟩

/-- A hexadecimal constant starts with `H`, `h`, `0x` or `0X`. -/
theorem head_of_hexadecimal? {cs : List Char} {v : Nat} (h : hexadecimal? cs = some v) :
    ∃ rest, cs = 'H' :: rest ∨ cs = 'h' :: rest ∨ cs = '0' :: 'x' :: rest ∨
      cs = '0' :: 'X' :: rest := by
  unfold hexadecimal? at h
  split at h
  · exact ⟨_, .inl rfl⟩
  · exact ⟨_, .inr (.inl rfl)⟩
  · exact ⟨_, .inr (.inr (.inl rfl))⟩
  · exact ⟨_, .inr (.inr (.inr rfl))⟩
  · simp at h

/-- Which readings of an operand text succeed, in the order they are tried: as a decimal
constant, as a hexadecimal constant, as a device address. -/
def readings (s : String) : List Bool :=
  [(decimal? (Text.trim s).toList).isSome, (hexadecimal? (Text.trim s).toList).isSome,
    (DeviceAddress.parse? s).isSome]

/-- A decimal constant is neither a hexadecimal constant nor an address. -/
theorem decimal?_excludes {s : String} {v : Int} (hv : decimal? (Text.trim s).toList = some v) :
    hexadecimal? (Text.trim s).toList = none ∧ DeviceAddress.parse? s = none := by
  obtain ⟨c, rest, hcs, hc, hrest⟩ := head_of_decimal? hv
  refine ⟨?_, ?_⟩
  · -- a hexadecimal constant starts with a letter, or with a zero and a letter
    cases hhex : hexadecimal? (Text.trim s).toList with
    | none => rfl
    | some w =>
      obtain ⟨r, hr | hr | hr | hr⟩ := head_of_hexadecimal? hhex <;> rw [hcs] at hr <;>
        obtain ⟨rfl, rfl⟩ := List.cons.inj hr
      · exact absurd hc (by decide +kernel)
      · exact absurd hc (by decide +kernel)
      · exact absurd (hrest 'x' List.mem_cons_self) (by decide +kernel)
      · exact absurd (hrest 'X' List.mem_cons_self) (by decide +kernel)
  · -- the first character keeps its case and names no device
    rcases hc with rfl | hc
    · exact DeviceAddress.parse?_eq_none_of_head (d := '-') hcs (by decide +kernel) (by decide +kernel)
    · exact DeviceAddress.parse?_eq_none_of_head hcs (Text.upperChar_of_isDigit hc)
        (Device.ofChar?_eq_none_of_isDigit hc)

/-- A hexadecimal constant is no address: `H` and `0` name no device. -/
theorem hexadecimal?_excludes {s : String} {v : Nat}
    (hv : hexadecimal? (Text.trim s).toList = some v) : DeviceAddress.parse? s = none := by
  obtain ⟨r, hr | hr | hr | hr⟩ := head_of_hexadecimal? hv
  · exact DeviceAddress.parse?_eq_none_of_head (d := 'H') hr (by decide +kernel) (by decide +kernel)
  · exact DeviceAddress.parse?_eq_none_of_head (d := 'H') hr (by decide +kernel) (by decide +kernel)
  · exact DeviceAddress.parse?_eq_none_of_head (d := '0') hr (by decide +kernel) (by decide +kernel)
  · exact DeviceAddress.parse?_eq_none_of_head (d := '0') hr (by decide +kernel) (by decide +kernel)

/-- At most one reading of any operand text succeeds. -/
theorem readings_exclusive (s : String) : (readings s).count true ≤ 1 := by
  cases hdec : decimal? (Text.trim s).toList with
  | some v =>
    obtain ⟨hhex, haddr⟩ := decimal?_excludes hdec
    simp [readings, hdec, hhex, haddr]
  | none =>
    cases hhex : hexadecimal? (Text.trim s).toList with
    | some v => simp [readings, hdec, hhex, hexadecimal?_excludes hhex]
    | none => cases haddr : DeviceAddress.parse? s <;> simp [readings, hdec, hhex, haddr]

end Operand

end RelayLadder
