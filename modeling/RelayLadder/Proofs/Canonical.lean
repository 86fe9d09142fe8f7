import RelayLadder.Proofs.Records
import RelayLadder.Rung.Assembler
import Mathlib.Data.List.TakeDrop

/-! # Canonical texts read back

The writer spells every value one way: a number in ASCII decimal, a constant with a minus sign
when it is negative, an address as its device letter, its number padded to four digits, its
bit after a point and its index register in brackets, a time base by its unit. Each spelling
reads back as the value it was written from. It holds no blank, so trimming keeps it; an
address holds no lower-case letter, so upper case keeps it; and a run of digits stops where
the spelling puts a point, a bracket or its end. Every such text is also a field that a
record carries whole (`Text.Clean`).
-/

namespace RelayLadder

namespace Text

/-! ## Characters that reading keeps -/

/-- A printable ASCII character other than the space. -/
def Printable (c : Char) : Prop := 0x21 ≤ c.toNat ∧ c.toNat ≤ 0x7e

instance : DecidablePred Printable := fun _ => inferInstanceAs (Decidable (_ ∧ _))

theorem isBlank_eq_false {c : Char} (h : Printable c) : isBlank c = false := by
  have hcodes : blankCodes.all (fun n => n < 0x21 ∨ 0x7e < n) = true := by decide +kernel
  rw [Bool.eq_false_iff]
  intro hc
  have := List.all_eq_true.mp hcodes c.toNat (List.contains_iff_mem.mp hc)
  simp only [decide_eq_true_eq] at this
  exact absurd h (by unfold Printable; omega)

/-- Below the lower-case letters no character changes in upper case: every run and every
expansion of the case table starts above them. -/
theorem upperChar_of_lt {c : Char} (h : c.toNat < 0x61) : upperChar c = [c] := by
  have hexp : upperExpansions.all (fun e => 0x61 ≤ e.1) = true := by decide +kernel
  have hruns : upperRuns.all (fun r => 0x61 ≤ r.first) = true := by decide +kernel
  have h1 : upperExpansions.find? (·.1 == c.toNat) = none := by
    rw [List.find?_eq_none]
    intro e he heq
    have := List.all_eq_true.mp hexp e he
    simp only [beq_iff_eq, decide_eq_true_eq] at heq this
    omega
  have h2 : upperRuns.find? (·.holds c.toNat) = none := by
    rw [List.find?_eq_none]
    intro r hr hholds
    have := List.all_eq_true.mp hruns r hr
    simp only [CaseRun.holds, Bool.and_eq_true, decide_eq_true_eq] at hholds this
    omega
  simp [upperChar, h1, h2]

theorem upper_eq_self {s : String} (h : ∀ c ∈ s.toList, c.toNat < 0x61) : upper s = s := by
  suffices ∀ l : List Char, (∀ c ∈ l, c.toNat < 0x61) → l.flatMap upperChar = l by
    simp [upper, this s.toList h]
  intro l hl
  induction l with
  | nil => rfl
  | cons c l ih =>
    rw [List.flatMap_cons, upperChar_of_lt (hl c List.mem_cons_self),
      ih fun d hd => hl d (List.mem_cons_of_mem _ hd)]
    rfl

theorem trim_eq_self {s : String} (h : ∀ c ∈ s.toList, isBlank c = false) : trim s = s := by
  have hcs : trimChars s.toList = s.toList :=
    trimChars_eq_self (fun c hc => h c (List.mem_of_mem_head? hc))
      (fun c hc => h c (List.mem_of_mem_getLast? hc))
  simp [trim, hcs]

/-- A text of printable characters is carried whole by a record. -/
theorem clean_of_printable {s : String} (h : ∀ c ∈ s.toList, Printable c) : Clean s where
  no_break c hc := by
    have := h c hc
    unfold Printable at this
    have hlf : c ≠ '\n' := fun he => by rw [he] at this; exact absurd this (by decide)
    have hcr : c ≠ '\r' := fun he => by rw [he] at this; exact absurd this (by decide)
    simp [Delimited.Reader.isLineBreak, hlf, hcr]
  trim_eq := trim_eq_self fun c hc => isBlank_eq_false (h c hc)

/-- A text checked to be printable character by character. -/
theorem printable_of_all {s : String} (h : s.toList.all (fun c => decide (Printable c)) = true) :
    ∀ c ∈ s.toList, Printable c :=
  fun c hc => of_decide_eq_true (List.all_eq_true.mp h c hc)

theorem clean_empty : Clean "" := clean_of_printable (by simp)

/-! ## Decimal digits -/

theorem digitValue?_digitChar {k : Nat} (h : k < 10) : digitValue? k.digitChar = some k := by
  have hall : ∀ k, k < 10 → digitValue? k.digitChar = some k := by decide +kernel
  exact hall k h

/-- Only the ASCII digits lie below the digits of every other script. -/
theorem digitValue?_eq_none (c : Char) (h : c.toNat < 0x30 ∨ 0x3a ≤ c.toNat ∧ c.toNat < 0x660) :
    digitValue? c = none := by
  have hzeros : digitZeros.all (fun z => z = 0x30 ∨ 0x660 ≤ z) = true := by decide +kernel
  unfold digitValue?
  rw [List.findSome?_eq_none_iff]
  intro z hz
  have := List.all_eq_true.mp hzeros z hz
  simp only [decide_eq_true_eq] at this
  rw [if_neg (by omega)]

theorem isDigit_eq_false (c : Char) (h : c.toNat < 0x30 ∨ 0x3a ≤ c.toNat ∧ c.toNat < 0x660) :
    isDigit c = false := by
  simp [isDigit, digitValue?_eq_none c h]

/-- The characters of a decimal numeral are the digits of its places. -/
theorem exists_digitChar_of_mem_toDigits {n : Nat} {c : Char} (h : c ∈ Nat.toDigits 10 n) :
    ∃ k < 10, c = k.digitChar := by
  induction n using Nat.strong_induction_on with
  | _ n ih =>
    rw [Nat.toDigits_eq_if (by decide)] at h
    split at h
    · exact ⟨n, ‹_›, List.mem_singleton.mp h⟩
    · rcases List.mem_append.mp h with h | h
      · exact ih (n / 10) (by omega) h
      · exact ⟨n % 10, Nat.mod_lt _ (by decide), List.mem_singleton.mp h⟩

/-- An ASCII digit is printable, no sign, below the letters, and a digit. -/
theorem digitChar_facts {k : Nat} (h : k < 10) :
    Printable k.digitChar ∧ k.digitChar ≠ '-' ∧ k.digitChar.toNat < 0x3a ∧
      isDigit k.digitChar = true ∧ isAsciiDigit k.digitChar = true := by
  have hall : ∀ k, k < 10 → Printable k.digitChar ∧ k.digitChar ≠ '-' ∧
      k.digitChar.toNat < 0x3a ∧ isAsciiDigit k.digitChar = true := by decide +kernel
  obtain ⟨hp, hminus, hlt, hascii⟩ := hall k h
  exact ⟨hp, hminus, hlt, by simp [isDigit, digitValue?_digitChar h], hascii⟩

/-- Reading the digits of a numeral, from any number read before them. -/
theorem foldlM_toDigits (n : Nat) :
    (Nat.toDigits 10 n).foldlM (fun acc c => (digitValue? c).map (acc * 10 + ·)) 0 = some n := by
  induction n using Nat.strong_induction_on with
  | _ n ih =>
    rw [Nat.toDigits_eq_if (by decide)]
    split
    · simp [digitValue?_digitChar ‹n < 10›]
    · rw [List.foldlM_append, ih (n / 10) (by omega)]
      simp only [Option.bind_eq_bind, Option.bind_some, List.foldlM_cons, List.foldlM_nil,
        digitValue?_digitChar (Nat.mod_lt n (by decide : 10 > 0)), Option.map_some]
      congr 1
      omega

theorem digitsValue?_toDigits (n : Nat) : digitsValue? (Nat.toDigits 10 n) = some n := by
  simp [digitsValue?, foldlM_toDigits]

/-- Zeros in front of a numeral do not change what it reads as. -/
theorem digitsValue?_replicate_append (k : Nat) {ds : List Char} (hds : ds ≠ []) :
    digitsValue? (List.replicate k '0' ++ ds) = digitsValue? ds := by
  have hzero : digitValue? '0' = some 0 := digitValue?_digitChar (by decide : (0 : Nat) < 10)
  suffices (List.replicate k '0' ++ ds).foldlM (fun acc c => (digitValue? c).map (acc * 10 + ·)) 0 =
      ds.foldlM (fun acc c => (digitValue? c).map (acc * 10 + ·)) 0 by
    simpa [digitsValue?, hds] using this
  induction k with
  | zero => rfl
  | succ k ih =>
    rw [List.replicate_succ, List.cons_append, List.foldlM_cons, hzero]
    simpa using ih

end Text

/-! ## Device addresses -/

/-- A run of digits read off the front of a text stops where a character that is no digit
follows. -/
theorem readDigits_append {ds rest : List Char} {n : Nat} (hds : ∀ c ∈ ds, Text.isDigit c = true)
    (hv : Text.digitsValue? ds = some n) (hrest : ∀ c ∈ rest.head?, Text.isDigit c = false) :
    readDigits (ds ++ rest) = some (n, rest) := by
  have htake : rest.takeWhile Text.isDigit = [] := by
    cases rest with
    | nil => rfl
    | cons c r => simp [hrest c rfl]
  have hdrop : rest.dropWhile Text.isDigit = rest := by
    cases rest with
    | nil => rfl
    | cons c r => simp [hrest c rfl]
  simp [readDigits, List.span_eq_takeWhile_dropWhile, List.takeWhile_append_of_pos hds,
    List.dropWhile_append_of_pos hds, htake, hdrop, hv]

theorem readDigits_toDigits (n : Nat) (rest : List Char)
    (hrest : ∀ c ∈ rest.head?, Text.isDigit c = false) :
    readDigits (Nat.toDigits 10 n ++ rest) = some (n, rest) := by
  refine readDigits_append (fun c hc => ?_) (Text.digitsValue?_toDigits n) hrest
  obtain ⟨k, hk, rfl⟩ := Text.exists_digitChar_of_mem_toDigits hc
  exact (Text.digitChar_facts hk).2.2.2.1

theorem readDigits_zeroPadded (w n : Nat) (rest : List Char)
    (hrest : ∀ c ∈ rest.head?, Text.isDigit c = false) :
    readDigits ((zeroPadded w n).toList ++ rest) = some (n, rest) := by
  have hzero : Text.isDigit '0' = true := (Text.digitChar_facts (by decide : (0 : Nat) < 10)).2.2.2.1
  refine readDigits_append (fun c hc => ?_) ?_ hrest
  · simp only [zeroPadded, String.toList_ofList, List.mem_append, List.mem_replicate] at hc
    rcases hc with ⟨-, rfl⟩ | hc
    · exact hzero
    · obtain ⟨k, hk, rfl⟩ := Text.exists_digitChar_of_mem_toDigits hc
      exact (Text.digitChar_facts hk).2.2.2.1
  · simp only [zeroPadded, String.toList_ofList]
    rw [Text.digitsValue?_replicate_append _ Nat.toDigits_ne_nil, Text.digitsValue?_toDigits]

namespace DeviceAddress

/-- The characters of the canonical text: the device letter, the padded number, the bit after
a point, the index register in brackets. -/
theorem toList_format (a : DeviceAddress) :
    a.format.toList = a.device.letter :: ((zeroPadded 4 a.number).toList ++
      (a.bitIndex.elim [] fun b => '.' :: Nat.toDigits 10 b) ++
      (a.indexRegister.elim [] fun z => '[' :: 'Z' :: Nat.toDigits 10 z ++ [']'])) := by
  obtain ⟨d, n, bit, idx⟩ := a
  cases bit <;> cases idx <;> simp [format, Device.name]

theorem ofChars?_format {a : DeviceAddress} (h : ∀ b ∈ a.bitIndex, b ≤ maxBitIndex) :
    ofChars? a.format.toList = some a := by
  have hpoint := Text.isDigit_eq_false '.' (by decide)
  have hbracket := Text.isDigit_eq_false '[' (by decide)
  have hclose := Text.isDigit_eq_false ']' (by decide)
  obtain ⟨d, n, bit, idx⟩ := a
  rw [toList_format]
  -- each run of digits ends at the point, the bracket or the end of the text
  cases bit <;> cases idx
  case none.none =>
    have hn := readDigits_zeroPadded 4 n ([]) (by simp)
    rw [List.append_nil] at hn
    simp [ofChars?, Device.ofChar_letter, hn]
  case none.some z =>
    have hn := readDigits_zeroPadded 4 n ('[' :: 'Z' :: (Nat.toDigits 10 z ++ [']']))
      (by simp [hbracket])
    have hz := readDigits_toDigits z ([']']) (by simp [hclose])
    simp [ofChars?, Device.ofChar_letter, hn, hz]
  case some.none b =>
    have hn := readDigits_zeroPadded 4 n ('.' :: Nat.toDigits 10 b) (by simp [hpoint])
    have hb := readDigits_toDigits b ([]) (by simp)
    rw [List.append_nil] at hb
    simpa [ofChars?, Device.ofChar_letter, hn, hb] using h
  case some.some b z =>
    have hn := readDigits_zeroPadded 4 n
      ('.' :: (Nat.toDigits 10 b ++ '[' :: 'Z' :: (Nat.toDigits 10 z ++ [']'])))
      (by simp [hpoint])
    have hb := readDigits_toDigits b ('[' :: 'Z' :: (Nat.toDigits 10 z ++ [']']))
      (by simp [hbracket])
    have hz := readDigits_toDigits z ([']']) (by simp [hclose])
    simpa [ofChars?, Device.ofChar_letter, hn, hb, hz] using h

/-- Every character of the canonical text is printable and below the lower-case letters. -/
theorem format_chars (a : DeviceAddress) :
    ∀ c ∈ a.format.toList, Text.Printable c ∧ c.toNat < 0x61 := by
  have hlit : ∀ c ∈ ['0', '.', '[', 'Z', ']'], Text.Printable c ∧ c.toNat < 0x61 := by
    intro c hc
    simp only [List.mem_cons, List.not_mem_nil, or_false] at hc
    rcases hc with rfl | rfl | rfl | rfl | rfl <;> exact ⟨⟨by decide, by decide⟩, by decide⟩
  have hletter : Text.Printable a.device.letter ∧ a.device.letter.toNat < 0x61 := by
    cases a.device <;> decide
  intro c hc
  -- a character of the text is the letter, one of the fixed marks, or a digit of a numeral
  have hkind : c = a.device.letter ∨ c ∈ ['0', '.', '[', 'Z', ']'] ∨ ∃ k, c ∈ Nat.toDigits 10 k := by
    rw [toList_format] at hc
    cases ha : a.bitIndex <;> cases hz : a.indexRegister <;>
      simp only [ha, hz, zeroPadded, String.toList_ofList, Option.elim, List.mem_cons,
        List.mem_append, List.mem_replicate, List.not_mem_nil, or_false] at hc <;>
      grind
  rcases hkind with rfl | hlist | ⟨k, hk⟩
  · exact hletter
  · exact hlit c hlist
  · obtain ⟨j, hj, rfl⟩ := Text.exists_digitChar_of_mem_toDigits hk
    obtain ⟨hp, -, hlt, -⟩ := Text.digitChar_facts hj
    exact ⟨hp, by omega⟩

theorem parse?_format {a : DeviceAddress} (h : ∀ b ∈ a.bitIndex, b ≤ maxBitIndex) :
    parse? a.format = some a := by
  have hkeep := format_chars a
  rw [parse?, Text.trim_eq_self fun c hc => Text.isBlank_eq_false (hkeep c hc).1,
    Text.upper_eq_self fun c hc => (hkeep c hc).2, ofChars?_format h]

theorem clean_format (a : DeviceAddress) : Text.Clean a.format :=
  Text.clean_of_printable fun c hc => (format_chars a c hc).1

end DeviceAddress

/-! ## Constants and operands -/

namespace Text

theorem toList_toString_ofNat (n : Nat) : (toString (n : Int)).toList = Nat.toDigits 10 n := by
  simp [Int.repr]

theorem toList_toString_negSucc (n : Nat) :
    (toString (Int.negSucc n)).toList = '-' :: Nat.toDigits 10 (n + 1) := by
  simp [Int.repr]

/-- The decimal text of an integer is printable: a minus sign and ASCII digits. -/
theorem printable_toString (v : Int) : ∀ c ∈ (toString v).toList, Printable c := by
  have hdigit : ∀ {k : Nat} {c : Char}, c ∈ Nat.toDigits 10 k → Printable c := by
    intro k c hc
    obtain ⟨j, hj, rfl⟩ := exists_digitChar_of_mem_toDigits hc
    exact (digitChar_facts hj).1
  intro c hc
  cases v with
  | ofNat n => exact hdigit (toList_toString_ofNat n ▸ hc)
  | negSucc n =>
    rw [toList_toString_negSucc, List.mem_cons] at hc
    rcases hc with rfl | hc
    · decide
    · exact hdigit hc

end Text

namespace Operand

theorem decimal?_toString (v : Int) : decimal? (toString v).toList = some v := by
  cases v with
  | ofNat n =>
    obtain ⟨c, cs, hcs⟩ := List.exists_cons_of_ne_nil (@Nat.toDigits_ne_nil n 10)
    have hc : c ≠ '-' := by
      obtain ⟨k, hk, rfl⟩ := Text.exists_digitChar_of_mem_toDigits (hcs ▸ List.mem_cons_self)
      exact (Text.digitChar_facts hk).2.1
    rw [Int.ofNat_eq_natCast, Text.toList_toString_ofNat, hcs]
    -- a numeral without a sign is read as a natural number
    unfold decimal?
    split
    · rename_i ds heq
      exact absurd (List.cons.inj heq).1 hc
    · rw [← hcs, Text.digitsValue?_toDigits]
      rfl
  | negSucc n =>
    rw [Text.toList_toString_negSucc]
    simp [decimal?, Text.digitsValue?_toDigits, Int.negSucc_eq]

theorem printable_text (o : Operand) : ∀ c ∈ o.text.toList, Text.Printable c := by
  cases o with
  | address a => exact fun c hc => (a.format_chars c hc).1
  | immediate v => exact Text.printable_toString v

theorem clean_text (o : Operand) : Text.Clean o.text := Text.clean_of_printable o.printable_text

/-- The text of an operand reads back as the operand, as long as an address names a bit no
higher than fifteen. An address is no constant: its text starts with its device letter, which
is neither a digit nor a minus sign nor a hexadecimal prefix. -/
theorem parse?_text {o : Operand}
    (h : ∀ a ∈ o.address?, ∀ b ∈ a.bitIndex, b ≤ DeviceAddress.maxBitIndex) :
    parse? o.text = some o := by
  have htrim : Text.trim o.text = o.text :=
    Text.trim_eq_self fun c hc => Text.isBlank_eq_false (o.printable_text c hc)
  cases o with
  | immediate v =>
    have hne : (toString v).toList.isEmpty = false := by
      cases v with
      | ofNat n =>
        rw [Int.ofNat_eq_natCast, Text.toList_toString_ofNat]
        exact List.isEmpty_eq_false_iff.mpr Nat.toDigits_ne_nil
      | negSucc n => rw [Text.toList_toString_negSucc]; rfl
    simp only [text] at htrim
    simp only [parse?, text, htrim, hne, decimal?_toString, Bool.false_eq_true, if_false]
  | address a =>
    have hne : a.format.toList.isEmpty = false := by
      rw [DeviceAddress.toList_format]
      rfl
    have hminus : a.device.letter ≠ '-' := by cases a.device <;> decide
    have hletter : Text.digitValue? a.device.letter = none := by
      apply Text.digitValue?_eq_none _
      cases a.device <;> decide
    have hdec : decimal? a.format.toList = none := by
      rw [DeviceAddress.toList_format]
      unfold decimal?
      split
      · rename_i ds heq
        exact absurd (List.cons.inj heq).1 hminus
      · simp [Text.digitsValue?, hletter]
    have hhex : hexadecimal? a.format.toList = none := by
      rw [DeviceAddress.toList_format]
      cases a.device <;> rfl
    simp only [text] at htrim
    simp only [parse?, text, htrim, hne, hdec, hhex, DeviceAddress.parse?_format (h a rfl),
      Bool.false_eq_true, if_false, Option.map_some]

end Operand

namespace Assembler

theorem preset_toString (p : Int) : preset (some (toString p)) = p := by
  have htrim : Text.trim (toString p) = toString p :=
    Text.trim_eq_self fun c hc => Text.isBlank_eq_false (Text.printable_toString p c hc)
  simp only [preset, htrim, Operand.decimal?_toString]

theorem timeBase_name (tb : TimeBase) : timeBase (some tb.name) = tb := by
  cases tb <;> decide +kernel

end Assembler

/-! ## Mnemonics

Each mnemonic the writer gives an instruction names that instruction again, in upper case. The
table's keys are spelt in printable characters below the lower-case letters, so a key is found
again from its upper case without computing the case table.
-/

theorem mnemonicTable_keys_plain :
    mnemonicTable.all (fun e => e.1.toList.all fun c =>
      decide (Text.Printable c) && decide (c.toNat < 0x61)) = true := by
  decide +kernel

/-- A key of the table, put in upper case, is looked up as itself. -/
theorem lookupInstruction_upper {s : String} {i : Instruction}
    (h : mnemonicTable.lookup s = some i) : lookupInstruction (Text.upper s) = some i := by
  obtain ⟨l₁, l₂, hsplit, -⟩ := List.lookup_eq_some_iff.mp h
  have hkey := List.all_eq_true.mp mnemonicTable_keys_plain _
    (hsplit ▸ List.mem_append_right _ List.mem_cons_self)
  have hplain : ∀ c ∈ s.toList, Text.Printable c ∧ c.toNat < 0x61 := fun c hc => by
    simpa using List.all_eq_true.mp hkey c hc
  have hup : Text.upper s = s := Text.upper_eq_self fun c hc => (hplain c hc).2
  have htrim : Text.trim s = s :=
    Text.trim_eq_self fun c hc => Text.isBlank_eq_false (hplain c hc).1
  rw [lookupInstruction, hup, htrim, hup, h]

theorem lookupInstruction_contact (t : ContactType) :
    lookupInstruction (Text.upper ("LOAD" ++ t.suffix)) = some (.contact .load t) ∧
      lookupInstruction (Text.upper ("AND" ++ t.suffix)) = some (.contact .and t) := by
  cases t <;> exact ⟨lookupInstruction_upper (by decide), lookupInstruction_upper (by decide)⟩

theorem lookupInstruction_compare (op : Comparison) :
    lookupInstruction (Text.upper ("LD" ++ op.symbol)) = some (.compare .load op) ∧
      lookupInstruction (Text.upper ("AND" ++ op.symbol)) = some (.compare .and op) := by
  cases op <;> exact ⟨lookupInstruction_upper (by decide), lookupInstruction_upper (by decide)⟩

/-- Only a plain output coil has a negated mnemonic. -/
theorem lookupInstruction_coil (t : CoilType) {neg : Bool} (h : neg = true → t = .out) :
    lookupInstruction (Text.upper (t.mnemonic ++ if neg then "N" else "")) = some (.coil t neg) := by
  cases neg with
  | false => cases t <;> exact lookupInstruction_upper (by decide)
  | true =>
    obtain rfl := h rfl
    exact lookupInstruction_upper (by decide)

theorem lookupInstruction_timer (t : TimerType) :
    lookupInstruction (Text.upper t.name) = some (.timer t) := by
  cases t <;> exact lookupInstruction_upper (by decide)

theorem lookupInstruction_counter (t : CounterType) :
    lookupInstruction (Text.upper t.name) = some (.counter t) := by
  cases t <;> exact lookupInstruction_upper (by decide)

theorem lookupInstruction_math (op : MathOperator) :
    lookupInstruction (Text.upper op.name) = some (.math op) := by
  cases op <;> exact lookupInstruction_upper (by decide)

theorem lookupInstruction_join :
    lookupInstruction (Text.upper "ANDB") = some (.joinBranches .series) ∧
      lookupInstruction (Text.upper "ORB") = some (.joinBranches .parallel) :=
  ⟨lookupInstruction_upper (by decide), lookupInstruction_upper (by decide)⟩

/-- A coil is negated by the builder only when its mnemonic says so, and only `OUTN` does. -/
theorem coil_of_lookupInstruction {s : String} {t : CoilType}
    (h : lookupInstruction s = some (.coil t true)) : t = .out := by
  have htable : mnemonicTable.all (fun e => match e.2 with
      | .coil t true => t == .out
      | _ => true) = true := by decide +kernel
  obtain ⟨k, hk⟩ : ∃ k, (k, Instruction.coil t true) ∈ mnemonicTable := by
    obtain ⟨l₁, l₂, hsplit, -⟩ := List.lookup_eq_some_iff.mp h
    exact ⟨_, hsplit ▸ List.mem_append_right _ List.mem_cons_self⟩
  have := List.all_eq_true.mp htable _ hk
  simpa using this

namespace Row

theorem asciiNumber?_toString (n : Nat) : asciiNumber? (toString n) = some n := by
  have hall : (Nat.toDigits 10 n).all Text.isAsciiDigit = true := by
    refine List.all_eq_true.mpr fun c hc => ?_
    obtain ⟨k, hk, rfl⟩ := Text.exists_digitChar_of_mem_toDigits hc
    exact (Text.digitChar_facts hk).2.2.2.2
  simp [asciiNumber?, hall, Text.digitsValue?_toDigits]

end Row

end RelayLadder
