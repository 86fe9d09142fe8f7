import RelayLadder.Proofs.Canonical
import Mathlib.Data.Nat.Digits.Defs

/-! # A written row reads back as its fields

A listing line is written from seven fields, and read back it is the row those fields make:
the sequence number and the step are the numbers their ASCII digits write, the instruction is
taken in upper case, and each operand and the comment is the field as written, or absent when
the field is empty. This holds for any fields that hold no line break and no blank at either
end: the writer quotes exactly the fields that need it, the reader undoes the quoting
(`readLine_writeRecord`), and trimming keeps each field as it stands.
-/

namespace RelayLadder

namespace Text

/-- The number that ASCII digits write in decimal, the most significant digit first. -/
def decimalValue (s : String) : Nat :=
  Nat.ofDigits 10 (s.toList.reverse.map fun c => c.toNat - '0'.toNat)

/-- An ASCII digit is a digit of the first script, whose zero is the ASCII zero. -/
theorem digitValue?_of_isDigit {c : Char} (h : c.isDigit = true) :
    digitValue? c = some (c.toNat - '0'.toNat) := by
  have hc := Char.isDigit_iff_toNat.mp h
  have h0 : '0'.toNat = 0x30 := rfl
  have h9 : '9'.toNat = 0x39 := rfl
  rw [digitValue?, digitZeros, List.findSome?_cons, if_pos ⟨by omega, by omega⟩, h0]

/-- Reading ASCII digits one at a time computes their decimal value. -/
theorem foldlM_digitValue? {cs : List Char} (h : ∀ c ∈ cs, c.isDigit = true) :
    cs.foldlM (fun acc c => (digitValue? c).map (acc * 10 + ·)) 0 =
      some (Nat.ofDigits 10 (cs.reverse.map fun c => c.toNat - '0'.toNat)) := by
  induction cs using List.reverseRecOn with
  | nil => rfl
  | append_singleton cs c ih =>
    have hc := digitValue?_of_isDigit (h c (by simp))
    rw [List.foldlM_append, ih fun d hd => h d (List.mem_append_left _ hd)]
    simp only [Option.bind_eq_bind, Option.bind_some, List.foldlM_cons, hc, Option.map_some,
      List.foldlM_nil, List.reverse_append, List.reverse_singleton, List.singleton_append,
      List.map_cons, Nat.ofDigits_cons]
    congr 1
    ring

end Text

namespace Row

/-- A non-empty run of ASCII digits is a number, the one it writes in decimal. -/
theorem asciiNumber?_eq_decimalValue {s : String} (hne : s ≠ "")
    (h : ∀ c ∈ s.toList, c.isDigit = true) : asciiNumber? s = some (Text.decimalValue s) := by
  have hascii : s.toList.all Text.isAsciiDigit = true := by
    refine List.all_eq_true.mpr fun c hc => ?_
    simpa [Text.isAsciiDigit, Char.isDigit, Char.le_def] using h c hc
  have hchars : s.toList ≠ [] := by simpa using hne
  simp [asciiNumber?, hascii, Text.digitsValue?, hchars, Text.foldlM_digitValue? h,
    Text.decimalValue]

/-- A field without a carriage return or a line feed, and equal to its trimmed self, is
carried whole by a record. -/
theorem clean_of_trim_eq {f : String} (hbreak : '\r' ∉ f.toList ∧ '\n' ∉ f.toList)
    (htrim : Text.trim f = f) : Text.Clean f where
  no_break c hc := by
    have hcr : c ≠ '\r' := fun he => hbreak.1 (he ▸ hc)
    have hlf : c ≠ '\n' := fun he => hbreak.2 (he ▸ hc)
    simp [Text.Delimited.Reader.isLineBreak, hcr, hlf]
  trim_eq := htrim

theorem field?_eq {fs : List String} {i : Nat} {f : String} (h : fs[i]? = some f) :
    field? fs i = if f = "" then none else some f := by
  simp [field?, h]

/-- Seven fields, with a sequence number and a step of ASCII digits and an instruction, make
the row of their values. -/
theorem ofFields?_seven {f₀ f₁ f₂ f₃ f₄ f₅ f₆ : String}
    (hseq : f₀ ≠ "" ∧ ∀ c ∈ f₀.toList, c.isDigit = true)
    (hstep : f₁ ≠ "" ∧ ∀ c ∈ f₁.toList, c.isDigit = true) (hinstr : f₂ ≠ "") :
    ofFields? [f₀, f₁, f₂, f₃, f₄, f₅, f₆] = some
      { sequence := Text.decimalValue f₀, step := Text.decimalValue f₁,
        instruction := Text.upper f₂,
        operand1 := if f₃ = "" then none else some f₃,
        operand2 := if f₄ = "" then none else some f₄,
        operand3 := if f₅ = "" then none else some f₅,
        comment := if f₆ = "" then none else some f₆ } := by
  have hinstr' : f₂.isEmpty = false := by simpa using hinstr
  simp only [ofFields?, asciiNumber?_eq_decimalValue hseq.1 hseq.2,
    asciiNumber?_eq_decimalValue hstep.1 hstep.2, bind, Option.bind_some, hinstr',
    Bool.false_eq_true, if_false]
  rw [field?_eq rfl, field?_eq rfl, field?_eq rfl, field?_eq rfl]

/-- A line written from seven fields reads back as the row of their values, when no field
holds a line break or a blank at either end, the sequence number and the step are ASCII
digits and the instruction is not empty. -/
theorem parse_writeRecord {f₀ f₁ f₂ f₃ f₄ f₅ f₆ : String}
    (hbreak : ∀ f ∈ [f₀, f₁, f₂, f₃, f₄, f₅, f₆], '\r' ∉ f.toList ∧ '\n' ∉ f.toList)
    (htrim : ∀ f ∈ [f₀, f₁, f₂, f₃, f₄, f₅, f₆], Text.trim f = f)
    (hseq : f₀ ≠ "" ∧ ∀ c ∈ f₀.toList, c.isDigit = true)
    (hstep : f₁ ≠ "" ∧ ∀ c ∈ f₁.toList, c.isDigit = true) (hinstr : f₂ ≠ "") :
    parse (Text.Delimited.writeRecord [f₀, f₁, f₂, f₃, f₄, f₅, f₆]) = .ok (some
      { sequence := Text.decimalValue f₀, step := Text.decimalValue f₁,
        instruction := Text.upper f₂,
        operand1 := if f₃ = "" then none else some f₃,
        operand2 := if f₄ = "" then none else some f₄,
        operand3 := if f₅ = "" then none else some f₅,
        comment := if f₆ = "" then none else some f₆ }) := by
  have hclean : ∀ f ∈ [f₀, f₁, f₂, f₃, f₄, f₅, f₆], Text.Clean f :=
    fun f hf => clean_of_trim_eq (hbreak f hf) (htrim f hf)
  have htrimmed : [f₀, f₁, f₂, f₃, f₄, f₅, f₆].map Text.trim = [f₀, f₁, f₂, f₃, f₄, f₅, f₆] := by
    rw [List.map_congr_left fun f hf => htrim f hf, List.map_id']
  rw [parse, Text.Delimited.readLine_writeRecord (by simp) hclean, Except.map, htrimmed,
    ofFields?_seven hseq hstep hinstr]

/-- Quotes, commas and blanks inside fields come back as written. -/
theorem parse_writeRecord_quoted :
    (∀ f ∈ ["007", "12", "ld", "X0,1", "say \"hi\"", "\"", "a b"],
      '\r' ∉ f.toList ∧ '\n' ∉ f.toList) ∧
    (∀ f ∈ ["007", "12", "ld", "X0,1", "say \"hi\"", "\"", "a b"], Text.trim f = f) ∧
    ("007" ≠ "" ∧ ∀ c ∈ "007".toList, c.isDigit = true) ∧
    ("12" ≠ "" ∧ ∀ c ∈ "12".toList, c.isDigit = true) ∧ "ld" ≠ "" ∧
    parse (Text.Delimited.writeRecord ["007", "12", "ld", "X0,1", "say \"hi\"", "\"", "a b"]) =
      .ok (some
        { sequence := Text.decimalValue "007", step := Text.decimalValue "12",
          instruction := Text.upper "ld",
          operand1 := if "X0,1" = "" then none else some "X0,1",
          operand2 := if "say \"hi\"" = "" then none else some "say \"hi\"",
          operand3 := if "\"" = "" then none else some "\"",
          comment := if "a b" = "" then none else some "a b" }) :=
  have hbreak : ∀ f ∈ ["007", "12", "ld", "X0,1", "say \"hi\"", "\"", "a b"],
      '\r' ∉ f.toList ∧ '\n' ∉ f.toList := by decide
  have htrim : ∀ f ∈ ["007", "12", "ld", "X0,1", "say \"hi\"", "\"", "a b"], Text.trim f = f := by
    decide +kernel
  have hseq : "007" ≠ "" ∧ ∀ c ∈ "007".toList, c.isDigit = true := ⟨by decide, by simp⟩
  have hstep : "12" ≠ "" ∧ ∀ c ∈ "12".toList, c.isDigit = true := ⟨by decide, by simp⟩
  have hinstr : "ld" ≠ "" := by decide
  ⟨hbreak, htrim, hseq, hstep, hinstr, parse_writeRecord hbreak htrim hseq hstep hinstr⟩

end Row

end RelayLadder
