import RelayLadder.Proofs.Symbols
import RelayLadder.Proofs.Validity

/-! # Building does not see how steps are interleaved

Node ids run on from one network to the next, so the networks of a program depend on the order
in which their steps are built. That order is the ascending order of the steps, and each network
is built from the rows of its step in source order; so two row lists that hold the same rows of
each step, in the same order, build the same networks, however the steps are interleaved
(`buildNetworks_eq_of_filter_step`). Such lists are permutations of each other
(`perm_of_filter_step`), so their symbol tables have the same keys (`symbolKeys_perm`). A symbol
is fixed by its key but for its comment (`symbols_agree_of_key`): which reference comes first
chooses the comment and the place in the table, and nothing else.
-/

namespace RelayLadder

/-! ## Rows that agree step by step -/

section StepRows

variable {R R' : List Row}

/-- Lists with the same rows of each step hold the same rows. -/
theorem mem_iff_of_filter_step (hstep : ∀ s, R.filter (·.step == s) = R'.filter (·.step == s))
    (r : Row) : r ∈ R ↔ r ∈ R' := by
  have hmem : ∀ l : List Row, r ∈ l ↔ r ∈ l.filter (·.step == r.step) := by simp
  rw [hmem R, hmem R', hstep]

/-- Lists with the same rows of each step are permutations of each other: a row occurs as often
in a list as in the rows of its step. -/
theorem perm_of_filter_step (hstep : ∀ s, R.filter (·.step == s) = R'.filter (·.step == s)) :
    R.Perm R' := by
  refine List.perm_iff_count.mpr fun r => ?_
  have hcount : ∀ l : List Row, (l.filter (·.step == r.step)).count r = l.count r :=
    fun l => List.count_filter (by simp)
  rw [← hcount R, ← hcount R', hstep]

/-- The steps are ascending and distinct, so the same steps come in the same order. -/
theorem stepsOf_eq_of_filter_step (hstep : ∀ s, R.filter (·.step == s) = R'.filter (·.step == s)) :
    stepsOf R = stepsOf R' := by
  refine (stepsOf_sorted R).eq_of_mem_iff (stepsOf_sorted R') fun s => ?_
  simp only [mem_stepsOf, mem_iff_of_filter_step hstep]

/-- The networks are built step by step from the rows of each step, ids running on. -/
theorem buildNetworks_eq_of_filter_step
    (hstep : ∀ s, R.filter (·.step == s) = R'.filter (·.step == s)) :
    buildNetworks R = buildNetworks R' := by
  -- a network reads its group only through the rows of its step
  have hadd : addNetwork (groupByStep R) = addNetwork (groupByStep R') := by
    funext acc s
    simp only [addNetwork, groupByStep_lookup, hstep]
  rw [buildNetworks, buildNetworks, stepsOf_eq_of_filter_step hstep, hadd]

end StepRows

/-! ## Symbol tables of permuted rows -/

/-- Permuted rows refer to the same addresses, so their symbol tables have the same keys, each
once. -/
theorem symbolKeys_perm {R R' : List Row} (h : R.Perm R') :
    ((symbolTable R).map (·.key)).Perm ((symbolTable R').map (·.key)) := by
  rw [symbolTable_keys, symbolTable_keys,
    List.perm_ext_iff_of_nodup (nodup_eraseDups _) (nodup_eraseDups _)]
  intro k
  simp only [List.mem_eraseDups]
  exact ((h.flatMap_right _).map _).mem_iff

theorem exists_symbolOf {rows : List Row} {s : Symbol} (hs : s ∈ symbolTable rows) :
    ∃ x : Row × DeviceAddress, s = symbolOf x := by
  rw [symbolTable_eq] at hs
  obtain ⟨x, -, rfl⟩ := List.mem_map.mp hs
  exact ⟨x, rfl⟩

/-- Two symbols under one key, of any two symbol tables, differ at most in their comments: the
key is the canonical text of the address, which names one address. -/
theorem symbols_agree_of_key {R R' : List Row} {s s' : Symbol} (hs : s ∈ symbolTable R)
    (hs' : s' ∈ symbolTable R') (hk : s.key = s'.key) :
    { s with comment := none } = { s' with comment := none } := by
  obtain ⟨x, rfl⟩ := exists_symbolOf hs
  obtain ⟨y, rfl⟩ := exists_symbolOf hs'
  have ha : x.2 = y.2 := DeviceAddress.format_injective hk
  simp [symbolOf, ha]

/-- Two row lists that hold the same rows of each step, in the same order, however the steps are
interleaved, build the same networks, node ids and cells included, and symbol tables with the
same keys, whose symbols differ at most in their comments. -/
theorem build_ignores_step_interleaving (R R' : List Row) (m : Metadata)
    (hstep : ∀ s, R.filter (·.step == s) = R'.filter (·.step == s)) :
    (buildProgram R m).networks = (buildProgram R' m).networks ∧
      ((buildProgram R m).symbols.map (·.key)).Perm ((buildProgram R' m).symbols.map (·.key)) ∧
      ∀ s ∈ (buildProgram R m).symbols, ∀ s' ∈ (buildProgram R' m).symbols, s.key = s'.key →
        { s with comment := none } = { s' with comment := none } :=
  ⟨buildNetworks_eq_of_filter_step hstep, symbolKeys_perm (perm_of_filter_step hstep),
    fun _ hs _ hs' hk => symbols_agree_of_key hs hs' hk⟩

/-- Two rungs that both read P0001, under different comments, their rows interleaved. -/
def interleavedRungs : List Row :=
  [{ sequence := 1, step := 0, instruction := "LOAD", operand1 := some "P0001", comment := some "start" },
   { sequence := 3, step := 1, instruction := "LOAD", operand1 := some "P0001", comment := some "again" },
   { sequence := 2, step := 0, instruction := "OUT", operand1 := some "M0010" },
   { sequence := 4, step := 1, instruction := "OUT", operand1 := some "M0011" }]

/-- The same two rungs, the later step listed first. -/
def groupedRungs : List Row :=
  [{ sequence := 3, step := 1, instruction := "LOAD", operand1 := some "P0001", comment := some "again" },
   { sequence := 4, step := 1, instruction := "OUT", operand1 := some "M0011" },
   { sequence := 1, step := 0, instruction := "LOAD", operand1 := some "P0001", comment := some "start" },
   { sequence := 2, step := 0, instruction := "OUT", operand1 := some "M0010" }]

theorem build_ignores_step_interleaving_twoRungs :
    (∀ s, interleavedRungs.filter (·.step == s) = groupedRungs.filter (·.step == s)) ∧
      (buildProgram interleavedRungs).networks = (buildProgram groupedRungs).networks ∧
      ((buildProgram interleavedRungs).symbols.map (·.key)).Perm
        ((buildProgram groupedRungs).symbols.map (·.key)) ∧
      ∀ s ∈ (buildProgram interleavedRungs).symbols, ∀ s' ∈ (buildProgram groupedRungs).symbols,
        s.key = s'.key → { s with comment := none } = { s' with comment := none } := by
  have hstep : ∀ s, interleavedRungs.filter (·.step == s) = groupedRungs.filter (·.step == s) := by
    intro s
    by_cases h0 : s = 0
    · subst h0
      decide
    · by_cases h1 : s = 1
      · subst h1
        decide
      · simp [interleavedRungs, groupedRungs, Ne.symm h0, Ne.symm h1]
  exact ⟨hstep, build_ignores_step_interleaving _ _ {} hstep⟩

end RelayLadder
