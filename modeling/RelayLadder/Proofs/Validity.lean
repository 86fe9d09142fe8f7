import RelayLadder.Proofs.Measure
import RelayLadder.Proofs.Canonical
import RelayLadder.Program.Parse

/-! # What the validator reports

Every error of a validation is raised by one node, and depends only on the node, the id of its
network and the settings: the errors of a program are those of its nodes, networks in order and
the nodes of each in list order (`errors_validate`). So the errors of programs run one after
the other are the errors of each, and adding networks never takes an error away. A program is
valid exactly when the settings accept every node (`valid_validate_iff`): each address it names
lies within the size of its device when the device has one, and within the highest bit index
and index register; a coil or the destination of arithmetic writes no protected device; a timer
sits on a timer device and a counter on a counter device; a block joins at least two nodes. A
timer on T is accepted although T is protected by default, since a timer is checked as a write
only after its device does not match. Parsing a listing in one call is valid exactly when it
skipped validation or every node it builds is accepted (`valid_parseProgram_iff`).

An output driven from several networks is warned about last, once per address, first met first,
with the distinct networks that drive it in the order met (`duplicateOutputFindings_eq`). The
drivers are gathered under the canonical text of the address, which names one address
(`DeviceAddress.format_injective`), so addresses that differ in their bit or index register are
apart.
-/

namespace RelayLadder

namespace ValidatorSettings

variable (cfg : ValidatorSettings)

/-- An address the settings accept: its number lies within the size of its device when the
device has one, and its bit index and index register are at most the highest allowed. -/
structure AcceptsAddress (a : DeviceAddress) : Prop where
  number_le : ∀ size, cfg.limits.size? a.device = some size → (a.number : Int) ≤ size - 1
  bit_le : ∀ b ∈ a.bitIndex, b ≤ cfg.maxBitIndex
  index_le : ∀ z ∈ a.indexRegister, z ≤ cfg.maxIndexRegister

/-- What the settings ask of the kind of a node: a coil and the destination of arithmetic
write no protected device, a timer sits on a timer device and a counter on a counter device,
and a block joins at least two nodes. -/
def AcceptsKind : NodeBody → Prop
  | .coil _ a _ => a.device ∉ cfg.writeProtected
  | .math _ _ _ d => d.device ∉ cfg.writeProtected
  | .timer _ a _ _ => a.device = .T
  | .counter _ a _ => a.device = .C
  | .block _ cs => 2 ≤ cs.length
  | .contact .. | .comparison .. => True

/-- A node the settings accept: every address it names, and its kind. -/
structure Accepts (n : Node) : Prop where
  addresses : ∀ a ∈ n.body.addresses, cfg.AcceptsAddress a
  kind : cfg.AcceptsKind n.body

variable {cfg} {net node : String} {a : DeviceAddress}

/-- The range check on the number reads the size of the device less one. -/
theorem acceptsAddress_iff :
    cfg.AcceptsAddress a ↔ (∀ m, cfg.limits.maxAddress? a.device = some m → (a.number : Int) ≤ m) ∧
      (∀ b ∈ a.bitIndex, b ≤ cfg.maxBitIndex) ∧ ∀ z ∈ a.indexRegister, z ≤ cfg.maxIndexRegister := by
  refine ⟨fun ⟨h1, h2, h3⟩ => ⟨?_, h2, h3⟩, fun ⟨h1, h2, h3⟩ => ⟨?_, h2, h3⟩⟩
  · intro m hm
    obtain ⟨s, hs, rfl⟩ := Option.map_eq_some_iff.mp hm
    exact h1 s hs
  · intro s hs
    exact h1 (s - 1) (by simp [DeviceLimits.maxAddress?, hs])

/-- The checks of an address find nothing exactly when the settings accept it. -/
theorem addressFindings_eq_nil_iff : cfg.addressFindings net node a = [] ↔ cfg.AcceptsAddress a := by
  rw [acceptsAddress_iff]
  simp only [addressFindings, List.append_eq_nil_iff, and_assoc]
  refine and_congr ?_ (and_congr ?_ ?_)
  · cases cfg.limits.maxAddress? a.device <;> simp
  · cases a.bitIndex <;> simp
  · cases a.indexRegister <;> simp

variable {f : Finding}

/-- Every finding on an address is an error. -/
theorem isError_of_mem_addressFindings (h : f ∈ cfg.addressFindings net node a) :
    f.problem.isError = true := by
  rcases cfg.problem_of_mem_addressFindings h with h | ⟨h, -⟩
  · simp only [List.mem_cons, List.not_mem_nil, or_false] at h
    rcases h with h | h <;> simp [h, Problem.isError]
  · simp [h, Problem.isError]

theorem isError_of_mem_writeFindings (h : f ∈ cfg.writeFindings net node a) :
    f.problem.isError = true := by
  simp [cfg.problem_of_mem_writeFindings h, Problem.isError]

theorem writeFindings_eq_nil_iff :
    cfg.writeFindings net node a = [] ↔ a.device ∉ cfg.writeProtected := by
  unfold writeFindings
  split <;> simp_all

/-- A timer or counter raises no error exactly when it sits on its own device: the write check
follows a mismatch only, and a preset that is not positive is a warning. -/
theorem dedicatedErrors_eq_nil_iff {device : Device} {problem : Problem} {label : String}
    {preset : Int} (hp : problem.isError = true) :
    (cfg.dedicatedFindings net node device problem label a preset).filter (·.problem.isError) = [] ↔
      a.device = device := by
  by_cases hd : a.device = device <;> by_cases hq : preset ≤ 0 <;>
    simp +decide [dedicatedFindings, hd, hq, hp]

theorem accepts_iff (n : Node) :
    cfg.Accepts n ↔ (∀ a ∈ n.body.addresses, cfg.AcceptsAddress a) ∧ cfg.AcceptsKind n.body :=
  ⟨fun h => ⟨h.addresses, h.kind⟩, fun h => ⟨h.1, h.2⟩⟩

/-- A node raises no error exactly when the settings accept it. -/
theorem nodeErrors_eq_nil_iff (n : Node) :
    (cfg.nodeFindings net n).filter (·.problem.isError) = [] ↔ cfg.Accepts n := by
  -- the errors of its addresses are all the findings on them
  have haddr : (n.body.addresses.flatMap (cfg.addressFindings net n.id)).filter
      (·.problem.isError) = [] ↔ ∀ a ∈ n.body.addresses, cfg.AcceptsAddress a := by
    rw [List.filter_flatMap, List.flatMap_eq_nil_iff]
    refine forall₂_congr fun a _ => ?_
    rw [List.filter_eq_self.mpr fun f hf => isError_of_mem_addressFindings hf,
      addressFindings_eq_nil_iff]
  have hwrite : ∀ d : DeviceAddress, (cfg.writeFindings net n.id d).filter (·.problem.isError) = [] ↔
      d.device ∉ cfg.writeProtected := fun d => by
    rw [List.filter_eq_self.mpr fun f hf => isError_of_mem_writeFindings hf, writeFindings_eq_nil_iff]
  rw [nodeFindings, List.filter_append, List.append_eq_nil_iff, haddr, accepts_iff]
  refine and_congr_right fun _ => ?_
  -- the errors of its kind, one case per kind
  obtain ⟨id, comment, cell, body⟩ := n
  dsimp only
  cases body with
  | contact t a =>
    by_cases hw : (a.device.isWord && a.bitIndex.isNone) = true <;>
      simp [hw, Problem.isError, AcceptsKind]
  | coil t a neg => exact hwrite a
  | timer t a p b => exact dedicatedErrors_eq_nil_iff rfl
  | counter t a p => exact dedicatedErrors_eq_nil_iff rfl
  | comparison op l r => simp [AcceptsKind]
  | math op s s2 d => exact hwrite d
  | block w cs =>
    simp only [AcceptsKind]
    split <;> simp [Problem.isError] <;> omega

end ValidatorSettings

/-! ## Errors come from nodes -/

/-- The errors of a network are those of its nodes, in order: an empty network and one without
an output are only warned about. -/
theorem errors_networkFindings (cfg : ValidatorSettings) (N : Network) :
    (cfg.networkFindings N).filter (·.problem.isError) =
      N.nodes.flatMap fun n => (cfg.nodeFindings N.id n).filter (·.problem.isError) := by
  unfold ValidatorSettings.networkFindings
  split
  · rename_i h
    simp +decide [List.isEmpty_iff.mp h]
  · rw [List.filter_append, List.filter_flatMap]
    split <;> simp +decide

/-- An output driven from several networks is only warned about. -/
theorem errors_duplicateOutputFindings (nets : List Network) :
    (duplicateOutputFindings nets).filter (·.problem.isError) = [] :=
  List.filter_eq_nil_iff.mpr fun f hf => by
    simp +decide [problem_of_mem_duplicateOutputFindings hf]

/-- The errors of a validation are those of the nodes, networks in order and the nodes of each
in list order; those of a node depend only on the node, the id of its network and the settings. -/
theorem errors_validate (cfg : ValidatorSettings) (p : Program) :
    (validate cfg p).errors = p.networks.flatMap fun N =>
      N.nodes.flatMap fun n => (cfg.nodeFindings N.id n).filter (·.problem.isError) := by
  rw [validate, Report.ofFindings_errors, List.filter_append, errors_duplicateOutputFindings,
    List.append_nil, List.filter_flatMap]
  simp only [errors_networkFindings]

/-- A program is valid exactly when the settings accept every node of every network. -/
theorem valid_validate_iff (cfg : ValidatorSettings) (p : Program) :
    (validate cfg p).valid = true ↔ ∀ N ∈ p.networks, ∀ n ∈ N.nodes, cfg.Accepts n := by
  rw [Report.valid_iff, errors_validate, List.flatMap_eq_nil_iff]
  refine forall₂_congr fun N _ => ?_
  rw [List.flatMap_eq_nil_iff]
  exact forall₂_congr fun n _ => ValidatorSettings.nodeErrors_eq_nil_iff n

/-- A parse is valid exactly when, if it was validated, the configuration's validator settings
accept every node of every network the listing builds. -/
theorem valid_parseProgram_iff (text : String) (md : Metadata) (check : Bool) (cfg : Config) :
    (parseProgram text md check cfg).valid = true ↔
      (check = true → ∀ N ∈ (buildProgram (readRows text) md).networks, ∀ n ∈ N.nodes,
        cfg.validatorSettings.Accepts n) := by
  cases check with
  | false => simp [parseProgram, ParseResult.valid]
  | true =>
    simp only [parseProgram, ParseResult.valid, if_true, Option.map_some, Option.getD_some,
      forall_const]
    exact valid_validate_iff _ _

/-! ## Canonical texts name one address -/

namespace DeviceAddress

/-- The bracketed index register of a canonical text names one register. -/
theorem indexText_injective {z w : Option Nat}
    (h : z.elim [] (fun z => '[' :: 'Z' :: Nat.toDigits 10 z ++ [']']) =
      w.elim [] (fun z => '[' :: 'Z' :: Nat.toDigits 10 z ++ [']'])) : z = w := by
  cases z with
  | none => cases w <;> simp_all
  | some z =>
    cases w with
    | none => simp at h
    | some w =>
      have hd := List.append_cancel_right h
      simp only [List.cons.injEq, true_and] at hd
      have hv := congrArg Text.digitsValue? hd
      rw [Text.digitsValue?_toDigits, Text.digitsValue?_toDigits] at hv
      exact hv

/-- The bracketed index register starts with no digit. -/
theorem head_indexText_not_digit (i : Option Nat) :
    ∀ x ∈ (i.elim [] fun z => '[' :: 'Z' :: Nat.toDigits 10 z ++ [']']).head?,
      Text.isDigit x = false := by
  intro x hx
  cases i <;> simp only [Option.elim_none, Option.elim_some, List.head?_nil, List.cons_append,
    List.head?_cons, Option.mem_def, Option.some.injEq, reduceCtorEq] at hx
  exact hx ▸ Text.isDigit_eq_false '[' (by decide)

/-- What follows the padded number, the bit after a point and then the index register, starts
with no digit: the run of the number stops there. -/
theorem head_suffixText_not_digit (bit i : Option Nat) :
    ∀ x ∈ ((bit.elim [] fun b => '.' :: Nat.toDigits 10 b) ++
      (i.elim [] fun z => '[' :: 'Z' :: Nat.toDigits 10 z ++ [']'])).head?,
      Text.isDigit x = false := by
  intro x hx
  cases bit with
  | none =>
    rw [Option.elim_none, List.nil_append] at hx
    exact head_indexText_not_digit i x hx
  | some b =>
    simp only [Option.elim_some, List.cons_append, List.head?_cons, Option.mem_def,
      Option.some.injEq] at hx
    exact hx ▸ Text.isDigit_eq_false '.' (by decide)

/-- What follows the padded number names the bit and the index register. -/
theorem suffixText_injective {bit bit' i i' : Option Nat}
    (h : (bit.elim [] fun b => '.' :: Nat.toDigits 10 b) ++
        (i.elim [] fun z => '[' :: 'Z' :: Nat.toDigits 10 z ++ [']']) =
      (bit'.elim [] fun b => '.' :: Nat.toDigits 10 b) ++
        (i'.elim [] fun z => '[' :: 'Z' :: Nat.toDigits 10 z ++ [']'])) :
    bit = bit' ∧ i = i' := by
  cases bit with
  | none =>
    cases bit' with
    | none => exact ⟨rfl, indexText_injective (by simpa using h)⟩
    | some y => cases i <;> simp at h
  | some x =>
    cases bit' with
    | none => cases i' <;> simp at h
    | some y =>
      rw [Option.elim_some, Option.elim_some, List.cons_append, List.cons_append,
        List.cons.injEq] at h
      -- the bit's digits run up to the index register on both sides
      have hb := readDigits_toDigits x _ (head_indexText_not_digit i)
      rw [h.2, readDigits_toDigits y _ (head_indexText_not_digit i'), Option.some.injEq,
        Prod.mk.injEq] at hb
      exact ⟨congrArg some hb.1.symm, (indexText_injective hb.2).symm⟩

/-- The canonical text names one address: its letter gives the device, the padded run of
digits the number, and what follows the bit and the index register. -/
theorem format_injective : Function.Injective DeviceAddress.format := by
  intro a b h
  have hl := congrArg String.toList h
  rw [toList_format, toList_format, List.cons_eq_cons, List.append_assoc, List.append_assoc] at hl
  obtain ⟨hletter, htail⟩ := hl
  have hdevice : a.device = b.device := by
    have := Device.ofChar_letter a.device
    rw [hletter, Device.ofChar_letter] at this
    exact (Option.some.inj this).symm
  have hnum := readDigits_zeroPadded 4 a.number _
    (head_suffixText_not_digit a.bitIndex a.indexRegister)
  rw [htail, readDigits_zeroPadded 4 b.number _
    (head_suffixText_not_digit b.bitIndex b.indexRegister), Option.some.injEq,
    Prod.mk.injEq] at hnum
  obtain ⟨hnumber, hsuffix⟩ := hnum
  obtain ⟨hbit, hindex⟩ := suffixText_injective hsuffix
  obtain ⟨d, n, bit, idx⟩ := a
  obtain ⟨d', n', bit', idx'⟩ := b
  simp only at hdevice hnumber hbit hindex
  rw [hdevice, hnumber, hbit, hindex]

end DeviceAddress

/-! ## Outputs driven from several networks -/

/-- The outputs of networks, as the address each drives and the id of its network: networks in
order, the nodes of each in list order. -/
def outputUses (nets : List Network) : List (DeviceAddress × String) :=
  nets.flatMap fun N => N.nodes.filterMap fun n => (outputAddress? n).map (·, N.id)

/-- The distinct networks that drive an address, in the order first met. -/
def driversOf (uses : List (DeviceAddress × String)) (a : DeviceAddress) : List String :=
  ((uses.filter (·.1 == a)).map (·.2)).eraseDups

/-- The table of drivers that outputs give: each address driven, first met first, under its
canonical text, with the networks that drive it. -/
def driverTable (uses : List (DeviceAddress × String)) : List (String × List String) :=
  (uses.map (·.1)).eraseDups.map fun a => (a.format, driversOf uses a)

theorem driversOf_append_singleton (uses : List (DeviceAddress × String)) (a b : DeviceAddress)
    (net : String) :
    driversOf (uses ++ [(a, net)]) b =
      if b = a ∧ net ∉ driversOf uses b then driversOf uses b ++ [net] else driversOf uses b := by
  by_cases hba : b = a
  · subst hba
    simp [driversOf, List.filter_append, eraseDups_append_singleton]
  · simp [driversOf, List.filter_append, hba, Ne.symm hba]

/-- An address that no output drives has no drivers. -/
theorem driversOf_eq_nil {uses : List (DeviceAddress × String)} {a : DeviceAddress}
    (ha : a ∉ uses.map (·.1)) : driversOf uses a = [] := by
  have hf : uses.filter (·.1 == a) = [] :=
    List.filter_eq_nil_iff.mpr fun u hu hua => ha (List.mem_map.mpr ⟨u, hu, by simpa using hua⟩)
  simp [driversOf, hf]

/-- One more output adds its network to the drivers of its address, or opens the address
after the others when it is new. -/
theorem addDriver_driverTable (uses : List (DeviceAddress × String)) (a : DeviceAddress)
    (net : String) :
    addDriver (driverTable uses) a.format net = driverTable (uses ++ [(a, net)]) := by
  have hkeys : (uses ++ [(a, net)]).map (·.1) = uses.map (·.1) ++ [a] := by simp
  unfold addDriver driverTable
  rw [hkeys, eraseDups_append_singleton]
  by_cases ha : a ∈ uses.map (·.1)
  · have hany : ((uses.map (·.1)).eraseDups.map fun b => (b.format, driversOf uses b)).any
        (·.1 == a.format) = true :=
      List.any_eq_true.mpr ⟨(a.format, driversOf uses a),
        List.mem_map.mpr ⟨a, List.mem_eraseDups.mpr ha, rfl⟩, by simp⟩
    rw [if_pos hany, if_pos ha, List.map_map]
    refine List.map_congr_left fun b _ => ?_
    by_cases hba : b = a
    · subst hba
      by_cases hn : net ∈ driversOf uses b <;> simp [driversOf_append_singleton, hn]
    · have hf : b.format ≠ a.format := fun h => hba (DeviceAddress.format_injective h)
      simp [driversOf_append_singleton, hba, hf]
  · have hany : ((uses.map (·.1)).eraseDups.map fun b => (b.format, driversOf uses b)).any
        (·.1 == a.format) = false := by
      simp only [List.any_map, List.any_eq_false, List.mem_eraseDups, Function.comp_apply,
        beq_iff_eq]
      exact fun b hb hf => ha (DeviceAddress.format_injective hf ▸ hb)
    rw [if_neg (by simp [hany]), if_neg ha, List.map_append]
    congr 1
    · refine List.map_congr_left fun b hb => ?_
      have hba : b ≠ a := fun h => ha (h ▸ List.mem_eraseDups.mp hb)
      simp [driversOf_append_singleton, hba]
    · simp [driversOf_append_singleton, driversOf_eq_nil ha]

/-- The drivers gathered over the networks are gathered over their outputs, one by one. -/
theorem outputDrivers_eq_foldl (nets : List Network) :
    outputDrivers nets = (outputUses nets).foldl (fun ds u => addDriver ds u.1.format u.2) [] := by
  unfold outputDrivers outputUses
  rw [List.foldl_flatMap]
  congr 1
  funext ds N
  induction N.nodes generalizing ds with
  | nil => rfl
  | cons n ns ih => cases h : outputAddress? n <;> simp [h, ih]

theorem outputDrivers_eq (nets : List Network) :
    outputDrivers nets = driverTable (outputUses nets) := by
  simpa [driverTable] using (outputDrivers_eq_foldl nets).trans
    (foldl_eq_of_step driverTable (fun uses u => addDriver_driverTable uses u.1 u.2) [] _)

/-- The warnings about outputs driven from several networks: one per address that outputs of at
least two distinct networks drive, first met first, naming those networks in the order met. -/
theorem duplicateOutputFindings_eq (nets : List Network) :
    duplicateOutputFindings nets =
      (((outputUses nets).map (·.1)).eraseDups.filter fun a =>
        2 ≤ (driversOf (outputUses nets) a).length).map fun a =>
        { problem := .duplicateOutput, networkId := (driversOf (outputUses nets) a).head?,
          networkIds := driversOf (outputUses nets) a,
          message := "Output " ++ a.format ++ " is driven by multiple networks: " ++
            ", ".intercalate (driversOf (outputUses nets) a) } := by
  rw [duplicateOutputFindings, outputDrivers_eq, driverTable, List.filterMap_map]
  simp only [Function.comp_def, gt_iff_lt]
  induction ((outputUses nets).map (·.1)).eraseDups with
  | nil => rfl
  | cons a keys ih =>
    by_cases h : 2 ≤ (driversOf (outputUses nets) a).length
    · simp [h, ih, show 1 < (driversOf (outputUses nets) a).length from h]
    · simp [h, ih, show ¬1 < (driversOf (outputUses nets) a).length by omega]

/-- The findings of a network never report an output driven from several networks. -/
theorem ne_duplicateOutput_of_mem_networkFindings {cfg : ValidatorSettings} {N : Network}
    {f : Finding} (h : f ∈ cfg.networkFindings N) : f.problem ≠ .duplicateOutput := by
  rcases cfg.problem_of_mem_networkFindings h with h | h | ⟨n, -, hn⟩
  · simp [h]
  · simp [h]
  · rcases cfg.problem_of_mem_nodeFindings hn with ⟨a, -, ha⟩ | h | ⟨h, -⟩
    · rcases cfg.problem_of_mem_addressFindings ha with h | ⟨h, -⟩
      · simp only [List.mem_cons, List.not_mem_nil, or_false] at h
        rcases h with h | h <;> simp [h]
      · simp [h]
    · simp only [Problem.ofKind, List.mem_cons, List.not_mem_nil, or_false] at h
      rcases h with h | h | h | h | h <;> simp [h]
    · simp [h]

/-- The warnings of a validation: those of the networks in order, then the outputs driven from
several networks. -/
theorem warnings_validate (cfg : ValidatorSettings) (p : Program) :
    (validate cfg p).warnings =
      (p.networks.flatMap cfg.networkFindings).filter (!·.problem.isError) ++
        duplicateOutputFindings p.networks := by
  simp only [validate, Report.ofFindings, List.filter_append]
  congr 1
  exact List.filter_eq_self.mpr fun f hf => by
    simp +decide [problem_of_mem_duplicateOutputFindings hf]

end RelayLadder
