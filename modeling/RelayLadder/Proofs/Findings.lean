import RelayLadder.Validation.Validate

/-! # Where each finding comes from

Every finding of a validation is raised by one check: a node's address, its kind, the shape of
its network, or an output driven from several networks. A block is too small only when it names
fewer than two children, and a bit index is out of range only when an address of the node names
a bit above the highest one allowed.
-/

namespace RelayLadder

/-- The problems that the kind of a node can raise, apart from a block too small. -/
def Problem.ofKind : List Problem :=
  [.wordContactWithoutBit, .readOnlyWrite, .timerDeviceMismatch, .counterDeviceMismatch,
    .nonPositivePreset]

namespace ValidatorSettings

variable (cfg : ValidatorSettings) {f : Finding}

theorem problem_of_mem_addressFindings {net node : String} {a : DeviceAddress}
    (h : f ∈ cfg.addressFindings net node a) :
    f.problem ∈ [.addressOutOfRange, .indexRegisterOutOfRange] ∨
      (f.problem = .bitIndexOutOfRange ∧ ∃ b ∈ a.bitIndex, cfg.maxBitIndex < b) := by
  simp only [addressFindings, List.mem_append] at h
  rcases h with (h | h) | h
  · left
    split at h
    · split at h
      · obtain rfl := List.mem_singleton.mp h
        simp
      · simp at h
    · simp at h
  · right
    split at h
    · rename_i b hb
      split at h
      · rename_i hlt
        obtain rfl := List.mem_singleton.mp h
        exact ⟨rfl, b, hb, hlt⟩
      · simp at h
    · simp at h
  · left
    split at h
    · split at h
      · obtain rfl := List.mem_singleton.mp h
        simp
      · simp at h
    · simp at h

theorem problem_of_mem_writeFindings {net node : String} {a : DeviceAddress}
    (h : f ∈ cfg.writeFindings net node a) : f.problem = .readOnlyWrite := by
  unfold writeFindings at h
  split at h
  · obtain rfl := List.mem_singleton.mp h
    rfl
  · simp at h

theorem problem_of_mem_dedicatedFindings {net node label : String} {device : Device}
    {problem : Problem} {a : DeviceAddress} {preset : Int}
    (h : f ∈ cfg.dedicatedFindings net node device problem label a preset) :
    f.problem ∈ [problem, .readOnlyWrite, .nonPositivePreset] := by
  simp only [dedicatedFindings, List.mem_append] at h
  rcases h with h | h
  · split at h
    · simp at h
    · rcases List.mem_cons.mp h with rfl | h
      · simp
      · simp [cfg.problem_of_mem_writeFindings h]
  · split at h
    · obtain rfl := List.mem_singleton.mp h
      simp
    · simp at h

/-- A check for a device of its own raises only problems of a node's kind, when its own
mismatch is one. -/
theorem mem_ofKind_of_mem_dedicatedFindings {net node label : String} {device : Device}
    {problem : Problem} {a : DeviceAddress} {preset : Int} (hp : problem ∈ Problem.ofKind)
    (h : f ∈ cfg.dedicatedFindings net node device problem label a preset) :
    f.problem ∈ Problem.ofKind := by
  have := cfg.problem_of_mem_dedicatedFindings h
  simp only [List.mem_cons, List.not_mem_nil, or_false] at this
  rcases this with h | h | h
  · exact h ▸ hp
  · simp [Problem.ofKind, h]
  · simp [Problem.ofKind, h]

/-- What a node's findings can be: those of its addresses, those of its kind, or a block too
small, which names fewer than two children. -/
theorem problem_of_mem_nodeFindings {net : String} {n : Node} (h : f ∈ cfg.nodeFindings net n) :
    (∃ a ∈ n.body.addresses, f ∈ cfg.addressFindings net n.id a) ∨
      f.problem ∈ Problem.ofKind ∨
      (f.problem = .blockTooSmall ∧ ∃ w cs, n.body = .block w cs ∧ cs.length < 2) := by
  simp only [nodeFindings, List.mem_append, List.mem_flatMap] at h
  rcases h with h | h
  · exact .inl h
  · right
    split at h
    · split at h
      · obtain rfl := List.mem_singleton.mp h
        simp [Problem.ofKind]
      · simp at h
    · simp [Problem.ofKind, cfg.problem_of_mem_writeFindings h]
    · exact .inl (cfg.mem_ofKind_of_mem_dedicatedFindings (by simp [Problem.ofKind]) h)
    · exact .inl (cfg.mem_ofKind_of_mem_dedicatedFindings (by simp [Problem.ofKind]) h)
    · simp [Problem.ofKind, cfg.problem_of_mem_writeFindings h]
    · rename_i w cs hb
      split at h
      · rename_i hlt
        obtain rfl := List.mem_singleton.mp h
        exact .inr ⟨rfl, w, cs, hb, hlt⟩
      · simp at h
    · simp at h

/-- What a network's findings can be: its emptiness, a missing output, or a finding of one
of its nodes. -/
theorem problem_of_mem_networkFindings {N : Network} (h : f ∈ cfg.networkFindings N) :
    f.problem = .emptyNetwork ∨ f.problem = .noOutput ∨
      ∃ n ∈ N.nodes, f ∈ cfg.nodeFindings N.id n := by
  unfold networkFindings at h
  split at h
  · obtain rfl := List.mem_singleton.mp h
    exact .inl rfl
  · rcases List.mem_append.mp h with h | h
    · exact .inr (.inr (List.mem_flatMap.mp h))
    · split at h
      · simp at h
      · obtain rfl := List.mem_singleton.mp h
        exact .inr (.inl rfl)

end ValidatorSettings

theorem problem_of_mem_duplicateOutputFindings {nets : List Network} {f : Finding}
    (h : f ∈ duplicateOutputFindings nets) : f.problem = .duplicateOutput := by
  obtain ⟨⟨key, ids⟩, -, hf⟩ := List.mem_filterMap.mp h
  simp only at hf
  split at hf
  · obtain rfl := Option.some.inj hf
    rfl
  · simp at hf

/-- Every finding of a validation, error or warning, is a finding of a network or a duplicate
output. -/
theorem mem_validate {cfg : ValidatorSettings} {p : Program} {f : Finding}
    (h : f ∈ (validate cfg p).errors ++ (validate cfg p).warnings) :
    (∃ N ∈ p.networks, f ∈ cfg.networkFindings N) ∨ f ∈ duplicateOutputFindings p.networks := by
  simp only [validate, Report.ofFindings, List.mem_append, List.mem_filter] at h
  have hf : f ∈ p.networks.flatMap cfg.networkFindings ∨ f ∈ duplicateOutputFindings p.networks := by
    rcases h with ⟨h, -⟩ | ⟨h, -⟩ <;> exact h
  rcases hf with hf | hf
  · exact .inl (List.mem_flatMap.mp hf)
  · exact .inr hf

end RelayLadder
