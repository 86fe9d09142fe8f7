import RelayLadder.Mapping.Mapper
import Mathlib.Data.List.Nodup

/-! # Mapping addresses back and forth

With one rule per device, mapping back is exact for a target within the limit. The whole
addresses that `fromTarget` lists are exactly the addresses without bit or index register
that map onto the target, in the order of the rules and each once. Above the limit nothing
maps onto a target, but `fromTarget` still lists the elements the rules place there:
mapping back does not apply the limit.

A bit of a word device lands on a coil: sixteen coils per word, plus the bit. For bits below
sixteen, the word and the bit are read back off that coil.
-/

namespace RelayLadder

/-! ## One rule per device -/

/-- The step of `repeatedDevice`: the devices seen so far, and the first one seen twice. -/
def repeatedStep (acc : List Device × Option Device) (r : MappingRule) :
    List Device × Option Device :=
  match acc.2 with
  | some d => (acc.1, some d)
  | none => if acc.1.contains r.device then (acc.1, some r.device) else (r.device :: acc.1, none)

theorem repeatedDevice_eq (rules : List MappingRule) :
    repeatedDevice rules = (rules.foldl repeatedStep ([], none)).2 := rfl

theorem foldl_repeatedStep_some (rules : List MappingRule) (seen : List Device) (d : Device) :
    (rules.foldl repeatedStep (seen, some d)).2 = some d := by
  induction rules with
  | nil => rfl
  | cons r rules ih => exact ih

/-- From the devices seen, the scan finds no device twice exactly when the devices of the
rules are distinct and none was seen. -/
theorem foldl_repeatedStep_none (rules : List MappingRule) (seen : List Device) :
    (rules.foldl repeatedStep (seen, none)).2 = none ↔
      (rules.map (·.device)).Nodup ∧ ∀ r ∈ rules, r.device ∉ seen := by
  induction rules generalizing seen with
  | nil => simp
  | cons r rules ih =>
    by_cases hr : r.device ∈ seen
    · have hstep : repeatedStep (seen, none) r = (seen, some r.device) := by
        simp [repeatedStep, hr]
      simp [hstep, foldl_repeatedStep_some, hr]
    · have hstep : repeatedStep (seen, none) r = (r.device :: seen, none) := by
        simp [repeatedStep, hr]
      rw [List.foldl_cons, hstep, ih]
      simp only [List.map_cons, List.nodup_cons, List.mem_map, List.mem_cons,
        not_or, not_exists, not_and]
      constructor
      · rintro ⟨hnd, hnew⟩
        refine ⟨⟨fun q hq => (hnew q hq).1, hnd⟩, fun q hq => ?_⟩
        rcases hq with rfl | hq
        · exact hr
        · exact (hnew q hq).2
      · rintro ⟨⟨hin, hnd⟩, hnew⟩
        exact ⟨hnd, fun q hq => ⟨hin q hq, hnew q (.inr hq)⟩⟩

/-- Mapper settings are well formed exactly when no device has two rules. -/
theorem MapperSettings.problem?_eq_none_iff (s : MapperSettings) :
    s.problem? = none ↔ (s.rules.map (·.device)).Nodup := by
  simp [MapperSettings.problem?, repeatedDevice_eq, foldl_repeatedStep_none]

namespace MapperSettings

variable {m : MapperSettings}

/-- With one rule per device, the rule of a device is the rule that names it. -/
theorem ruleFor_eq_some_iff (hnd : (m.rules.map (·.device)).Nodup) {d : Device}
    {r : MappingRule} : m.ruleFor d = some r ↔ r ∈ m.rules ∧ r.device = d := by
  have hsound : ∀ {r}, m.ruleFor d = some r → r ∈ m.rules ∧ r.device = d := fun h =>
    ⟨List.mem_of_find?_eq_some h, by simpa using List.find?_some h⟩
  refine ⟨hsound, fun ⟨hr, hd⟩ => ?_⟩
  obtain ⟨r', hr'⟩ : ∃ r', m.ruleFor d = some r' :=
    Option.isSome_iff_exists.mp (List.find?_isSome.mpr ⟨r, hr, by simp [hd]⟩)
  obtain ⟨hmem', hd'⟩ := hsound hr'
  rw [hr', List.inj_on_of_nodup_map hnd hmem' hr (hd'.trans hd.symm)]

/-! ## Mapping forward -/

/-- A target number is within the highest target number of the settings, if there is one. -/
def WithinLimit (m : MapperSettings) (n : Nat) : Prop := ∀ l ∈ m.maxTargetAddress, n ≤ l

instance (m : MapperSettings) (n : Nat) : Decidable (m.WithinLimit n) :=
  inferInstanceAs (Decidable (∀ l ∈ m.maxTargetAddress, n ≤ l))

/-- Where a rule places an address: a bit of a word device on a coil, sixteen coils per word,
and anything else on the element at the rule's offset. -/
def placeBy (r : MappingRule) (a : DeviceAddress) : TargetAddress :=
  match a.bitIndex with
  | some b => if a.device.isWord then ⟨.coil, (r.offset + a.number) * bitsPerWord + b⟩
              else ⟨r.memoryType, r.offset + a.number⟩
  | none => ⟨r.memoryType, r.offset + a.number⟩

/-- An address maps when it has no index register, its device has a rule, and the place the
rule gives it is within the limit. -/
theorem toTarget_eq (a : DeviceAddress) :
    m.toTarget a = if a.isIndexed then none else (m.ruleFor a.device).bind fun r =>
      if m.WithinLimit (placeBy r a).number then some (placeBy r a) else none := by
  unfold toTarget resolve
  split
  · rfl
  · -- the place is computed by a match of its own, so it is opened case by case
    cases m.ruleFor a.device with
    | none => rfl
    | some r =>
      cases hmax : m.maxTargetAddress <;> cases hb : a.bitIndex <;>
        cases hw : a.device.isWord <;> simp [WithinLimit, hmax, placeBy, hb, hw] <;>
        split_ifs <;> simp_all <;> omega

theorem toTarget_eq_some_iff {a : DeviceAddress} {t : TargetAddress} :
    m.toTarget a = some t ↔ a.indexRegister = none ∧
      ∃ r, m.ruleFor a.device = some r ∧ placeBy r a = t ∧ m.WithinLimit t.number := by
  rw [toTarget_eq]
  cases hi : a.indexRegister with
  | some i => simp [DeviceAddress.isIndexed, hi]
  | none =>
    simp only [DeviceAddress.isIndexed, hi, Option.isSome_none, Bool.false_eq_true, if_false,
      Option.bind_eq_some_iff, true_and]
    constructor
    · rintro ⟨r, hr, h⟩
      split at h
      · cases h
        exact ⟨r, hr, rfl, ‹_›⟩
      · cases h
    · rintro ⟨r, hr, rfl, hlim⟩
      exact ⟨r, hr, by simp [hlim]⟩

/-- Nothing maps past the limit. -/
theorem withinLimit_of_toTarget {a : DeviceAddress} {t : TargetAddress}
    (h : m.toTarget a = some t) : m.WithinLimit t.number := by
  obtain ⟨-, r, -, -, hlim⟩ := toTarget_eq_some_iff.mp h
  exact hlim

/-- A whole address without index register maps through the rule that names its device, onto
the element at the rule's offset, when that is within the limit. -/
theorem toTarget_whole_eq_some_iff (hnd : (m.rules.map (·.device)).Nodup) {d : DeviceAddress}
    (hb : d.bitIndex = none) {t : TargetAddress} :
    m.toTarget d = some t ↔ d.indexRegister = none ∧ (∃ r ∈ m.rules, r.device = d.device ∧
      r.memoryType = t.memoryType ∧ r.offset + d.number = t.number) ∧ m.WithinLimit t.number := by
  have hplace : ∀ r : MappingRule, placeBy r d = ⟨r.memoryType, r.offset + d.number⟩ := by
    simp [placeBy, hb]
  simp only [toTarget_eq_some_iff, ruleFor_eq_some_iff hnd, hplace]
  constructor
  · rintro ⟨hi, r, ⟨hr, hd⟩, rfl, hlim⟩
    exact ⟨hi, ⟨r, hr, hd, rfl, rfl⟩, hlim⟩
  · rintro ⟨hi, ⟨r, hr, hd, hmt, hnum⟩, hlim⟩
    exact ⟨hi, r, ⟨hr, hd⟩, by rw [hmt, hnum], hlim⟩

/-- A bit of a word device lands on the coil of its word's element, sixteen coils per word. -/
theorem toTarget_wordBit {w : Device} (hw : w.isWord = true) {r : MappingRule}
    (hr : m.ruleFor w = some r) {n b : Nat} (hlim : m.WithinLimit ((r.offset + n) * 16 + b)) :
    m.toTarget ⟨w, n, some b, none⟩ = some ⟨.coil, (r.offset + n) * 16 + b⟩ :=
  toTarget_eq_some_iff.mpr ⟨rfl, r, hr, by simp [placeBy, hw, bitsPerWord], hlim⟩

/-- For a bit below sixteen, the coil a bit of a word device lands on gives back the element
and the bit: the coil divided by sixteen, less the offset, and the coil modulo sixteen. -/
theorem wordBit_of_toTarget {w : Device} (hw : w.isWord = true) {r : MappingRule}
    (hr : m.ruleFor w = some r) {n b : Nat} (hb : b < 16) {t : TargetAddress}
    (h : m.toTarget ⟨w, n, some b, none⟩ = some t) :
    t.memoryType = .coil ∧ t.number / 16 - r.offset = n ∧ t.number % 16 = b := by
  obtain ⟨-, r', hr', rfl, -⟩ := toTarget_eq_some_iff.mp h
  obtain rfl : r' = r := Option.some.inj (hr'.symm.trans hr)
  simp only [placeBy, hw, if_true, bitsPerWord]
  refine ⟨trivial, ?_, ?_⟩ <;> omega

/-! ## Mapping back -/

/-- The addresses that mapping back lists: whole elements without index register, each
placed by a rule on the target. -/
theorem mem_fromTarget {t : TargetAddress} {d : DeviceAddress} :
    d ∈ m.fromTarget t ↔ d.bitIndex = none ∧ d.indexRegister = none ∧ ∃ r ∈ m.rules,
      r.device = d.device ∧ r.memoryType = t.memoryType ∧ r.offset + d.number = t.number := by
  simp only [fromTarget, List.mem_filterMap, Bool.and_eq_true, beq_iff_eq, decide_eq_true_eq]
  constructor
  · rintro ⟨r, hr, h⟩
    split at h
    · rename_i hcond
      cases h
      exact ⟨rfl, rfl, r, hr, rfl, hcond.1, by simp; omega⟩
    · cases h
  · rintro ⟨hb, hi, r, hr, hd, hmt, hnum⟩
    refine ⟨r, hr, ?_⟩
    have hle : r.offset ≤ t.number := by omega
    obtain ⟨dev, num, bit, idx⟩ := d
    simp only at hb hi hd hnum
    subst hb hi hd
    simp [hmt, hle]
    omega

/-- Mapping back lists the devices in the order of their rules. -/
theorem fromTarget_devices_sublist (t : TargetAddress) :
    ((m.fromTarget t).map (·.device)).Sublist (m.rules.map (·.device)) := by
  unfold fromTarget
  induction m.rules with
  | nil => exact List.Sublist.slnil
  | cons r rules ih =>
    rw [List.filterMap_cons]
    split
    · exact ih.cons r.device
    · rename_i b hb
      -- a listed address is of the rule's own device
      have hbd : b.device = r.device := by
        split at hb
        · cases hb
          rfl
        · cases hb
      rw [List.map_cons, List.map_cons, hbd]
      exact ih.cons_cons r.device

theorem nodup_fromTarget (hnd : (m.rules.map (·.device)).Nodup) (t : TargetAddress) :
    (m.fromTarget t).Nodup :=
  (hnd.sublist (fromTarget_devices_sublist t)).of_map _

/-- Within the limit, mapping back lists exactly the whole addresses without index register
that map onto the target. -/
theorem mem_fromTarget_iff_toTarget (hnd : (m.rules.map (·.device)).Nodup) {t : TargetAddress}
    (hlim : m.WithinLimit t.number) (d : DeviceAddress) :
    d ∈ m.fromTarget t ↔ d.bitIndex = none ∧ d.indexRegister = none ∧ m.toTarget d = some t := by
  rw [mem_fromTarget]
  constructor
  · rintro ⟨hb, hi, hr⟩
    exact ⟨hb, hi, (toTarget_whole_eq_some_iff hnd hb).mpr ⟨hi, hr, hlim⟩⟩
  · rintro ⟨hb, hi, h⟩
    exact ⟨hb, hi, ((toTarget_whole_eq_some_iff hnd hb).mp h).2.1⟩

end MapperSettings

open MapperSettings in
/-- With one rule per device, mapping back lists devices in rule order and each once. Within the
limit it lists exactly the whole addresses without index register that map onto the target;
past the limit nothing maps onto the target at all. A bit below sixteen of a word device lands
on the coil of its word's element, and its element and bit are read back off that coil. -/
theorem fromTarget_exact_within_limit {m : MapperSettings} (hm : m.problem? = none)
    (t : TargetAddress) :
    ((m.fromTarget t).map (·.device)).Sublist (m.rules.map (·.device)) ∧ (m.fromTarget t).Nodup ∧
    (m.WithinLimit t.number → ∀ d, d ∈ m.fromTarget t ↔
      d.bitIndex = none ∧ d.indexRegister = none ∧ m.toTarget d = some t) ∧
    (¬ m.WithinLimit t.number → ∀ d, m.toTarget d ≠ some t) ∧
    ∀ w r n b, w.isWord = true → m.ruleFor w = some r → b < 16 →
      (m.WithinLimit ((r.offset + n) * 16 + b) →
        m.toTarget ⟨w, n, some b, none⟩ = some ⟨.coil, (r.offset + n) * 16 + b⟩) ∧
      (m.toTarget ⟨w, n, some b, none⟩ = some t →
        t.memoryType = .coil ∧ t.number / 16 - r.offset = n ∧ t.number % 16 = b) := by
  have hnd := (problem?_eq_none_iff m).mp hm
  refine ⟨fromTarget_devices_sublist t, nodup_fromTarget hnd t,
    fun hlim => mem_fromTarget_iff_toTarget hnd hlim, fun hlim d h => hlim (withinLimit_of_toTarget h),
    fun w r n b hw hr hb => ⟨toTarget_wordBit hw hr, wordBit_of_toTarget hw hr hb⟩⟩

/-- One rule, for the auxiliary relays onto coils, and ten as the highest target number. -/
def coilsUpToTen : MapperSettings where
  rules := [⟨.M, .coil, 0⟩]
  maxTargetAddress := some 10

theorem fromTarget_exact_coilsUpToTen :
    coilsUpToTen.problem? = none ∧ ¬ coilsUpToTen.WithinLimit 20 ∧
      ∀ d, coilsUpToTen.toTarget d ≠ some ⟨.coil, 20⟩ :=
  ⟨by decide, by decide,
    (fromTarget_exact_within_limit (by decide) ⟨.coil, 20⟩).2.2.2.1 (by decide)⟩

/-- Mapping back does not apply the limit: past it, it lists an element that maps nowhere. -/
example :
    coilsUpToTen.fromTarget ⟨.coil, 20⟩ = [⟨.M, 20, none, none⟩] ∧
      coilsUpToTen.toTarget ⟨.M, 20, none, none⟩ = none := by
  decide

end RelayLadder
