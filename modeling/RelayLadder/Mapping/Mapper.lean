import RelayLadder.Mapping.Rule

/-!
# Mapping device addresses onto target addresses

An address maps through the rule of its device: element `n` lands at `offset + n` in the
rule's space. A bit of a word device lands on a coil, sixteen coils per word. An address
with an index register is only known at runtime and does not map; neither does an address
without a rule, nor one past the highest target number.

Mapping back scans the rules: the spaces of several devices may overlap, so a target can
come from none, one or several device elements.
-/

namespace RelayLadder

/-- The outcome of mapping an address: the target, or why there is none. -/
structure Mapping where
  address : DeviceAddress
  target : Option TargetAddress
  diagnostic : Option String := none
  deriving DecidableEq, Repr

namespace MapperSettings

variable (m : MapperSettings)

/-- The rule of a device. -/
def ruleFor (d : Device) : Option MappingRule := m.rules.find? (·.device == d)

/-- The bits of a word. -/
def bitsPerWord : Nat := 16

/-- Maps an address onto its target, or explains why it has none. -/
def resolve (a : DeviceAddress) : Mapping :=
  if a.isIndexed then
    ⟨a, none, some ("Indexed address " ++ a.format
      ++ " is resolved at runtime and cannot be mapped statically")⟩
  else
    match m.ruleFor a.device with
    | none => ⟨a, none, some ("No mapping rule for device " ++ a.device.name)⟩
    | some r =>
      let t : TargetAddress := match a.bitIndex with
        | some b => if a.device.isWord then ⟨.coil, (r.offset + a.number) * bitsPerWord + b⟩
                    else ⟨r.memoryType, r.offset + a.number⟩
        | none => ⟨r.memoryType, r.offset + a.number⟩
      match m.maxTargetAddress with
      | some limit =>
        if limit < t.number then
          ⟨a, none, some ("Address " ++ a.format ++ " maps to " ++ toString t.number
            ++ ", beyond the target limit " ++ toString limit)⟩
        else ⟨a, some t, none⟩
      | none => ⟨a, some t, none⟩

/-- The target of an address, if it maps. -/
def toTarget (a : DeviceAddress) : Option TargetAddress := (m.resolve a).target

/-- Every whole element that a rule maps onto a target, in rule order. -/
def fromTarget (t : TargetAddress) : List DeviceAddress :=
  m.rules.filterMap fun r =>
    if r.memoryType == t.memoryType && r.offset ≤ t.number then
      some { device := r.device, number := t.number - r.offset }
    else none

/-- The holding register of a current value, unless it is negative or past the limit. -/
def valueTarget (n : Int) : Option TargetAddress :=
  if n < 0 then none
  else match m.maxTargetAddress with
    | some limit => if (limit : Int) < n then none else some ⟨.holdingRegister, n.toNat⟩
    | none => some ⟨.holdingRegister, n.toNat⟩

/-- The holding register of a timer's current value. -/
def timerValueTarget (timer : Int) : Option TargetAddress := m.valueTarget (m.timerValueOffset + timer)

/-- The holding register of a counter's current value. -/
def counterValueTarget (counter : Int) : Option TargetAddress :=
  m.valueTarget (m.counterValueOffset + counter)

/-- Whether an address is of a read-only device. -/
def isReadOnly (a : DeviceAddress) : Bool := m.readOnly.contains a.device

end MapperSettings

end RelayLadder
