import WindowsGaming.Library.Journals
import WindowsGaming.Library.Numbering

/- Where the passed-through PCI functions are plugged in. The functions of one slot share a root
   port, which is added to the command line before the first of them. -/
namespace PciPorts
open Numbering

structure VfioDevice where
  resettable : Bool
  slot : String
  deriving DecidableEq, Repr

inductive PciArg where
  | rootPort (id : Nat)
  | vfio (host : String) (rootPort : Nat) (function : String)
  deriving DecidableEq, Repr

def PciArg.render : PciArg → String
  | .rootPort id => "pcie-root-port,id=root_port_" ++ toString id ++ ",bus=pcie.0"
  | .vfio host port function =>
    "vfio-pci,host=" ++ host ++ ",multifunction=on,bus=root_port_" ++ toString port ++
      ",addr=0x00." ++ function

def splitOnce (s : String) : Option (String × String) :=
  match s.toList.dropWhile (· ≠ '.') with
  | [] => none
  | _ :: rest => some (String.ofList (s.toList.takeWhile (· ≠ '.')), String.ofList rest)

structure Qemu where
  rootPorts : AList fun _ : String => Nat
  args : List PciArg

def Qemu.arg (a : PciArg) (q : Qemu) : Qemu := { q with args := q.args ++ [a] }

/-- One round of the loop. It panics when `vfio-ubind` fails for a resettable device, and on a
    slot without a dot. -/
def passThrough (ubind : String → Bool) (q : Qemu) (device : VfioDevice) : Option Qemu :=
  if device.resettable = true ∧ ubind device.slot = false then none
  else
    match splitOnce device.slot with
    | none => none
    | some (slotNoFn, onlyFn) =>
      let newRootPortId := q.rootPorts.entries.length
      let (q, rootPortId) := match q.rootPorts.lookup slotNoFn with
        | some id => (q, id)
        | none =>
          let q := q.arg (.rootPort newRootPortId)
          ({ q with rootPorts := q.rootPorts.insert slotNoFn newRootPortId }, newRootPortId)
      some (q.arg (.vfio device.slot rootPortId onlyFn))

def runPci (ubind : String → Bool) (devices : List VfioDevice) : Option Qemu :=
  devices.foldlM (passThrough ubind) ⟨∅, []⟩

def pciArgs (ubind : String → Bool) (devices : List VfioDevice) : Option (List PciArg) :=
  (runPci ubind devices).map Qemu.args

def pciCommandLine (args : List PciArg) : List String := args.flatMap fun a => ["-device", a.render]

def VfioDevice.slotNoFn (d : VfioDevice) : String :=
  String.ofList (d.slot.toList.takeWhile (· ≠ '.'))

def VfioDevice.onlyFn (d : VfioDevice) : String :=
  String.ofList (d.slot.toList.dropWhile (· ≠ '.')).tail

def prefixes (devices : List VfioDevice) : List String := firstSeen (devices.map VfioDevice.slotNoFn)

def rootPortOf (devices : List VfioDevice) (d : VfioDevice) : Nat :=
  (prefixes devices).idxOf d.slotNoFn

def rootPortId : PciArg → Option Nat
  | .rootPort id => some id
  | .vfio .. => none

def vfioArg : PciArg → Option (String × Nat × String)
  | .rootPort _ => none
  | .vfio host port function => some (host, port, function)

/-- One root port for each distinct prefix, numbered in the order of first appearance, and each
    function behind the root port of its prefix, at an address of its own. -/
structure Addressed (devices : List VfioDevice) (args : List PciArg) : Prop where
  ports : args.filterMap rootPortId = List.range (prefixes devices).length
  functions : args.filterMap vfioArg =
    devices.map fun d => (d.slot, rootPortOf devices d, d.onlyFn)
  behind : ∀ before host port function after,
    args = before ++ .vfio host port function :: after → .rootPort port ∈ before
  distinct : ((args.filterMap vfioArg).map Prod.snd).Nodup

section Slots
variable {d e : VfioDevice}

theorem slot_parts (dotted : '.' ∈ d.slot.toList) :
    ∃ before behind, d.slot.toList = before ++ '.' :: behind ∧
      d.slotNoFn = String.ofList before ∧ d.onlyFn = String.ofList behind ∧
      splitOnce d.slot = some (d.slotNoFn, d.onlyFn) := by
  obtain ⟨before, behind, cut, first⟩ := List.eq_append_cons_of_mem dotted
  have plain : ∀ c ∈ before, decide (c ≠ '.') = true := by
    intro c member
    simpa using fun same : c = '.' => first (same ▸ member)
  have taken : d.slot.toList.takeWhile (· ≠ '.') = before := by
    rw [cut, List.takeWhile_append_of_pos plain]
    simp
  have dropped : d.slot.toList.dropWhile (· ≠ '.') = '.' :: behind := by
    rw [cut, List.dropWhile_append_of_pos plain]
    simp
  refine ⟨before, behind, cut, ?_, ?_, ?_⟩
  · rw [VfioDevice.slotNoFn, taken]
  · rw [VfioDevice.onlyFn, dropped, List.tail_cons]
  · rw [splitOnce, dropped, VfioDevice.slotNoFn, VfioDevice.onlyFn, dropped]
    rfl

theorem splitOnce_undotted (undotted : '.' ∉ d.slot.toList) : splitOnce d.slot = none := by
  have all : d.slot.toList.dropWhile (· ≠ '.') = [] := by
    have plain : ∀ c ∈ d.slot.toList, decide (c ≠ '.') = true := by
      intro c member
      simpa using fun same : c = '.' => undotted (same ▸ member)
    simpa using @List.dropWhile_append_of_pos _ _ d.slot.toList [] plain
  rw [splitOnce, all]

theorem slot_eq (dotted : '.' ∈ d.slot.toList) (dotted' : '.' ∈ e.slot.toList)
    (slots : d.slotNoFn = e.slotNoFn) (fns : d.onlyFn = e.onlyFn) : d.slot = e.slot := by
  obtain ⟨before, behind, cut, slot, fn, _⟩ := slot_parts dotted
  obtain ⟨before', behind', cut', slot', fn', _⟩ := slot_parts dotted'
  have left : before = before' := String.ofList_injective (slot.symm.trans (slots.trans slot'))
  have right : behind = behind' := String.ofList_injective (fn.symm.trans (fns.trans fn'))
  apply String.toList_injective
  rw [cut, cut', left, right]

end Slots

section Loop
variable {ubind : String → Bool} {devices : List VfioDevice} {d : VfioDevice} {q next : Qemu}

def refersBack (before : List PciArg) : PciArg → Prop
  | .vfio _ port _ => .rootPort port ∈ before
  | .rootPort _ => True

def isBehind (args : List PciArg) : Prop :=
  Journals.Lawful (fun before a => before ++ [a]) refersBack [] args

theorem foldl_concat (before args : List PciArg) :
    args.foldl (fun before a => before ++ [a]) before = before ++ args := by
  rw [List.foldl_append_eq_append, ← List.flatMap_def, List.flatMap_singleton']

theorem isBehind_append {args more : List PciArg} :
    isBehind (args ++ more) ↔
      isBehind args ∧ Journals.Lawful (fun before a => before ++ [a]) refersBack args more := by
  rw [isBehind, Journals.lawful_append, foldl_concat, List.nil_append, isBehind]

theorem behind_of_isBehind {args : List PciArg} (lawful : isBehind args) (before : List PciArg)
    (host : String) (port : Nat) (function : String) (after : List PciArg)
    (cut : args = before ++ .vfio host port function :: after) : .rootPort port ∈ before := by
  have here := (Journals.lawful_iff_cuts [] args).mp lawful before _ after cut
  rwa [foldl_concat] at here

structure Plugged (devices : List VfioDevice) (q : Qemu) : Prop where
  dotted : ∀ d ∈ devices, '.' ∈ d.slot.toList
  numbers : Numbers q.rootPorts (prefixes devices)
  ports : q.args.filterMap rootPortId = List.range (prefixes devices).length
  functions : q.args.filterMap vfioArg =
    devices.map fun d => (d.slot, rootPortOf devices d, d.onlyFn)
  behind : isBehind q.args

theorem prefixes_concat (devices : List VfioDevice) (d : VfioDevice) :
    prefixes (devices ++ [d]) = see (prefixes devices) d.slotNoFn := by
  rw [prefixes, List.map_append, List.map_singleton, firstSeen_concat]
  rfl

theorem mem_prefixes (member : d ∈ devices) : d.slotNoFn ∈ prefixes devices :=
  mem_firstSeen.mpr (List.mem_map_of_mem member)

theorem functions_concat (devices : List VfioDevice) (d : VfioDevice) :
    ((devices ++ [d]).map fun x => (x.slot, rootPortOf (devices ++ [d]) x, x.onlyFn)) =
      (devices.map fun x => (x.slot, rootPortOf devices x, x.onlyFn)) ++
        [(d.slot, rootPortOf (devices ++ [d]) d, d.onlyFn)] := by
  rw [List.map_append, List.map_singleton]
  congr 1
  refine List.map_congr_left ?_
  intro x member
  rw [rootPortOf, prefixes_concat, idxOf_see (mem_prefixes member), rootPortOf]

theorem passThrough_eq_some (taken : passThrough ubind q d = some next) :
    '.' ∈ d.slot.toList ∧ (d.resettable = true → ubind d.slot = true) ∧
      ((∃ id, q.rootPorts.lookup d.slotNoFn = some id ∧ next = q.arg (.vfio d.slot id d.onlyFn)) ∨
      (q.rootPorts.lookup d.slotNoFn = none ∧ next =
        ⟨q.rootPorts.insert d.slotNoFn q.rootPorts.entries.length, q.args ++
          [.rootPort q.rootPorts.entries.length,
            .vfio d.slot q.rootPorts.entries.length d.onlyFn]⟩)) := by
  unfold passThrough at taken
  split at taken
  · cases taken
  · rename_i unbound
    by_cases dotted : '.' ∈ d.slot.toList
    · obtain ⟨_, _, _, _, _, split⟩ := slot_parts dotted
      refine ⟨dotted, by simpa using unbound, ?_⟩
      rw [split] at taken
      cases known : q.rootPorts.lookup d.slotNoFn with
      | some id =>
        simp only [known] at taken
        exact Or.inl ⟨id, rfl, (Option.some.inj taken).symm⟩
      | none =>
        simp only [known] at taken
        refine Or.inr ⟨rfl, ?_⟩
        rw [← Option.some.inj taken]
        simp [Qemu.arg]
    · rw [splitOnce_undotted dotted] at taken
      cases taken

theorem dotted_concat (dotted : ∀ x ∈ devices, '.' ∈ x.slot.toList) (dot : '.' ∈ d.slot.toList) :
    ∀ x ∈ devices ++ [d], '.' ∈ x.slot.toList := by
  intro x member
  rcases List.mem_append.mp member with old | new
  · exact dotted x old
  · rwa [List.mem_singleton.mp new]

theorem rootPort_declared {args : List PciArg} {n id : Nat}
    (ports : args.filterMap rootPortId = List.range n) (below : id < n) : .rootPort id ∈ args := by
  have given : id ∈ args.filterMap rootPortId := by rwa [ports, List.mem_range]
  obtain ⟨a, present, port⟩ := List.mem_filterMap.mp given
  cases a with
  | rootPort i => exact Option.some.inj port ▸ present
  | vfio _ _ _ => cases port

theorem plugged_shared (plugged : Plugged devices q) (dot : '.' ∈ d.slot.toList) {id : Nat}
    (known : q.rootPorts.lookup d.slotNoFn = some id) :
    Plugged (devices ++ [d]) (q.arg (.vfio d.slot id d.onlyFn)) := by
  obtain ⟨member, number⟩ := (lookup_eq_some_iff plugged.numbers).mp known
  have same : prefixes (devices ++ [d]) = prefixes devices := by
    rw [prefixes_concat, see, if_pos member]
  have own : rootPortOf (devices ++ [d]) d = id := by rw [rootPortOf, same, number]
  have below : id < (prefixes devices).length := number ▸ List.idxOf_lt_length_of_mem member
  refine ⟨dotted_concat plugged.dotted dot, same ▸ plugged.numbers, ?_, ?_, ?_⟩
  · rw [same, ← plugged.ports]
    simp [Qemu.arg, rootPortId]
  · rw [functions_concat, own, ← plugged.functions]
    simp [Qemu.arg, vfioArg]
  · exact isBehind_append.mpr ⟨plugged.behind, rootPort_declared plugged.ports below, trivial⟩

theorem plugged_fresh (plugged : Plugged devices q) (dot : '.' ∈ d.slot.toList)
    (unknown : q.rootPorts.lookup d.slotNoFn = none) :
    Plugged (devices ++ [d])
      ⟨q.rootPorts.insert d.slotNoFn q.rootPorts.entries.length, q.args ++
        [.rootPort q.rootPorts.entries.length,
          .vfio d.slot q.rootPorts.entries.length d.onlyFn]⟩ := by
  have numbers := plugged.numbers
  have fresh : d.slotNoFn ∉ prefixes devices := (lookup_eq_none_iff numbers).mp unknown
  have grown : prefixes (devices ++ [d]) = prefixes devices ++ [d.slotNoFn] := by
    rw [prefixes_concat, see, if_neg fresh]
  have own : rootPortOf (devices ++ [d]) d = q.rootPorts.entries.length := by
    rw [rootPortOf, grown, List.idxOf_append_of_notMem fresh, numbers.size]
    simp
  refine ⟨dotted_concat plugged.dotted dot, grown ▸ numbers_insert numbers fresh, ?_, ?_, ?_⟩
  · rw [grown, List.length_append, List.length_singleton, List.range_succ, ← plugged.ports,
      ← numbers.size]
    simp [rootPortId]
  · rw [functions_concat, own, ← plugged.functions, List.filterMap_append]
    rfl
  · exact isBehind_append.mpr ⟨plugged.behind, trivial, by simp [refersBack], trivial⟩

theorem plugged_step (plugged : Plugged devices q) (taken : passThrough ubind q d = some next) :
    Plugged (devices ++ [d]) next := by
  obtain ⟨dot, _, ⟨id, known, rfl⟩ | ⟨unknown, rfl⟩⟩ := passThrough_eq_some taken
  · exact plugged_shared plugged dot known
  · exact plugged_fresh plugged dot unknown

theorem runPci_concat (ubind : String → Bool) (devices : List VfioDevice) (d : VfioDevice) :
    runPci ubind (devices ++ [d]) = (runPci ubind devices).bind fun q => passThrough ubind q d := by
  simp [runPci, List.foldlM_append]

theorem plugged_run (emitted : runPci ubind devices = some q) : Plugged devices q := by
  induction devices using List.reverseRecOn generalizing q with
  | nil =>
    cases emitted
    exact ⟨nofun, numbers_nil, rfl, rfl, trivial⟩
  | append_singleton devices d ih =>
    rw [runPci_concat] at emitted
    obtain ⟨before, first, taken⟩ := Option.bind_eq_some_iff.mp emitted
    exact plugged_step (ih first) taken

theorem passThrough_isSome (dotted : '.' ∈ d.slot.toList) :
    (passThrough ubind q d).isSome = true ↔ (d.resettable = true → ubind d.slot = true) := by
  obtain ⟨_, _, _, _, _, split⟩ := slot_parts dotted
  unfold passThrough
  rw [split]
  by_cases unbound : d.resettable = true ∧ ubind d.slot = false
  · rw [if_pos unbound]
    simp [unbound.1, unbound.2]
  · rw [if_neg unbound]
    simpa using unbound

theorem runPci_isSome (dotted : ∀ d ∈ devices, '.' ∈ d.slot.toList) :
    (runPci ubind devices).isSome = true ↔
      ∀ d ∈ devices, d.resettable = true → ubind d.slot = true := by
  induction devices using List.reverseRecOn with
  | nil => simp [runPci]
  | append_singleton devices d ih =>
    have earlier := ih fun x member => dotted x (List.mem_append_left _ member)
    have dot := dotted d (by simp)
    rw [runPci_concat, List.forall_mem_append, ← earlier]
    cases runPci ubind devices with
    | none => simp
    | some q => simpa using passThrough_isSome dot

theorem addressed_of_plugged (plugged : Plugged devices q)
    (distinct : (devices.map VfioDevice.slot).Nodup) : Addressed devices q.args := by
  refine ⟨plugged.ports, plugged.functions, behind_of_isBehind plugged.behind, ?_⟩
  rw [plugged.functions, List.map_map]
  refine List.Nodup.map_on ?_ distinct.of_map
  intro d member e other same
  obtain ⟨ports, fns⟩ := Prod.mk.inj same
  have slots : d.slotNoFn = e.slotNoFn := (List.idxOf_inj (mem_prefixes member)).mp ports
  exact List.inj_on_of_nodup_map distinct member other
    (slot_eq (plugged.dotted d member) (plugged.dotted e other) slots fns)

end Loop

/-- Whatever devices are passed through, their functions get distinct addresses on root ports that
    exist; and they are all passed through unless one cannot be unbound. -/
theorem pci_addresses (ubind : String → Bool) (devices : List VfioDevice)
    (dotted : ∀ d ∈ devices, '.' ∈ d.slot.toList)
    (distinct : (devices.map VfioDevice.slot).Nodup) :
    (∀ args, pciArgs ubind devices = some args → Addressed devices args) ∧
    ((pciArgs ubind devices).isSome = true ↔
      ∀ d ∈ devices, d.resettable = true → ubind d.slot = true) := by
  constructor
  · intro args emitted
    obtain ⟨q, ran, rfl⟩ := Option.map_eq_some_iff.mp emitted
    exact addressed_of_plugged (plugged_run ran) distinct
  · rw [pciArgs, Option.isSome_map]
    exact runPci_isSome dotted

/-- Two functions of a graphics card, with another card in between. -/
theorem pci_addresses_three :
    ∃ args, pciArgs (fun _ => true)
        [⟨true, "01:00.0"⟩, ⟨false, "02:00.0"⟩, ⟨false, "01:00.1"⟩] = some args ∧
      Addressed [⟨true, "01:00.0"⟩, ⟨false, "02:00.0"⟩, ⟨false, "01:00.1"⟩] args :=
  ⟨_, rfl, (pci_addresses (fun _ => true) _ (by decide) (by decide)).1 _ rfl⟩

example : ((pciArgs (fun _ => true)
    [⟨true, "01:00.0"⟩, ⟨false, "02:00.0"⟩, ⟨false, "01:00.1"⟩]).map pciCommandLine) = some
    ["-device", "pcie-root-port,id=root_port_0,bus=pcie.0",
      "-device", "vfio-pci,host=01:00.0,multifunction=on,bus=root_port_0,addr=0x00.0",
      "-device", "pcie-root-port,id=root_port_1,bus=pcie.0",
      "-device", "vfio-pci,host=02:00.0,multifunction=on,bus=root_port_1,addr=0x00.0",
      "-device", "vfio-pci,host=01:00.1,multifunction=on,bus=root_port_0,addr=0x00.1"] := by decide

end PciPorts
