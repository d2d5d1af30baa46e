import WindowsGaming.Config
import WindowsGaming.Library.StableGroups

/- Where USB devices are plugged in: the permanent ones on QEMU's command line, the
   others when the guest takes them over. Both sides number the devices of a bus kind
   separately; `StableGroups` shows that they number them alike. -/
namespace UsbPorts
open Config StableGroups

/-- The bus and address `udev` finds for a binding, if a device is there. An error of
    udev panics the driver, so a run that goes on has seen none. -/
abbrev Udev := UsbBinding → Option (Nat × Nat)

structure Placement where
  bus : UsbBus
  busIndex : Nat
  port : Nat
  deriving DecidableEq, Repr

def place (bus : UsbBus) (slot : Nat) : Placement :=
  ⟨bus, slot / usablePorts bus, slot % usablePorts bus + 1⟩

def Placement.busName (p : Placement) : String := p.bus.name ++ toString p.busIndex ++ ".0"

inductive UsbFunction where
  | host (hostbus hostaddr : Nat)
  | mouse
  | kbd
  deriving DecidableEq, Repr

structure UsbArg where
  function : UsbFunction
  bus : UsbBus
  slot : Nat
  deriving DecidableEq, Repr

def UsbArg.placement (a : UsbArg) : Placement := place a.bus a.slot

def UsbArg.render (a : UsbArg) : String :=
  let tail := "bus=" ++ a.placement.busName ++ ",port=" ++ toString a.placement.port
  match a.function with
  | .host hostbus hostaddr =>
    "usb-host,hostbus=" ++ toString hostbus ++ ",hostaddr=" ++ toString hostaddr ++ "," ++ tail
  | .mouse => "usb-mouse," ++ tail
  | .kbd => "usb-kbd," ++ tail

def hostArg (udev : Udev) (bus : UsbBus) (port : Nat) (dev : UsbDevice) : Option UsbArg :=
  if dev.permanent then
    (udev dev.binding).map fun found => ⟨.host found.1 found.2, bus, port⟩
  else none

/-- The arguments of one bus kind: its resolved permanent devices and, behind all devices
    of the xhci group, the extra mouse and keyboard. -/
def groupArgs (udev : Udev) (bus : UsbBus) (devices : List UsbDevice) : List UsbArg :=
  let hosts := (enumerate devices).filterMap fun p => hostArg udev bus p.1 p.2
  let i := devices.length
  if bus = .xhci then hosts ++ [⟨.mouse, bus, i⟩, ⟨.kbd, bus, i + 1⟩] else hosts

def usbArgs (udev : Udev) (devs : List UsbDevice) : List UsbArg :=
  (groupBy UsbDevice.bus (sortedBy UsbDevice.bus devs)).flatMap fun g =>
    groupArgs udev g.1 g.2

def busCount (devs : List UsbDevice) (typ : UsbBus) : Nat :=
  let count := devs.countP (fun dev => dev.bus = typ)
  -- room for the extra mouse and keyboard
  let count := if typ = .xhci then count + 3 else count
  (count + usablePorts typ - 1) / usablePorts typ

structure BusArg where
  name : String
  typ : UsbBus
  index : Nat
  ports : String
  deriving DecidableEq, Repr

def BusArg.render (a : BusArg) : String :=
  a.name ++ ",id=" ++ a.typ.name ++ toString a.index ++ a.ports

def createUsbBuses (devs : List UsbDevice) (name : String) (typ : UsbBus) (ports : String) :
    List BusArg :=
  (List.range (busCount devs typ)).map fun i => ⟨name, typ, i, ports⟩

def busArgs (devs : List UsbDevice) : List BusArg :=
  createUsbBuses devs "pci-ohci" .ohci ",num-ports=15" ++
    createUsbBuses devs "ich9-usb-uhci1" .uhci "" ++
    createUsbBuses devs "ich9-usb-ehci1" .ehci "" ++
    createUsbBuses devs "qemu-xhci" .xhci ",p2=15,p3=15"

def audioArgs : List String :=
  ["-audiodev", "pipewire,id=pwaudio,out.mixing-engine=off,in.mixing-engine=off," ++
    "in.latency=100000000,in.buffer-length=100000000",
    "-device", "ich9-intel-hda", "-device", "hda-micro,audiodev=pwaudio"]

def usbCommandLine (udev : Udev) (devs : List UsbDevice) : List String :=
  ((busArgs devs).flatMap fun a => ["-device", a.render]) ++
    (groupBy UsbDevice.bus (sortedBy UsbDevice.bus devs)).flatMap fun g =>
      ((groupArgs udev g.1 g.2).flatMap fun a => ["-device", a.render]) ++
        if g.1 = .xhci then audioArgs else []

structure Hotplug where
  index : Nat
  placement : Placement
  hostbus : Nat
  hostaddr : Nat
  deriving DecidableEq, Repr

def hotplugSlots (devs : List UsbDevice) : List (Nat × Nat × UsbDevice) :=
  (slots (fun p : Nat × UsbDevice => p.2.bus) (enumerate devs)).filter fun p => !p.2.2.permanent

def hotplug (udev : Udev) (port i : Nat) (dev : UsbDevice) : Option Hotplug :=
  (udev dev.binding).map fun found => ⟨i, place dev.bus port, found.1, found.2⟩

def hotplugs (udev : Udev) (devs : List UsbDevice) : List Hotplug :=
  (hotplugSlots devs).filterMap fun p => hotplug udev p.1 p.2.1 p.2.2

def startPlacements (udev : Udev) (devs : List UsbDevice) : List Placement :=
  (usbArgs udev devs).map UsbArg.placement

def hotplugPlacements (udev : Udev) (devs : List UsbDevice) : List Placement :=
  (hotplugs udev devs).map Hotplug.placement

theorem place_injective {b c : UsbBus} {m n : Nat} (h : place b m = place c n) :
    b = c ∧ m = n := by
  simp only [place, Placement.mk.injEq, Nat.add_right_cancel_iff] at h
  obtain ⟨rfl, quotient, remainder⟩ := h
  refine ⟨rfl, ?_⟩
  rw [← Nat.div_add_mod m (usablePorts b), ← Nat.div_add_mod n (usablePorts b), quotient,
    remainder]

theorem place_port_range (bus : UsbBus) (slot : Nat) :
    1 ≤ (place bus slot).port ∧ (place bus slot).port ≤ usablePorts bus := by
  have := Nat.mod_lt slot (usablePorts_pos bus)
  simp only [place]
  omega

theorem place_bus (bus : UsbBus) (slot : Nat) : (place bus slot).bus = bus := rfl

theorem busIndex_lt_ceil {bus : UsbBus} {slot count : Nat} (h : slot < count) :
    (place bus slot).busIndex < (count + usablePorts bus - 1) / usablePorts bus := by
  have pos := usablePorts_pos bus
  have floor := Nat.div_mul_le_self slot (usablePorts bus)
  refine (Nat.le_div_iff_mul_le pos).mpr ?_
  simp only [place, Nat.succ_mul]
  omega

theorem class_length (devs : List UsbDevice) (bus : UsbBus) :
    (ofKey UsbDevice.bus bus devs).length = devs.countP (fun dev => dev.bus = bus) :=
  List.countP_eq_length_filter.symm

theorem slot_has_bus {devs : List UsbDevice} {bus : UsbBus} {slot : Nat}
    (h : slot < (ofKey UsbDevice.bus bus devs).length) :
    (place bus slot).busIndex < busCount devs bus := by
  rw [class_length] at h
  refine Nat.lt_of_lt_of_le (busIndex_lt_ceil h) (Nat.div_le_div_right ?_)
  split <;> omega

theorem extra_slot_has_bus {devs : List UsbDevice} {slot : Nat}
    (h : slot ≤ (ofKey UsbDevice.bus .xhci devs).length + 1) :
    (place .xhci slot).busIndex < busCount devs .xhci := by
  rw [class_length] at h
  have := @busIndex_lt_ceil .xhci slot (devs.countP (fun dev => dev.bus = .xhci) + 3) (by omega)
  simpa [busCount] using this

theorem class_of_enumerated (devs : List UsbDevice) (bus : UsbBus) :
    (ofKey (fun p : Nat × UsbDevice => p.2.bus) bus (enumerate devs)).map Prod.snd =
      ofKey UsbDevice.bus bus devs := by
  have := List.filter_map (f := Prod.snd) (p := fun dev : UsbDevice => decide (dev.bus = bus))
    (l := enumerate devs)
  rw [enumerate_snd] at this
  exact this.symm

theorem mem_hotplugSlots {devs : List UsbDevice} {port i : Nat} {dev : UsbDevice}
    (h : (port, (i, dev)) ∈ hotplugSlots devs) :
    (ofKey UsbDevice.bus dev.bus devs)[port]? = some dev ∧ dev.permanent = false := by
  obtain ⟨slot, hot⟩ := List.mem_filter.mp h
  have at_port := (mem_slots _).mp slot
  refine ⟨?_, by simpa using hot⟩
  rw [← class_of_enumerated, List.getElem?_map, at_port]
  rfl

theorem mem_hotplugs {udev : Udev} {devs : List UsbDevice} {a : Hotplug}
    (h : a ∈ hotplugs udev devs) :
    ∃ port dev, a.placement = place dev.bus port ∧
      (ofKey UsbDevice.bus dev.bus devs)[port]? = some dev ∧ dev.permanent = false := by
  obtain ⟨⟨port, i, dev⟩, slot, made⟩ := List.mem_filterMap.mp h
  obtain ⟨found, _, rfl⟩ := Option.map_eq_some_iff.mp made
  exact ⟨port, dev, rfl, mem_hotplugSlots slot⟩

theorem hostArg_eq_some {udev : Udev} {bus : UsbBus} {port : Nat} {dev : UsbDevice} {a : UsbArg}
    (h : hostArg udev bus port dev = some a) :
    a.bus = bus ∧ a.slot = port ∧ dev.permanent = true := by
  unfold hostArg at h
  split at h
  · rename_i permanent
    obtain ⟨found, _, rfl⟩ := Option.map_eq_some_iff.mp h
    exact ⟨rfl, rfl, permanent⟩
  · cases h

theorem mem_groupArgs {udev : Udev} {bus : UsbBus} {devices : List UsbDevice} {a : UsbArg}
    (h : a ∈ groupArgs udev bus devices) :
    a.bus = bus ∧ ((∃ dev, devices[a.slot]? = some dev ∧ dev.permanent = true) ∨
      (bus = .xhci ∧ devices.length ≤ a.slot ∧ a.slot ≤ devices.length + 1)) := by
  have hosts : ∀ b ∈ (enumerate devices).filterMap (fun p => hostArg udev bus p.1 p.2),
      b.bus = bus ∧ ∃ dev, devices[b.slot]? = some dev ∧ dev.permanent = true := by
    intro b hb
    obtain ⟨⟨port, dev⟩, at_port, made⟩ := List.mem_filterMap.mp hb
    obtain ⟨same, rfl, permanent⟩ := hostArg_eq_some made
    exact ⟨same, dev, mem_enumerate.mp at_port, permanent⟩
  simp only [groupArgs] at h
  split at h
  · rename_i xhci
    rcases List.mem_append.mp h with host | extra
    · obtain ⟨same, found⟩ := hosts a host
      exact ⟨same, Or.inl found⟩
    · simp only [List.mem_cons, List.not_mem_nil, or_false] at extra
      rcases extra with rfl | rfl
      · exact ⟨rfl, Or.inr ⟨xhci, Nat.le_refl _, Nat.le_succ _⟩⟩
      · exact ⟨rfl, Or.inr ⟨xhci, Nat.le_succ _, Nat.le_refl _⟩⟩
  · obtain ⟨same, found⟩ := hosts a h
    exact ⟨same, Or.inl found⟩

/-- Every start-time argument sits in a slot of its bus kind: a permanent device in its
    own slot, the extra devices behind all slots of the xhci group. -/
theorem mem_usbArgs {udev : Udev} {devs : List UsbDevice} {a : UsbArg}
    (h : a ∈ usbArgs udev devs) :
    (∃ dev, (ofKey UsbDevice.bus a.bus devs)[a.slot]? = some dev ∧ dev.permanent = true) ∨
      (a.bus = .xhci ∧ (ofKey UsbDevice.bus a.bus devs).length ≤ a.slot ∧
        a.slot ≤ (ofKey UsbDevice.bus a.bus devs).length + 1) := by
  obtain ⟨⟨bus, devices⟩, group, member⟩ := List.mem_flatMap.mp h
  obtain ⟨rfl, _⟩ := (mem_groups UsbDevice.bus devs bus devices).mp group
  obtain ⟨same, found⟩ := mem_groupArgs member
  simpa only [same] using found

theorem map_filterMap_sublist {α β γ : Type} {f : α → Option β} {g : β → γ} {h : α → γ}
    (agree : ∀ a b, f a = some b → g b = h a) (xs : List α) :
    ((xs.filterMap f).map g).Sublist (xs.map h) := by
  induction xs with
  | nil => simp
  | cons a xs ih =>
    cases made : f a with
    | none => simpa [List.filterMap_cons, made] using ih.cons (h a)
    | some b =>
      simp only [List.filterMap_cons, made, List.map_cons, agree a b made]
      exact ih.cons_cons (h a)

theorem groupArgs_slots_nodup (udev : Udev) (bus : UsbBus) (devices : List UsbDevice) :
    ((groupArgs udev bus devices).map UsbArg.slot).Nodup := by
  have hosts : (((enumerate devices).filterMap fun p => hostArg udev bus p.1 p.2).map
      UsbArg.slot).Sublist ((enumerate devices).map Prod.fst) :=
    map_filterMap_sublist (fun _ _ made => (hostArg_eq_some made).2.1) _
  have below : ∀ n ∈ (enumerate devices).map Prod.fst, n < devices.length := by
    intro n hn
    obtain ⟨⟨port, dev⟩, at_port, rfl⟩ := List.mem_map.mp hn
    exact (List.getElem?_eq_some_iff.mp (mem_enumerate.mp at_port)).1
  have hostsNodup := (enumerate_nodup devices).sublist hosts
  simp only [groupArgs]
  split
  · simp only [List.map_append, List.map_cons, List.map_nil]
    refine List.nodup_append.mpr ⟨hostsNodup, by simp, ?_⟩
    intro m hm n hn
    have := below m (hosts.subset hm)
    simp only [List.mem_cons, List.not_mem_nil, or_false] at hn
    omega
  · exact hostsNodup

theorem usbArgs_nodup (udev : Udev) (devs : List UsbDevice) :
    ((usbArgs udev devs).map fun a => (a.bus, a.slot)).Nodup := by
  simp only [usbArgs, List.map_flatMap]
  refine List.nodup_flatMap.mpr ⟨?_, ?_⟩
  · intro g _
    refine List.Nodup.of_map Prod.snd ?_
    simpa [Function.comp_def] using groupArgs_slots_nodup udev g.1 g.2
  · refine (groups_keys_increase UsbDevice.bus devs).imp ?_
    intro g h less x hx hy
    obtain ⟨a, ha, rfl⟩ := List.mem_map.mp hx
    obtain ⟨b, hb, same⟩ := List.mem_map.mp hy
    have buses := congrArg Prod.fst same
    simp only [(mem_groupArgs ha).1, (mem_groupArgs hb).1] at buses
    exact absurd buses (ne_of_gt less)

theorem startPlacements_nodup (udev : Udev) (devs : List UsbDevice) :
    (startPlacements udev devs).Nodup := by
  have placed : startPlacements udev devs =
      ((usbArgs udev devs).map fun a => (a.bus, a.slot)).map fun p => place p.1 p.2 := by
    simp [startPlacements, UsbArg.placement]
  rw [placed]
  refine (usbArgs_nodup udev devs).map ?_
  intro p q same
  obtain ⟨bus, slot⟩ := place_injective same
  exact Prod.ext bus slot

theorem hotplugPlacements_nodup (udev : Udev) (devs : List UsbDevice) :
    (hotplugPlacements udev devs).Nodup := by
  have placed : (hotplugPlacements udev devs).Sublist
      ((hotplugSlots devs).map fun p => place p.2.2.bus p.1) := by
    refine map_filterMap_sublist ?_ _
    intro p a made
    obtain ⟨found, _, rfl⟩ := Option.map_eq_some_iff.mp made
    rfl
  have keys := (slots_nodup (fun p : Nat × UsbDevice => p.2.bus) (enumerate devs)).sublist
    ((List.filter_sublist (p := fun p => !p.2.2.permanent)).map _)
  refine List.Nodup.sublist placed ?_
  have distinct := keys.map (f := fun p : UsbBus × Nat => place p.1 p.2) (by
    intro p q same
    obtain ⟨bus, slot⟩ := place_injective same
    exact Prod.ext bus slot)
  simpa [Function.comp_def, hotplugSlots] using distinct

theorem start_hotplug_disjoint (start entry : Udev) (devs : List UsbDevice) :
    (startPlacements start devs).Disjoint (hotplugPlacements entry devs) := by
  intro p hs hh
  obtain ⟨a, ha, rfl⟩ := List.mem_map.mp hs
  obtain ⟨b, hb, same⟩ := List.mem_map.mp hh
  obtain ⟨port, dev, placed, at_port, hot⟩ := mem_hotplugs hb
  obtain ⟨bus, slot⟩ := place_injective (placed.symm.trans same)
  rw [bus, slot] at at_port
  have inside := (List.getElem?_eq_some_iff.mp at_port).1
  rcases mem_usbArgs ha with ⟨other, there, permanent⟩ | ⟨_, beyond, _⟩
  · rw [at_port] at there
    cases there
    simp [hot] at permanent
  · omega

def createdBuses (devs : List UsbDevice) : List (UsbBus × Nat) :=
  (busArgs devs).map fun a => (a.typ, a.index)

theorem mem_createdBuses {devs : List UsbDevice} {bus : UsbBus} {i : Nat} :
    (bus, i) ∈ createdBuses devs ↔ i < busCount devs bus := by
  cases bus <;> simp [createdBuses, busArgs, createUsbBuses]

theorem placement_within (start entry : Udev) (devs : List UsbDevice) :
    ∀ p ∈ startPlacements start devs ++ hotplugPlacements entry devs,
      ∃ slot, p = place p.bus slot ∧ p.busIndex < busCount devs p.bus := by
  intro p hp
  rcases List.mem_append.mp hp with hs | hh
  · obtain ⟨a, ha, rfl⟩ := List.mem_map.mp hs
    refine ⟨a.slot, rfl, ?_⟩
    rcases mem_usbArgs ha with ⟨dev, there, _⟩ | ⟨xhci, _, extra⟩
    · exact slot_has_bus (List.getElem?_eq_some_iff.mp there).1
    · simp only [UsbArg.placement, place_bus, xhci] at extra ⊢
      exact extra_slot_has_bus extra
  · obtain ⟨b, hb, rfl⟩ := List.mem_map.mp hh
    obtain ⟨port, dev, placed, there, _⟩ := mem_hotplugs hb
    rw [placed]
    exact ⟨port, rfl, slot_has_bus (List.getElem?_eq_some_iff.mp there).1⟩

theorem flatMap_of_mem {α β : Type} {f : α → List β} {a : α} {xs : List α} (member : a ∈ xs) :
    ∃ before after, xs.flatMap f = before ++ f a ++ after := by
  obtain ⟨front, back, rfl⟩ := List.append_of_mem member
  exact ⟨front.flatMap f, back.flatMap f, by simp⟩

/-- On the command line a device comes behind the bus that it names. -/
theorem device_behind_bus (udev : Udev) (devs : List UsbDevice) {a : UsbArg}
    (member : a ∈ usbArgs udev devs) :
    ∃ bus ∈ busArgs devs, a.placement.busName = bus.typ.name ++ toString bus.index ++ ".0" ∧
      ∃ before between after, usbCommandLine udev devs =
        before ++ ["-device", bus.render] ++ between ++ ["-device", a.render] ++ after := by
  have placed : a.placement ∈ startPlacements udev devs ++ hotplugPlacements udev devs :=
    List.mem_append_left _ (List.mem_map_of_mem member)
  obtain ⟨-, -, within⟩ := placement_within udev udev devs a.placement placed
  obtain ⟨bus, created, same⟩ := List.mem_map.mp (mem_createdBuses.mpr within)
  have typ : a.placement.bus = bus.typ := (congrArg Prod.fst same).symm
  have index : a.placement.busIndex = bus.index := (congrArg Prod.snd same).symm
  refine ⟨bus, created, by rw [Placement.busName, typ, index], ?_⟩
  obtain ⟨g, group, inside⟩ := List.mem_flatMap.mp member
  obtain ⟨before, between, buses⟩ :=
    flatMap_of_mem (f := fun b : BusArg => ["-device", b.render]) created
  obtain ⟨front, back, groups⟩ := flatMap_of_mem (f := fun g : UsbBus × List UsbDevice =>
    ((groupArgs udev g.1 g.2).flatMap fun b => ["-device", b.render]) ++
      if g.1 = .xhci then audioArgs else []) group
  obtain ⟨first, last, args⟩ := flatMap_of_mem (f := fun b : UsbArg => ["-device", b.render]) inside
  refine ⟨before, between ++ front ++ first,
    last ++ (if g.1 = .xhci then audioArgs else []) ++ back, ?_⟩
  rw [usbCommandLine, buses, groups]
  simp only [args, List.append_assoc]

/-- Start-time and hot-plugged devices share no port, whatever udev finds at either time,
    and every port exists on a bus that was created. -/
theorem usb_placements_agree (start entry : Udev) (devs : List UsbDevice) :
    (startPlacements start devs ++ hotplugPlacements entry devs).Nodup ∧
      ∀ p ∈ startPlacements start devs ++ hotplugPlacements entry devs,
        1 ≤ p.port ∧ p.port ≤ usablePorts p.bus ∧ (p.bus, p.busIndex) ∈ createdBuses devs := by
  constructor
  · refine (startPlacements_nodup start devs).append (hotplugPlacements_nodup entry devs) ?_
    exact start_hotplug_disjoint start entry devs
  · intro p hp
    obtain ⟨slot, placed, bus⟩ := placement_within start entry devs p hp
    have range := place_port_range p.bus slot
    rw [← placed] at range
    exact ⟨range.1, range.2, mem_createdBuses.mpr bus⟩

end UsbPorts
