import WindowsGaming.Controller
import WindowsGaming.Library.Numerals

/- How the bindings of the configuration find their devices again. udev shows ids and numbers as text
   and compares attributes with patterns; the controller takes the first match of a binding, the light
   entry the input devices of all of them. -/
namespace UsbBindings
open Config UsbPorts Controller Numerals

structure Device where
  subsystem : String
  properties : List (String × String)
  /-- An attribute may be unreadable. -/
  attributes : List (String × Option String)
  /-- The input devices below it, each with its libinput group, if it has one, and its node. -/
  inputs : List (Option String × String)
  deriving DecidableEq, Repr

def Device.property (dev : Device) (name : String) : Option String := dev.properties.lookup name

def Device.attribute (dev : Device) (name : String) : Option String :=
  (dev.attributes.lookup name).join

def showHex (n : UInt16) : String := String.ofList (padded 4 16 n.toNat)

def showDecimal (n : Nat) : String := String.ofList (padded 0 10 n)

def matchAttributes : UsbBinding → List (String × String)
  | .byId vendor product => [("idVendor", showHex vendor), ("idProduct", showHex product)]
  | .byPort bus port => [("busnum", showDecimal bus.toNat), ("devpath", port)]

def isUsbDevice (dev : Device) : Bool :=
  dev.subsystem = "usb" && dev.property "DEVTYPE" = some "usb_device"

section Resolution
variable (fnmatch : String → String → Bool)

def scanDevices (tree : List Device) (binding : UsbBinding) : List Device :=
  tree.filter fun dev => isUsbDevice dev &&
    (matchAttributes binding).all fun p => (dev.attribute p.1).any (fnmatch p.2)

def parseInt (s : String) : Option Nat :=
  match s.toList with
  | '0' :: 'x' :: s => fromStrRadix 16 (2 ^ 64) s
  | '0' :: 'o' :: s => fromStrRadix 8 (2 ^ 64) s
  | '0' :: 'b' :: s => fromStrRadix 2 (2 ^ 64) s
  | s => fromStrRadix 10 (2 ^ 64) s

/-- The loop over the attributes; it panics at a number that it cannot read. -/
def readAddress (bus addr : Option Nat) :
    List (String × Option String) → Option (Option Nat × Option Nat)
  | [] => some (bus, addr)
  | (name, some val) :: attributes =>
    if name = "busnum" then (parseInt val).bind fun n => readAddress (some n) addr attributes
    else if name = "devnum" then (parseInt val).bind fun n => readAddress bus (some n) attributes
    else readAddress bus addr attributes
  | (_, none) :: attributes => readAddress bus addr attributes

/-- The outer `none` is a panic. -/
def udevResolveBinding (tree : List Device) (binding : UsbBinding) : Option (Option (Nat × Nat)) :=
  match scanDevices fnmatch tree binding with
  | [] => some none
  -- with several matches the first one is taken, just like qemu would
  | dev :: _ =>
    (readAddress none none dev.attributes).bind fun (bus, addr) =>
      bus.bind fun bus => addr.bind fun addr => some (some (bus, addr))

def Device.libinputNodes (dev : Device) : List String :=
  (dev.inputs.filter fun p => p.1.any fun group => group ≠ "").map Prod.snd

def env (tree : List Device) (opens pathExists : String → Bool) (rustLog : Option String) : Env where
  udev binding := (udevResolveBinding fnmatch tree binding).join
  inputNodes binding := (scanDevices fnmatch tree binding).flatMap Device.libinputNodes
  opens
  pathExists
  rustLog

end Resolution

inductive Binding where
  | id (vendor product : UInt16)
  | port (bus : UInt16) (port : String)
  | idAndPort (vendor product bus : UInt16) (port : String)
  deriving DecidableEq, Repr

/-- `UsbDevice` of the list of devices; the configuration has another type of this name. -/
structure Listed where
  binding : Binding
  names : Option (String × Option String)
  deriving DecidableEq, Repr

def parseHex (s : String) : Option UInt16 :=
  match s.toList with
  | '0' :: 'x' :: s => ByteStrings.fromStrRadix16 s
  | s => ByteStrings.fromStrRadix16 s

def fromUdevDevice (dev : Device) : Option Listed :=
  ((dev.property "ID_VENDOR_ID").bind parseHex).bind fun vendor =>
    ((dev.property "ID_MODEL_ID").bind parseHex).bind fun product =>
      ((dev.attribute "busnum").bind fun s => fromStrRadix 10 (2 ^ 16) s.toList).bind fun busnum =>
        (dev.attribute "devpath").map fun devpath =>
          { binding := .idAndPort vendor product (UInt16.ofNat busnum) devpath
            names := (dev.property "ID_VENDOR_FROM_DATABASE").map fun name =>
              (name, dev.property "ID_MODEL_FROM_DATABASE") }

def Listed.byId (dev : Listed) : Option UsbBinding :=
  match dev.binding with
  | .id vendor product | .idAndPort vendor product _ _ => some (.byId vendor product)
  | .port _ _ => none

def Listed.byPort (dev : Listed) : Option UsbBinding :=
  match dev.binding with
  | .port bus port | .idAndPort _ _ bus port => some (.byPort bus port)
  | .id _ _ => none

structure Usb where
  vendor : UInt16
  product : UInt16
  bus : UInt16
  devnum : Nat
  devpath : String
  deriving DecidableEq, Repr

def Usb.address (u : Usb) : Nat × Nat := (u.bus.toNat, u.devnum)

def Plain (pattern : String) : Prop := ∀ c ∈ pattern.toList, c ∉ ['*', '?', '[', '\\']

instance (pattern : String) : Decidable (Plain pattern) := List.decidableBAll _ _

/-- The kernel and udev have written the device's attributes and properties. -/
structure Shows (dev : Device) (u : Usb) : Prop where
  idVendor : dev.attribute "idVendor" = some (showHex u.vendor)
  idProduct : dev.attribute "idProduct" = some (showHex u.product)
  busnum : dev.attribute "busnum" = some (showDecimal u.bus.toNat)
  devnum : dev.attribute "devnum" = some (showDecimal u.devnum)
  devpath : dev.attribute "devpath" = some u.devpath
  vendorId : dev.property "ID_VENDOR_ID" = some (showHex u.vendor)
  modelId : dev.property "ID_MODEL_ID" = some (showHex u.product)
  once : (dev.attributes.map Prod.fst).Nodup
  short : u.devnum < 2 ^ 64
  path : Plain u.devpath

def sysfs (u : Usb) (inputs : List (Option String × String)) : Device where
  subsystem := "usb"
  properties := [("DEVTYPE", "usb_device"), ("ID_VENDOR_ID", showHex u.vendor),
    ("ID_MODEL_ID", showHex u.product)]
  attributes := [("busnum", some (showDecimal u.bus.toNat)), ("devnum", some (showDecimal u.devnum)),
    ("devpath", some u.devpath), ("idProduct", some (showHex u.product)),
    ("idVendor", some (showHex u.vendor)), ("product", none)]
  inputs

/-- The binding is meant for the device. -/
def Binds (fnmatch : String → String → Bool) : UsbBinding → Usb → Bool
  | .byId vendor product, u => vendor = u.vendor && product = u.product
  | .byPort bus port, u => bus = u.bus && fnmatch port u.devpath

def usbDevices (tree : List Device) : List Device := tree.filter isUsbDevice

section Text
variable {u : Usb} {dev : Device}

theorem showHex_injective : Function.Injective showHex := by
  intro m n same
  have digits := String.ofList_injective same
  exact UInt16.toNat_inj.mp (padded_injective 4 (by omega) (by omega) digits)

theorem showDecimal_injective : Function.Injective showDecimal := fun _ _ same =>
  padded_injective 0 (by omega) (by omega) (String.ofList_injective same)

theorem plain_of_digits {width base n : Nat} (large : 1 < base) (small : base ≤ 16) :
    Plain (String.ofList (padded width base n)) := by
  intro c member
  rw [String.toList_ofList] at member
  obtain ⟨d, digit, rfl⟩ := digit_of_mem_padded large member
  have plain : ∀ d < 16, d.digitChar ∉ ['*', '?', '[', '\\'] := by decide
  exact plain d (Nat.lt_of_lt_of_le digit small)

theorem parseInt_showDecimal {n : Nat} (short : n < 2 ^ 64) : parseInt (showDecimal n) = some n := by
  have digits (rest : List Char) {c : Char} (tail : c ∈ rest) (other : ∀ d < 10, c ≠ d.digitChar) :
      padded 0 10 n ≠ '0' :: rest := by
    intro shown
    have member : c ∈ padded 0 10 n := shown ▸ List.mem_cons_of_mem '0' tail
    obtain ⟨d, digit, same⟩ := digit_of_mem_padded (by omega) member
    exact other d digit same
  unfold parseInt
  rw [showDecimal, String.toList_ofList]
  split
  · rename_i s shown
    exact absurd shown (digits ('x' :: s) List.mem_cons_self (by decide))
  · rename_i s shown
    exact absurd shown (digits ('o' :: s) List.mem_cons_self (by decide))
  · rename_i s shown
    exact absurd shown (digits ('b' :: s) List.mem_cons_self (by decide))
  · exact fromStrRadix_padded 0 (by omega) (by omega) short

theorem parseHex_showHex (n : UInt16) : parseHex (showHex n) = some n := by
  unfold parseHex
  rw [showHex, String.toList_ofList]
  split
  · rename_i s shown
    have member : 'x' ∈ padded 4 16 n.toNat :=
      shown ▸ List.mem_cons_of_mem '0' List.mem_cons_self
    obtain ⟨d, digit, same⟩ := digit_of_mem_padded (by omega) member
    have other : ∀ d < 16, 'x' ≠ d.digitChar := by decide
    exact absurd same (other d digit)
  · rw [fromStrRadix16_eq, fromStrRadix_padded 4 (by omega) (by omega) n.toNat_lt, Option.map_some,
      UInt16.ofNat_toNat]

end Text

section Lists
variable {dev : Device} {u : Usb} {attributes : List (String × Option String)}

theorem lookup_of_mem {name : String} {val : Option String}
    (once : (attributes.map Prod.fst).Nodup) (member : (name, val) ∈ attributes) :
    attributes.lookup name = some val := by
  induction attributes with
  | nil => cases member
  | cons p attributes ih =>
    obtain ⟨fresh, rest⟩ := List.nodup_cons.mp once
    rcases List.mem_cons.mp member with rfl | later
    · simp
    · have other : name ≠ p.1 := by
        rintro rfl
        exact fresh (List.mem_map.mpr ⟨_, later, rfl⟩)
      have differs : (name == p.1) = false := by simpa using other
      rw [List.lookup_cons, differs]
      exact ih rest later

theorem mem_of_attribute {name val : String} (found : dev.attribute name = some val) :
    (name, some val) ∈ dev.attributes := by
  obtain ⟨before, after, cut, -⟩ := List.lookup_eq_some_iff.mp (Option.join_eq_some_iff.mp found)
  simp [cut]

theorem readAddress_reads {b a : Nat} {bus addr : Option Nat}
    (busnum : ∀ val, ("busnum", some val) ∈ attributes → parseInt val = some b)
    (devnum : ∀ val, ("devnum", some val) ∈ attributes → parseInt val = some a)
    (some_bus : bus = some b ∨ ∃ val, ("busnum", some val) ∈ attributes)
    (some_addr : addr = some a ∨ ∃ val, ("devnum", some val) ∈ attributes) :
    readAddress bus addr attributes = some (some b, some a) := by
  induction attributes generalizing bus addr with
  | nil =>
    obtain rfl : bus = some b := by simpa using some_bus
    obtain rfl : addr = some a := by simpa using some_addr
    rfl
  | cons p attributes ih =>
    have busnum' := fun val member => busnum val (List.mem_cons_of_mem p member)
    have devnum' := fun val member => devnum val (List.mem_cons_of_mem p member)
    obtain ⟨name, val⟩ := p
    cases val with
    | none =>
      rw [readAddress]
      exact ih busnum' devnum' (by simpa using some_bus) (by simpa using some_addr)
    | some val =>
      rw [readAddress]
      by_cases is_bus : name = "busnum"
      · subst is_bus
        rw [if_pos rfl, busnum val List.mem_cons_self, Option.bind_some]
        exact ih busnum' devnum' (Or.inl rfl) (by simpa using some_addr)
      · by_cases is_addr : name = "devnum"
        · subst is_addr
          rw [if_neg is_bus, if_pos rfl, devnum val List.mem_cons_self, Option.bind_some]
          exact ih busnum' devnum' (by simpa using some_bus) (Or.inl rfl)
        · rw [if_neg is_bus, if_neg is_addr]
          have not_bus : "busnum" ≠ name := Ne.symm is_bus
          have not_addr : "devnum" ≠ name := Ne.symm is_addr
          exact ih busnum' devnum' (by simpa [not_bus] using some_bus)
            (by simpa [not_addr] using some_addr)

theorem number_of_shown {name val : String} {n : Nat} (once : (dev.attributes.map Prod.fst).Nodup)
    (shown : dev.attribute name = some (showDecimal n)) (short : n < 2 ^ 64)
    (member : (name, some val) ∈ dev.attributes) : parseInt val = some n := by
  have found := lookup_of_mem once member
  rw [Device.attribute, found] at shown
  obtain rfl : val = showDecimal n := by simpa using shown
  exact parseInt_showDecimal short

theorem readAddress_shown (shows : Shows dev u) :
    readAddress none none dev.attributes = some (some u.bus.toNat, some u.devnum) := by
  have small : u.bus.toNat < 2 ^ 64 := Nat.lt_trans u.bus.toNat_lt (by decide)
  exact readAddress_reads (fun _ => number_of_shown shows.once shows.busnum small)
    (fun _ => number_of_shown shows.once shows.devnum shows.short)
    (Or.inr ⟨_, mem_of_attribute shows.busnum⟩) (Or.inr ⟨_, mem_of_attribute shows.devnum⟩)

end Lists

theorem shows_sysfs (inputs : List (Option String × String)) (short : u.devnum < 2 ^ 64)
    (path : Plain u.devpath) : Shows (sysfs u inputs) u :=
  ⟨by simp [sysfs, Device.attribute, List.lookup_cons],
    by simp [sysfs, Device.attribute, List.lookup_cons], by simp [sysfs, Device.attribute],
    by simp [sysfs, Device.attribute, List.lookup_cons],
    by simp [sysfs, Device.attribute, List.lookup_cons],
    by simp [sysfs, Device.property, List.lookup_cons],
    by simp [sysfs, Device.property, List.lookup_cons], by simp [sysfs], short, path⟩

section Bindings
variable {fnmatch : String → String → Bool} {dev : Device} {u : Usb}

theorem matches_iff_binds (exact : ∀ p s, Plain p → fnmatch p s = decide (p = s))
    (shows : Shows dev u) (binding : UsbBinding) :
    ((matchAttributes binding).all fun p => (dev.attribute p.1).any (fnmatch p.2)) =
      Binds fnmatch binding u := by
  cases binding with
  | byId vendor product =>
    have plain (n : UInt16) : Plain (showHex n) := plain_of_digits (by omega) (by omega)
    simp [matchAttributes, Binds, shows.idVendor, shows.idProduct, exact _ _ (plain _),
      showHex_injective.eq_iff]
  | byPort bus port =>
    have plain : Plain (showDecimal bus.toNat) := plain_of_digits (by omega) (by omega)
    simp [matchAttributes, Binds, shows.busnum, shows.devpath, exact _ _ plain,
      showDecimal_injective.eq_iff, UInt16.toNat_inj]

theorem fromUdevDevice_shown (shows : Shows dev u) : fromUdevDevice dev = some
    { binding := .idAndPort u.vendor u.product u.bus u.devpath
      names := (dev.property "ID_VENDOR_FROM_DATABASE").map fun name =>
        (name, dev.property "ID_MODEL_FROM_DATABASE") } := by
  have busnum : fromStrRadix 10 (2 ^ 16) (showDecimal u.bus.toNat).toList = some u.bus.toNat := by
    rw [showDecimal, String.toList_ofList]
    exact fromStrRadix_padded 0 (by omega) (by omega) u.bus.toNat_lt
  rw [fromUdevDevice, shows.vendorId, Option.bind_some, parseHex_showHex, Option.bind_some,
    shows.modelId, Option.bind_some, parseHex_showHex, Option.bind_some, shows.busnum,
    Option.bind_some, busnum, Option.bind_some, shows.devpath, Option.map_some, UInt16.ofNat_toNat]

end Bindings

section Result
variable {fnmatch : String → String → Bool} {tree : List Device} {describe : Device → Usb}

theorem scanDevices_eq (exact : ∀ p s, Plain p → fnmatch p s = decide (p = s))
    (shown : ∀ dev ∈ usbDevices tree, Shows dev (describe dev)) (binding : UsbBinding) :
    scanDevices fnmatch tree binding =
      (usbDevices tree).filter fun dev => Binds fnmatch binding (describe dev) := by
  rw [scanDevices, usbDevices, List.filter_filter]
  refine List.filter_congr fun dev member => ?_
  cases usb : isUsbDevice dev with
  | false => simp
  | true =>
    have shows := shown dev (List.mem_filter.mpr ⟨member, usb⟩)
    rw [matches_iff_binds exact shows, Bool.true_and, Bool.and_true]

theorem udevResolveBinding_eq (exact : ∀ p s, Plain p → fnmatch p s = decide (p = s))
    (shown : ∀ dev ∈ usbDevices tree, Shows dev (describe dev)) (binding : UsbBinding) :
    udevResolveBinding fnmatch tree binding =
      some (((usbDevices tree).find? fun dev => Binds fnmatch binding (describe dev)).map fun dev =>
        (describe dev).address) := by
  have scanned := scanDevices_eq exact shown binding
  have first : (scanDevices fnmatch tree binding).head? =
      (usbDevices tree).find? fun dev => Binds fnmatch binding (describe dev) := by
    rw [scanned, List.head?_filter]
  rw [udevResolveBinding, ← first]
  cases found : scanDevices fnmatch tree binding with
  | nil => rfl
  | cons dev rest =>
    have member : dev ∈ usbDevices tree := by
      have inside : dev ∈ scanDevices fnmatch tree binding := by simp [found]
      rw [scanned] at inside
      exact List.mem_of_mem_filter inside
    simp [readAddress_shown (shown dev member), Usb.address]

/-- A device as the configuration names it after it was listed. -/
def Found (fnmatch : String → String → Bool) (tree : List Device) (describe : Device → Usb)
    (dev : Device) : Prop :=
  ∃ listed byId byPort, fromUdevDevice dev = some listed ∧ listed.byId = some byId ∧
    listed.byPort = some byPort ∧ dev ∈ scanDevices fnmatch tree byId ∧
    dev ∈ scanDevices fnmatch tree byPort ∧
    ((∀ other ∈ usbDevices tree, (describe other).bus = (describe dev).bus →
        (describe other).devpath = (describe dev).devpath → other = dev) →
      udevResolveBinding fnmatch tree byPort = some (some (describe dev).address))

theorem found_of_shown (exact : ∀ p s, Plain p → fnmatch p s = decide (p = s))
    (shown : ∀ dev ∈ usbDevices tree, Shows dev (describe dev)) {dev : Device}
    (member : dev ∈ usbDevices tree) : Found fnmatch tree describe dev := by
  have shows := shown dev member
  have same_port : fnmatch (describe dev).devpath (describe dev).devpath = true := by
    rw [exact _ _ shows.path]
    simp
  refine ⟨_, _, _, fromUdevDevice_shown shows, rfl, rfl, ?_, ?_, ?_⟩
  · rw [scanDevices_eq exact shown, List.mem_filter]
    exact ⟨member, by simp [Binds]⟩
  · rw [scanDevices_eq exact shown, List.mem_filter]
    exact ⟨member, by simp [Binds, same_port]⟩
  · intro alone
    rw [udevResolveBinding_eq exact shown]
    cases first : (usbDevices tree).find? fun other =>
      Binds fnmatch (.byPort (describe dev).bus (describe dev).devpath) (describe other) with
    | none =>
      have unbound := List.find?_eq_none.mp first dev member
      simp [Binds, same_port] at unbound
    | some other =>
      have binds := List.find?_some first
      simp only [Binds, exact _ _ shows.path, Bool.and_eq_true, decide_eq_true_eq] at binds
      obtain rfl := alone other (List.mem_of_find?_eq_some first) binds.1.symm binds.2.symm
      rfl

/-- The bindings of the configuration, the light entry and the full entry mean the same devices. -/
structure Agrees (fnmatch : String → String → Bool) (tree : List Device)
    (describe : Device → Usb) : Prop where
  resolves : ∀ binding, udevResolveBinding fnmatch tree binding =
    some (((usbDevices tree).find? fun dev => Binds fnmatch binding (describe dev)).map fun dev =>
      (describe dev).address)
  found : ∀ dev ∈ usbDevices tree, Found fnmatch tree describe dev
  entries : ∀ (opens pathExists : String → Bool) (rustLog : Option String)
    (machine : MachineConfig) (handles : List String),
    ∀ h ∈ hotplugs (env fnmatch tree opens pathExists rustLog).udev machine.usbDevices,
      ∃ config ∈ machine.usbDevices, config.permanent = false ∧ ∃ dev ∈ usbDevices tree,
        Binds fnmatch config.binding (describe dev) = true ∧
        (h.hostbus, h.hostaddr) = (describe dev).address ∧
        ∀ node ∈ dev.libinputNodes, opens node = true →
          node ∈ Input.opened (env fnmatch tree opens pathExists rustLog) ⟨machine, handles⟩

theorem hotplug_of_mem {udev : Udev} {devs : List UsbDevice} {h : Hotplug}
    (member : h ∈ hotplugs udev devs) : ∃ config ∈ devs, config.permanent = false ∧
      udev config.binding = some (h.hostbus, h.hostaddr) := by
  obtain ⟨⟨port, i, config⟩, slot, made⟩ := List.mem_filterMap.mp member
  obtain ⟨address, resolved, rfl⟩ := Option.map_eq_some_iff.mp made
  obtain ⟨placed, hot⟩ := mem_hotplugSlots slot
  refine ⟨config, ?_, hot, resolved⟩
  exact List.mem_of_mem_filter (List.mem_of_getElem? placed)

/-- Each binding resolves to the first device that it is meant for, a device that was listed is found
    again by its id and by its port, and light and full entry agree on the devices. -/
theorem bindings_agree (exact : ∀ p s, Plain p → fnmatch p s = decide (p = s))
    (shown : ∀ dev ∈ usbDevices tree, Shows dev (describe dev)) : Agrees fnmatch tree describe := by
  refine ⟨udevResolveBinding_eq exact shown, fun _ => found_of_shown exact shown, ?_⟩
  intro opens pathExists rustLog machine handles h member
  obtain ⟨config, configured, hot, resolved⟩ := hotplug_of_mem member
  change (udevResolveBinding fnmatch tree config.binding).join = _ at resolved
  rw [udevResolveBinding_eq exact shown, Option.join_some] at resolved
  obtain ⟨dev, first, address⟩ := Option.map_eq_some_iff.mp resolved
  have binds := List.find?_some first
  have listed := List.mem_of_find?_eq_some first
  refine ⟨config, configured, hot, dev, listed, binds, address.symm, ?_⟩
  intro node below opening
  rw [Input.opened, List.mem_flatMap]
  refine ⟨config, List.mem_filter.mpr ⟨configured, by simp [hot]⟩, List.mem_filter.mpr ⟨?_, opening⟩⟩
  rw [env, List.mem_flatMap]
  refine ⟨dev, ?_, below⟩
  rw [scanDevices_eq exact shown, List.mem_filter]
  exact ⟨listed, binds⟩

/-- Two mice of one make, one of them with a second input device, and the hub. -/
theorem bindings_agree_mice :
    let hub : Usb := ⟨0x1d6b, 2, 1, 1, "0"⟩
    let mouse : Usb := ⟨0x046d, 0xc07e, 1, 12, "4.1"⟩
    let spare : Usb := ⟨0x046d, 0xc07e, 3, 5, "2"⟩
    let describe (dev : Device) : Usb :=
      match dev.inputs with
      | [] => hub
      | [_] => mouse
      | _ => spare
    Agrees (fun p s => p = s)
      [sysfs hub [], sysfs mouse [(some "3/46d/c07e", "/dev/input/event4")],
        sysfs spare [(some "3/46d/c07e", "/dev/input/event9"), (none, "/dev/input/event10")]]
      describe := by
  intro hub mouse spare describe
  refine bindings_agree (fun _ _ _ => rfl) ?_
  intro dev member
  have plain : Plain hub.devpath ∧ Plain mouse.devpath ∧ Plain spare.devpath := by decide
  have short : hub.devnum < 2 ^ 64 ∧ mouse.devnum < 2 ^ 64 ∧ spare.devnum < 2 ^ 64 := by decide
  simp only [usbDevices, List.mem_filter, List.mem_cons, List.not_mem_nil, or_false] at member
  obtain ⟨rfl | rfl | rfl, -⟩ := member
  · exact shows_sysfs [] short.1 plain.1
  · exact shows_sysfs _ short.2.1 plain.2.1
  · exact shows_sysfs _ short.2.2 plain.2.2

end Result
end UsbBindings
