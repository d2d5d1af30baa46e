import Std.Data.String.ToNat
import WindowsGaming.Library.Runs
import WindowsGaming.Library.Toggles
import WindowsGaming.Ownership

/- Which USB devices the virtual machine has been given, read off the commands that were
   sent to the monitor. -/
namespace UsbLedger
open Config Protocol UsbPorts Controller Ownership Toggles

def ledgerEvent : Effect → Option (String × Bool)
  | .monitor (.deviceAdd _ id _ _ _ _) => some (id, true)
  | .monitor (.deviceDel id) => some (id, false)
  | _ => none

def ledger (out : List Effect) : List (String × Bool) := out.filterMap ledgerEvent

def added (i : Nat) (out : List Effect) : Bool := settle false (stream (usbId i) (ledger out))

/-- What the commands sent so far say about the devices that are not permanent. -/
structure Ledger (c : Controller) : Prop where
  named : ∀ e ∈ ledger c.out, ∃ i ∈ hotplugIndices c.machineConfig.usbDevices, e.1 = usbId i
  alternates : ∀ i ∈ hotplugIndices c.machineConfig.usbDevices,
    Alternating false (stream (usbId i) (ledger c.out))
  added_iff : ∀ i ∈ hotplugIndices c.machineConfig.usbDevices,
    added i c.out = true ↔ c.ioState = .fullEntry
  detached : ∀ i ∈ hotplugIndices c.machineConfig.usbDevices, added i c.ioDetach.out = false

/-- A world in which udev finds every configured device. -/
structure FullWorld (devs : List UsbDevice) extends Env where
  finds : ∀ dev ∈ devs, (udev dev.binding).isSome

/-- An upgrade is asked for while the guest agent is down and the virtual machine has
    devices: the controller then awaits an upgrade and forgets the full entry. -/
def strands (c : Controller) (op : Op) : Prop :=
  requestsUpgrade c op = true ∧ c.ga = .down ∧ c.ioState = .fullEntry ∧
    hotplugIndices c.machineConfig.usbDevices ≠ []

def operate (devs : List UsbDevice) (c : Controller) (l : FullWorld devs × Op) :
    Option Controller :=
  some (step l.1.toEnv l.2 c)

theorem usbId_injective : Function.Injective usbId := by
  intro i j same
  exact Nat.repr_injective ((String.append_right_inj "usb").mp same)

def hotplugIds (devs : List UsbDevice) : List String := (hotplugIndices devs).map usbId

theorem hotplugIds_nodup (devs : List UsbDevice) : (hotplugIds devs).Nodup := by
  refine List.Nodup.map usbId_injective ?_
  exact (StableGroups.enumerate_nodup devs).sublist (List.filter_sublist.map _)

theorem filterMap_found {α β : Type} {f : α → Option β} {key : β → Nat} {index : α → Nat}
    (keeps : ∀ a b, f a = some b → key b = index a) (xs : List α)
    (found : ∀ a ∈ xs, (f a).isSome) : (xs.filterMap f).map key = xs.map index := by
  induction xs with
  | nil => rfl
  | cons a xs ih =>
    obtain ⟨b, made⟩ := Option.isSome_iff_exists.mp (found a List.mem_cons_self)
    have rest := ih fun c hc => found c (List.mem_cons_of_mem a hc)
    rw [List.filterMap_cons_some made, List.map_cons, List.map_cons, rest, keeps a b made]

/-- With every device found, full entry plugs in each device that is not permanent once. -/
theorem hotplugs_perm {devs : List UsbDevice} (world : FullWorld devs) :
    ((hotplugs world.udev devs).map Hotplug.index).Perm (hotplugIndices devs) := by
  have slotted := (StableGroups.slots_perm (fun p : Nat × UsbDevice => p.2.bus)
    (StableGroups.enumerate devs)).filter fun p => !p.2.permanent
  rw [List.filter_map] at slotted
  have indices : (hotplugs world.udev devs).map Hotplug.index =
      (hotplugSlots devs).map fun p => p.2.1 := by
    refine filterMap_found ?_ _ ?_
    · intro p h made
      obtain ⟨found, _, rfl⟩ := Option.map_eq_some_iff.mp made
      rfl
    · rintro ⟨port, i, dev⟩ slot
      have member := List.mem_of_getElem? (mem_hotplugSlots slot).1
      have known := world.finds dev (List.mem_filter.mp member).1
      simpa [hotplug] using known
  rw [indices]
  have := slotted.map Prod.fst
  rwa [List.map_map] at this

theorem ledger_append (out more : List Effect) : ledger (out ++ more) = ledger out ++ ledger more :=
  List.filterMap_append

theorem ledger_adds (env : Env) (devs : List UsbDevice) :
    ledger (addEffects env devs) =
      ((hotplugs env.udev devs).map fun h => usbId h.index).map fun id => (id, true) := by
  have events : ∀ h : Hotplug, ledgerEvent (.monitor (deviceAdd h)) = some (usbId h.index, true) :=
    fun _ => rfl
  simp [ledger, addEffects, deviceAdds, List.filterMap_map, Function.comp_def, events]

theorem ledger_dels (devs : List UsbDevice) :
    ledger (delEffects devs) = (hotplugIds devs).map fun id => (id, false) := by
  have events : ∀ i, ledgerEvent (.monitor (.deviceDel (usbId i))) = some (usbId i, false) :=
    fun _ => rfl
  simp [ledger, delEffects, deviceDels, hotplugIds, List.filterMap_map, Function.comp_def, events]

theorem ledgerEvent_unowned {e : Effect} (other : owns e = false) : ledgerEvent e = none := by
  cases e with
  | monitor cmd => cases cmd <;> first | rfl | cases other
  | _ => rfl

theorem ledger_view (c : Controller) : ledger (view c).log = ledger c.out := by
  have owned : ∀ e, (if owns e then ledgerEvent e else none) = ledgerEvent e := by
    intro e
    split
    · rfl
    · rename_i other
      exact (ledgerEvent_unowned (Bool.eq_false_of_not_eq_true other)).symm
  simp only [view, ledger, List.filterMap_filter, owned]

def Settled (devs : List UsbDevice) (h : Holder) : Prop :=
  Together (hotplugIds devs) (decide (h.state = .fullEntry)) (ledger h.log)

section Moves
variable {devs : List UsbDevice} {h : Holder}

theorem settled_quiet {g : Holder} (settled : Settled devs h) (log : ledger g.log = ledger h.log)
    (state : g.state = .fullEntry ↔ h.state = .fullEntry) : Settled devs g := by
  unfold Settled at settled ⊢
  rw [log, decide_eq_decide.mpr state]
  exact settled

theorem settled_detach (settled : Settled devs h) : Settled devs (h.detach devs) := by
  unfold Holder.detach
  split
  · exact settled
  · rename_i full
    have thrown := together_throw settled (hotplugIds_nodup devs) (List.Perm.refl _)
    simpa [Settled, Holder.record, ledger_append, ledger_dels, full] using thrown
  · rename_i notDetached notFull
    refine settled_quiet settled ?_ ?_
    · simp [Holder.release, Holder.record, ledger, ledgerEvent]
    · simpa [Holder.record] using notFull

theorem settled_add (world : FullWorld devs) (settled : Settled devs h)
    (notFull : h.state ≠ .fullEntry) (before : List Effect) (quiet : ledger before = [])
    (input : Input) :
    Settled devs ⟨.fullEntry, input, h.log ++ (before ++ addEffects world.toEnv devs)⟩ := by
  have all := (hotplugs_perm world).map usbId
  rw [List.map_map] at all
  have thrown := together_throw settled (hotplugIds_nodup devs) all
  simpa [Settled, ledger_append, ledger_adds, quiet, notFull, Function.comp_def] using thrown

theorem settled_force (world : FullWorld devs) (settled : Settled devs h) :
    Settled devs (h.force world.toEnv devs) := by
  unfold Holder.force
  split
  · exact settled
  · rename_i detached
    exact settled_add world settled (by simp [detached]) [] rfl _
  · rename_i sender temporary
    have added := settled_add world settled (by simp [temporary])
      [.suspendInput h.input.deviceHandles] rfl h.input.suspend
    simpa [Holder.release, Holder.record] using added
  · rename_i notFull _ _
    have added := settled_add world settled notFull
      [.suspendInput h.input.deviceHandles, .monitor .releaseAllKeys] rfl
      h.input.suspend
    simpa [Holder.release, Holder.record] using added

theorem settled_light (env : Env) (settled : Settled devs h) : Settled devs (h.light env) := by
  unfold Holder.light
  split
  · rename_i detached
    refine settled_quiet settled ?_ ?_
    · simp [Holder.record, ledger, ledgerEvent]
    · simp [Holder.record, detached]
  · rename_i awaiting
    exact settled_quiet settled rfl (by simp [awaiting])
  · exact settled

theorem light_state_full (env : Env) : (h.light env).state = .fullEntry ↔ h.state = .fullEntry := by
  unfold Holder.light
  split <;> simp_all [Holder.record]

/-- Leaving full entry without a command is harmless only where there is no device. -/
theorem settled_await (env : Env) (settled : Settled devs h)
    (harmless : h.state = .fullEntry → hotplugIndices devs = []) :
    Settled devs (h.light env).await := by
  have lit := settled_light env settled
  by_cases full : h.state = .fullEntry
  · have none : hotplugIds devs = [] := by simp [hotplugIds, harmless full]
    unfold Settled at lit ⊢
    rw [none] at lit ⊢
    exact together_no_switches lit
  · refine settled_quiet lit rfl ?_
    have lightNot : ¬ (h.light env).state = .fullEntry := fun lf => full ((light_state_full env).mp lf)
    simp [Holder.await, lightNot]

theorem settled_grant (env : Env) (sender : Nat) (settled : Settled devs h)
    (idle : h.state = .detached) : Settled devs ((h.light env).grant sender) := by
  refine settled_quiet (settled_light env settled) rfl ?_
  have lightNot : ¬ (h.light env).state = .fullEntry := by
    rw [light_state_full, idle]
    simp
  simp [Holder.grant, lightNot]

end Moves

theorem settled_step {c : Controller} (world : FullWorld c.machineConfig.usbDevices) (op : Op)
    (settled : Settled c.machineConfig.usbDevices (view c)) (ok : ¬ strands c op) :
    Settled c.machineConfig.usbDevices (view (step world.toEnv op c)) := by
  have moved := step_move world.toEnv op c
  generalize view (step world.toEnv op c) = next at moved ⊢
  cases moved with
  | stay => exact settled
  | detach => exact settled_detach settled
  | force asked => exact settled_force world settled
  | light => exact settled_light _ settled
  | await asked down =>
    refine settled_await _ settled ?_
    intro full
    by_contra some
    exact ok ⟨asked, down, full, some⟩
  | grant sender x y asked idle => exact settled_grant _ sender settled idle

theorem ledger_of_settled {c : Controller} (settled : Settled c.machineConfig.usbDevices (view c)) :
    Ledger c := by
  have after := settled_detach settled
  rw [← view_ioDetach] at after
  unfold Settled at settled after
  rw [ledger_view] at settled after
  constructor
  · intro e he
    obtain ⟨i, hi, same⟩ := List.mem_map.mp (settled.known e he)
    exact ⟨i, hi, same.symm⟩
  · intro i hi
    exact settled.alternates (usbId i) (List.mem_map_of_mem hi)
  · intro i hi
    have position := settled.position (usbId i) (List.mem_map_of_mem hi)
    rw [added, position, decide_eq_true_eq]
    rfl
  · intro i hi
    have position := after.position (usbId i) (List.mem_map_of_mem hi)
    rw [added, position]
    rfl

theorem step_strands {c : Controller} (env : Env) {op : Op} (stranded : strands c op) :
    step env op c = { c with ioState := .awaitingUpgrade } := by
  obtain ⟨asked, down, full, _⟩ := stranded
  have forgets : c.ioAttach env = { c with ioState := .awaitingUpgrade } := by
    simp [ioAttach, lightAttach, down, full]
  unfold requestsUpgrade at asked
  split at asked
  · exact forgets
  · rename_i index
    obtain ⟨configured, _⟩ := hotkeyAction_eq_some (of_decide_eq_true asked)
    simp only [step, gaHotkey, configured, full]
    exact forgets
  · cases asked

theorem initially_settled (machine : MachineConfig) (hooks : HooksConfig) (input : Input) :
    Settled machine.usbDevices (view (new machine hooks input)) :=
  together_nil _

/-- The ledger is right along a run exactly when no step of it strands the devices. -/
theorem usb_ledger_iff (machine : MachineConfig) (hooks : HooksConfig) (input : Input)
    (ls : List (FullWorld machine.usbDevices × Op)) :
    Runs.Always (operate machine.usbDevices) Ledger (new machine hooks input) ls ↔
      Runs.Meets (operate machine.usbDevices) (fun c l => ¬ strands c l.2)
        (new machine hooks input) ls := by
  refine Runs.always_iff_meets
    (fun c => c.machineConfig = machine ∧ Settled machine.usbDevices (view c))
    ?_ ?_ ?_ ⟨rfl, initially_settled machine hooks input⟩ ls
  · rintro c ⟨world, op⟩ d ⟨rfl, settled⟩ ok taken
    cases taken
    exact ⟨step_machineConfig _ op c, settled_step world op settled ok⟩
  · rintro c ⟨rfl, settled⟩
    exact ledger_of_settled settled
  · rintro c ⟨world, op⟩ d ⟨rfl, settled⟩ taken right stranded
    cases taken
    have before := ledger_of_settled settled
    rw [step_strands world.toEnv stranded] at right
    obtain ⟨_, _, full, some⟩ := stranded
    obtain ⟨i, hi⟩ := List.exists_mem_of_ne_nil _ some
    have awaits := (right.added_iff i hi).mp ((before.added_iff i hi).mpr full)
    cases awaits

def keyboardWorld : FullWorld MachineConfig.keyboard.usbDevices :=
  { Env.keyboard with finds := fun _ _ => rfl }

/-- After a forced entry and a request for an upgrade, `io_detach` leaves the keyboard in. -/
theorem keyboard_stranded :
    ¬ Runs.Always (operate MachineConfig.keyboard.usbDevices) Ledger
      (new .keyboard .bare (Input.new .keyboard))
      [(keyboardWorld, .ioForceAttach), (keyboardWorld, .ioAttach)] := by
  intro always
  have right := Runs.always_last always rfl
  have out := right.detached 0 (by decide)
  revert out
  decide +kernel

end UsbLedger
