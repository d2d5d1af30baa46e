import Mathlib.Algebra.Order.Ring.Nat
import Mathlib.Data.Finset.Dedup
import Mathlib.Data.List.Perm.Basic
import WindowsGaming.Clientpipe
import WindowsGaming.HotKeyManager

/- The hotkeys on their way through the guest: the driver has them registered, Windows posts a
   message for each press, a task for each hotkey reports it, and the driver acts on it. -/
namespace GuestHotkeys
open Config (MachineConfig HooksConfig HotKey)
open Hotkeys Protocol Controller Clientpipe HotKeyManager

structure Combination where
  modifiers : Finset Modifier
  key : UInt32
  deriving DecidableEq

structure Request where
  id : UInt32
  modifiers : UInt32
  key : UInt32
  deriving DecidableEq, Repr

def modifiersOf (flags : UInt32) : Finset Modifier :=
  ([.alt, .ctrl, .shift, .win].filter fun m => flags &&& m.toU32 ≠ 0).toFinset

def Request.combination (r : Request) : Combination := ⟨modifiersOf r.modifiers, r.key⟩

def combinationOf (b : KeyBinding) : Combination := ⟨b.modifiers.toFinset, b.key.toU32⟩

def bound (machine : MachineConfig) (id : UInt32) : Option Combination :=
  machine.hotkeys[id.toNat]?.map fun hotkey => combinationOf hotkey.key

/-- The guest agent's hotkeys, with what Windows and the agent's tasks hold for them. -/
structure Guest where
  manager : Manager
  asked : List Request
  posted : List UInt16
  /-- The receivers with presses that their tasks have not reported, each as often as it has any. -/
  presses : List Nat

def Guest.new : Guest := ⟨HotKeyManager.new, [], [], []⟩

def Guest.register (id : UInt16) (r : Request) (g : Guest) : Option Guest :=
  (managerStep g.manager (.registerHotkey id)).map fun manager =>
    { g with manager, asked := g.asked ++ [r] }

def Guest.callback (registers : Bool) (g : Guest) : Option Guest :=
  (managerStep g.manager (.callback registers)).map fun manager => { g with manager }

/-- What is pressed is what a registered hotkey was asked for. -/
def Guest.press (receiver : Nat) (g : Guest) : Option (Guest × Combination) :=
  match g.manager.registrations[receiver]?, g.asked[receiver]? with
  | some id, some request =>
    if id ∈ g.manager.registered then
      some ({ g with posted := g.posted ++ [id] }, request.combination)
    else none
  | _, _ => none

def Guest.wmHotkey (g : Guest) : Option Guest :=
  match g.posted with
  | [] => none
  | id :: posted =>
    (managerStep g.manager (.wmHotkey id)).map fun manager =>
      { g with
        posted
        manager
        presses := g.presses ++ manager.received.drop g.manager.received.length }

def Guest.reportedAs (g : Guest) (receiver : Nat) : Option UInt32 :=
  g.asked[receiver]?.map Request.id

def Guest.report (receiver : Nat) (g : Guest) : Option (Guest × UInt32) :=
  if receiver ∈ g.presses then
    (g.reportedAs receiver).map fun id => ({ g with presses := g.presses.erase receiver }, id)
  else none

def Guest.postedFor (g : Guest) (id : UInt16) : Option UInt32 :=
  (g.manager.queues.lookup id).bind g.reportedAs

def Guest.underway (g : Guest) : List UInt32 :=
  g.posted.filterMap g.postedFor ++ g.presses.filterMap g.reportedAs

structure System where
  controller : Controller
  toGuest : List GaCmdOut
  toDriver : List GaCmdIn
  guest : Guest
  pressed : List Combination
  /-- The hotkeys for which the driver was told of a press, and those whose press was lost. -/
  handled : List UInt32
  lost : List UInt32

def start (machine : MachineConfig) (hooks : HooksConfig) : System :=
  { controller := Controller.new machine hooks (Input.new machine)
    toGuest := []
    toDriver := [.reportBoot]
    guest := .new
    pressed := []
    handled := []
    lost := [] }

inductive Label where
  | call (env : Env) (op : Op)
  | driverReceives (env : Env)
  /-- `GlobalAddAtomW` returns the id if it is asked. -/
  | guestReceives (id : UInt16)
  | callback (registers : Bool)
  | press (receiver : Nat)
  | wmHotkey
  | report (receiver : Nat)
  | tell (cmd : GaCmdIn)
  /-- A new guest agent connects; some of what was sent either way does not arrive any more. -/
  | restart (kept unread : Nat)

def hotKeyOf : GaCmdIn → Option UInt32
  | .hotKey id => some id
  | _ => none

def reports (cmds : List GaCmdIn) : List UInt32 := cmds.filterMap hotKeyOf

def System.handOn (s : System) : System :=
  { s with
    controller := { s.controller with out := [] }
    toGuest := s.toGuest ++ s.controller.out.filterMap toClientpipe }

def System.driverReceives (env : Env) (s : System) : Option System :=
  match s.toDriver with
  | [] => none
  | cmd :: toDriver =>
    some { s with
      controller := (handle env cmd s.controller).1
      toDriver
      handled := s.handled ++ reports [cmd] }.handOn

def System.guestReceives (id : UInt16) (s : System) : Option System :=
  match s.toGuest with
  | [] => none
  | .registerHotKey hotkey modifiers key :: toGuest =>
    (s.guest.register id ⟨hotkey, modifiers, key⟩).map fun guest => { s with toGuest, guest }
  | _ :: toGuest => some { s with toGuest }

def System.restart (kept unread : Nat) (s : System) : System :=
  { s with
    toGuest := s.toGuest.drop unread
    toDriver := s.toDriver.take kept ++ [.reportBoot]
    guest := .new
    lost := s.lost ++ (s.guest.underway ++ reports (s.toDriver.drop kept)) }

def step (s : System) : Label → Option System
  | .call env op => some { s with controller := Controller.step env op s.controller }.handOn
  | .driverReceives env => s.driverReceives env
  | .guestReceives id => s.guestReceives id
  | .callback registers => (s.guest.callback registers).map fun guest => { s with guest }
  | .press receiver =>
    (s.guest.press receiver).map fun (guest, combination) =>
      { s with guest, pressed := s.pressed ++ [combination] }
  | .wmHotkey => s.guest.wmHotkey.map fun guest => { s with guest }
  | .report receiver =>
    (s.guest.report receiver).map fun (guest, id) =>
      { s with guest, toDriver := s.toDriver ++ [.hotKey id] }
  | .tell cmd => if hotKeyOf cmd = none then some { s with toDriver := s.toDriver ++ [cmd] } else none
  | .restart kept unread => some (s.restart kept unread)

def isOwn : Label → Bool
  | .driverReceives _ | .wmHotkey | .report _ => true
  | _ => false

def Guest.work (g : Guest) : Nat := 3 * g.posted.length + 2 * g.presses.length

def System.work (s : System) : Nat := s.guest.work + s.toDriver.length

def System.accounted (s : System) : List UInt32 :=
  s.handled ++ s.lost ++ (s.guest.underway ++ reports s.toDriver)

/-- Every press is accounted for by one hotkey with its combination and no other is, and what is
    underway is soon handled. -/
structure Answered (machine : MachineConfig) (s : System) : Prop where
  sound : s.guest.manager.panicked = false
  balance : (s.pressed.map some).Perm (s.accounted.map (bound machine))
  settles : Runs.ComesToRest step (fun l => isOwn l = true) s.work
    (fun t => t.lost = s.lost ∧
      (s.pressed.map some).Perm ((t.handled ++ t.lost).map (bound machine))) s

section Flags
variable {m x : Modifier} {flags : UInt32}

theorem mem_modifiersOf : m ∈ modifiersOf flags ↔ flags &&& m.toU32 ≠ 0 := by
  simp only [modifiersOf, List.mem_toFinset, List.mem_filter, decide_eq_true_eq]
  refine ⟨fun h => h.2, fun set => ⟨?_, set⟩⟩
  cases m <;> simp

theorem flag_and_ne_zero : x.toU32 &&& m.toU32 ≠ 0 ↔ m = x := by
  cases x <;> cases m <;> decide

theorem mem_modifiersOf_or :
    m ∈ modifiersOf (flags ||| x.toU32) ↔ m ∈ modifiersOf flags ∨ m = x := by
  have split : (flags ||| x.toU32) &&& m.toU32 = flags &&& m.toU32 ||| x.toU32 &&& m.toU32 := by
    rw [← UInt32.toBitVec_inj]
    exact BitVec.and_or_distrib_right
  rw [mem_modifiersOf, mem_modifiersOf, split, ← flag_and_ne_zero, ne_eq, UInt32.or_eq_zero_iff,
    not_and_or]

theorem mem_modifiersOf_noRepeat (noRepeat : Bool) :
    m ∉ modifiersOf (if noRepeat then Hotkeys.noRepeat else 0) := by
  rw [mem_modifiersOf]
  cases noRepeat <;> cases m <;> decide

theorem mem_modifiersOf_foldl (ms : List Modifier) (flags : UInt32) :
    m ∈ modifiersOf (ms.foldl (fun sum x => sum ||| x.toU32) flags) ↔
      m ∈ modifiersOf flags ∨ m ∈ ms := by
  induction ms generalizing flags with
  | nil => simp
  | cons x ms ih => rw [List.foldl_cons, ih, mem_modifiersOf_or, List.mem_cons, or_assoc]

theorem combination_toWindows {id modifiers key : UInt32} {b : KeyBinding}
    (sent : b.toWindows = (modifiers, key)) :
    (Request.mk id modifiers key).combination = combinationOf b := by
  obtain ⟨flags, code⟩ := Prod.mk.inj sent
  have same : modifiersOf modifiers = b.modifiers.toFinset := by
    ext m
    rw [← flags, mem_modifiersOf_foldl, List.mem_toFinset]
    simp [mem_modifiersOf_noRepeat]
  simp only [Request.combination, combinationOf, same, ← code]

end Flags

def Configured (machine : MachineConfig) (r : Request) : Prop :=
  ∃ hotkey, machine.hotkeys[r.id.toNat]? = some hotkey ∧
    hotkey.key.toWindows = (r.modifiers, r.key)

theorem bound_of_configured {machine : MachineConfig} {r : Request}
    (configured : Configured machine r) : bound machine r.id = some r.combination := by
  obtain ⟨hotkey, listed, sent⟩ := configured
  rw [bound, listed, Option.map_some, ← combination_toWindows sent]

def registers (machine : MachineConfig) : Effect → Prop
  | .clientpipe (.registerHotKey id modifiers key) => Configured machine ⟨id, modifiers, key⟩
  | _ => True

def Grows (machine : MachineConfig) (c d : Controller) : Prop :=
  ∃ more, d.out = c.out ++ more ∧ ∀ e ∈ more, registers machine e

section Growing
variable {machine : MachineConfig} {b c d : Controller} {es : List Effect}

theorem grows_refl (c : Controller) : Grows machine c c := ⟨[], by simp⟩

theorem grows_trans (first : Grows machine b c) (second : Grows machine c d) :
    Grows machine b d := by
  obtain ⟨es, grown, plain⟩ := first
  obtain ⟨fs, grew, also⟩ := second
  refine ⟨es ++ fs, by rw [grew, grown, List.append_assoc], ?_⟩
  exact List.forall_mem_append.mpr ⟨plain, also⟩

theorem grows_emitAll (c : Controller) (plain : ∀ e ∈ es, registers machine e) :
    Grows machine c (c.emitAll es) := ⟨es, rfl, plain⟩

theorem grows_emit (c : Controller) {e : Effect} (plain : registers machine e) :
    Grows machine c (c.emit e) := grows_emitAll c (by simpa using plain)

theorem grows_map {α : Type} (c : Controller) (f : α → Effect) (xs : List α)
    (plain : ∀ x, registers machine (f x)) : Grows machine c (c.emitAll (xs.map f)) := by
  refine grows_emitAll c fun e member => ?_
  obtain ⟨x, _, rfl⟩ := List.mem_map.mp member
  exact plain x

theorem grows_runHook (c : Controller) (hook : Option String) : Grows machine c (c.runHook hook) :=
  grows_map c _ _ fun _ => trivial

theorem grows_prepareEntry (c : Controller) : Grows machine c c.prepareEntry :=
  grows_trans (grows_emit c (e := .clientpipe .releaseModifiers) trivial) (grows_runHook _ _)

theorem grows_suspendInput (c : Controller) : Grows machine c c.suspendInput :=
  ⟨_, rfl, by simp [registers]⟩

theorem grows_releasing (c : Controller) :
    Grows machine c (c.suspendInput.toMonitor .releaseAllKeys) :=
  grows_trans (grows_suspendInput c) (grows_emit _ trivial)

theorem grows_ioDetach (c : Controller) : Grows machine c c.ioDetach := by
  unfold ioDetach
  refine grows_trans ?_ (grows_runHook _ _)
  cases c.ioState with
  | detached => exact grows_refl c
  | fullEntry => exact grows_map c _ _ fun _ => trivial
  | _ => exact grows_releasing c

theorem grows_enterFull (env : Env) (c : Controller) : Grows machine c (c.enterFull env) :=
  grows_trans (grows_prepareEntry c)
    (grows_map c.prepareEntry .monitor (deviceAdds env c.machineConfig.usbDevices) fun _ => trivial)

theorem grows_ioForceAttach (env : Env) (c : Controller) :
    Grows machine c (c.ioForceAttach env) := by
  unfold ioForceAttach
  cases c.ioState with
  | detached => exact grows_enterFull env c
  | fullEntry => exact grows_refl c
  | temporaryLightEntry sender =>
    have parted : Grows machine c.suspendInput
        (c.suspendInput.emit (.temporary sender .temporaryLightDetached)) := grows_emit _ trivial
    exact grows_trans (grows_suspendInput c) (grows_trans parted (grows_enterFull env _))
  | _ => exact grows_trans (grows_releasing c) (grows_enterFull env _)

theorem grows_lightAttach (env : Env) (c : Controller) : Grows machine c (c.lightAttach env) := by
  unfold lightAttach
  cases c.ga with
  | suspending => exact grows_refl c
  | suspended => exact grows_emit c trivial
  | _ =>
    cases c.ioState with
    | detached => exact grows_trans (grows_prepareEntry c) ⟨_, rfl, by simp [registers]⟩
    | _ => exact grows_refl c

theorem grows_ioAttach (env : Env) (c : Controller) : Grows machine c (c.ioAttach env) := by
  have lit : Grows machine c (c.lightAttach env) := grows_lightAttach env c
  unfold ioAttach
  cases c.ga with
  | down => exact lit
  | suspended => exact grows_emit c trivial
  | up | pinging => exact grows_ioForceAttach env c
  | _ => exact grows_refl c

theorem grows_temporaryExit (c : Controller) : Grows machine c c.temporaryExit := by
  unfold Controller.temporaryExit
  split
  · exact grows_ioDetach c
  · exact grows_refl c

theorem grows_gaPing (c : Controller) : Grows machine c c.gaPing.1 := by
  unfold gaPing
  split
  · unfold pingTimeout
    split
    · exact grows_ioDetach _
    · exact grows_temporaryExit _
    · exact grows_refl c
  · exact grows_emit c trivial
  · exact grows_refl c

theorem registers_registerHotKeys (few : machine.hotkeys.length ≤ 2 ^ 32) :
    ∀ cmd ∈ registerHotKeys machine.hotkeys, registers machine (.clientpipe cmd) := by
  intro cmd member
  obtain ⟨⟨i, hotkey⟩, listed, rfl⟩ := List.mem_map.mp member
  have at_i : machine.hotkeys[i]? = some hotkey := StableGroups.mem_enumerate.mp listed
  obtain ⟨inside, _⟩ := List.getElem?_eq_some_iff.mp at_i
  have number : (UInt32.ofNat i).toNat = i :=
    UInt32.toNat_ofNat_of_lt' (Nat.lt_of_lt_of_le inside few)
  exact ⟨hotkey, by rw [number, at_i], rfl⟩

theorem grows_greet (few : machine.hotkeys.length ≤ 2 ^ 32) (own : c.machineConfig = machine)
    (env : Env) : Grows machine c (c.greet env) := by
  refine ⟨helloEffects env c.machineConfig, rfl, ?_⟩
  intro e member
  simp only [helloEffects, List.cons_append, List.mem_cons, List.mem_append, List.mem_map, own]
    at member
  rcases member with rfl | ⟨rl, _, rfl⟩ | ⟨cmd, asked, rfl⟩
  · trivial
  · trivial
  · exact registers_registerHotKeys few cmd asked

theorem grows_gaHello (few : machine.hotkeys.length ≤ 2 ^ 32) (own : c.machineConfig = machine)
    (env : Env) : Grows machine c (c.gaHello env).1 := by
  have upgraded : Grows machine c ((c.greet env).upgradeAwaited env) := by
    refine grows_trans (grows_greet few own env) ?_
    unfold upgradeAwaited
    cases (c.greet env).ioState with
    | awaitingUpgrade => exact grows_ioAttach env _
    | _ => exact grows_refl _
  unfold gaHello
  cases c.ga with
  | resuming full =>
    cases full with
    | false => exact grows_trans upgraded (grows_lightAttach env _)
    | true => exact grows_trans upgraded (grows_ioForceAttach env _)
  | _ => exact upgraded

theorem grows_gaHotkey (env : Env) (index : UInt32) (c : Controller) :
    Grows machine c (c.gaHotkey env index) := by
  unfold gaHotkey
  split
  · exact grows_refl c
  · split
    · exact grows_refl c
    · split
      · exact grows_ioAttach env c
      · exact grows_ioForceAttach env c
      · exact grows_ioDetach c
  · exact grows_emit c trivial

theorem grows_temporaryEntry (env : Env) (sender : Nat) (x y : Int32) (c : Controller) :
    Grows machine c (c.temporaryEntry env sender x y).1 := by
  have entered : Grows machine c ((c.writeGa (.setMousePosition ⟨x, y⟩)).lightAttach env) :=
    grows_trans (grows_emit c (e := .clientpipe (.setMousePosition ⟨x, y⟩)) trivial)
      (grows_lightAttach env _)
  unfold temporaryEntry
  cases c.ga with
  | up | pinging =>
    cases c.ioState with
    | detached => exact entered
    | _ => exact grows_refl c
  | _ => exact grows_refl c

theorem grows_queueForDisks (command : Nat → String → Nat → QmpCommand)
    (disks : List (Nat × String)) (ack : Nat) (c : Controller) :
    Grows machine c (c.queueForDisks command disks ack) := by
  refine ⟨_, rfl, ?_⟩
  intro e member
  rcases List.mem_append.mp member with cmd | task
  · obtain ⟨p, _, rfl⟩ := List.mem_map.mp cmd
    trivial
  · rw [List.mem_singleton.mp task]
    trivial

/-- Whatever the controller does, the hotkeys that it has registered are the configured ones. -/
theorem grows_step (few : machine.hotkeys.length ≤ 2 ^ 32) (own : c.machineConfig = machine)
    (env : Env) (op : Op) : Grows machine c (Controller.step env op c) := by
  cases op with
  | gaPing => exact grows_gaPing c
  | gaPong =>
    simp only [Controller.step, gaPong]
    split <;> exact grows_refl c
  | gaHello => exact grows_gaHello few own env
  | gaSuspending => exact grows_ioDetach c
  | qemuSuspended => exact grows_map _ _ _ fun _ => trivial
  | gaHotkey index => exact grows_gaHotkey env index c
  | ioAttach => exact grows_ioAttach env c
  | tryAttach =>
    simp only [Controller.step, tryAttach]
    split
    · exact grows_ioForceAttach env c
    · exact grows_ioForceAttach env c
    · exact grows_refl c
  | temporaryEntry sender x y => exact grows_temporaryEntry env sender x y c
  | temporaryExit => exact grows_temporaryExit c
  | lightAttach => exact grows_lightAttach env c
  | ioForceAttach => exact grows_ioForceAttach env c
  | suspend =>
    simp only [Controller.step, Controller.suspend]
    split
    · exact grows_refl c
    · split
      · exact ⟨_, rfl, by simp [registers]⟩
      · exact ⟨[], by simp⟩
  | ioDetach => exact grows_ioDetach c
  | shutdown =>
    simp only [Controller.step, Controller.shutdown]
    split <;> exact grows_emit c trivial
  | respondX11Clipboard buf =>
    simp only [Controller.step, respondX11Clipboard]
    split
    · exact ⟨_, rfl, by simp [registers]⟩
    · exact grows_refl c
  | mouseEdged x y =>
    simp only [Controller.step, mouseEdged]
    split
    · exact grows_emit c trivial
    · exact grows_refl c
  | enterBackupMode ack => exact grows_queueForDisks .takeSnapshot _ ack c
  | leaveBackupMode ack => exact grows_queueForDisks .commitSnapshot _ ack c
  | _ => exact ⟨_, rfl, by simp [registers]⟩

end Growing

structure Guest.Good (machine : MachineConfig) (g : Guest) : Prop where
  kept : Kept g.manager
  listening : g.manager.dropped = []
  asked : g.asked.length = g.manager.registrations.length
  configured : ∀ r ∈ g.asked, Configured machine r
  posted : ∀ id ∈ g.posted, id ∈ g.manager.queues
  presses : ∀ receiver ∈ g.presses, receiver < g.asked.length

section Agent
variable {machine : MachineConfig} {g h : Guest} {id : UInt16} {receiver : Nat}

theorem good_new : Guest.new.Good machine :=
  ⟨by constructor <;> simp [Guest.new, HotKeyManager.new], rfl, rfl, by simp [Guest.new],
    by simp [Guest.new], by simp [Guest.new]⟩

theorem reportedAs_of_lt (known : receiver < g.asked.length) :
    ∃ r ∈ g.asked, g.asked[receiver]? = some r ∧ g.reportedAs receiver = some r.id :=
  ⟨g.asked[receiver], List.getElem_mem known, by simp [known], by simp [Guest.reportedAs, known]⟩

theorem postedFor_of_mem (good : g.Good machine) (queued : id ∈ g.manager.queues) :
    ∃ receiver < g.asked.length, g.manager.queues.lookup id = some receiver ∧
      g.postedFor id = g.reportedAs receiver := by
  obtain ⟨receiver, found⟩ := lookup_of_mem queued
  have obtained := (good.kept.owners id receiver).mp found
  obtain ⟨known, _⟩ := List.getElem?_eq_some_iff.mp obtained
  exact ⟨receiver, good.asked ▸ known, found, by simp [Guest.postedFor, found]⟩

theorem good_register {r : Request} (good : g.Good machine) (configured : Configured machine r)
    (taken : g.register id r = some h) : h.Good machine ∧ h.underway = g.underway := by
  obtain ⟨manager, registered, rfl⟩ := Option.map_eq_some_iff.mp taken
  have registered := handled registered
  have kept := kept_register good.kept registered
  have older : ∀ receiver < g.asked.length,
      (g.asked ++ [r])[receiver]? = g.asked[receiver]? := fun _ known =>
    List.getElem?_append_left known
  simp only [Manager.handle] at registered
  split at registered
  · cases registered
  · rename_i dead
    have fresh : id ∉ g.manager.queues := fun known => dead ((good.kept.keys id).mp known)
    cases registered
    refine ⟨⟨kept, good.listening, by simp [good.asked], ?_, ?_, ?_⟩, ?_⟩
    · exact List.forall_mem_append.mpr ⟨good.configured, by simpa using configured⟩
    · exact fun other member => (AList.mem_insert _).mpr (Or.inr (good.posted other member))
    · intro receiver member
      have known := good.presses receiver member
      simp only [List.length_append]
      omega
    · refine congrArg₂ (· ++ ·) (List.filterMap_congr ?_) (List.filterMap_congr ?_)
      · intro other member
        have queued := good.posted other member
        obtain ⟨receiver, known, found, same⟩ := postedFor_of_mem good queued
        have differs : other ≠ id := fun equal => fresh (equal ▸ queued)
        rw [same]
        simp only [Guest.postedFor, Guest.reportedAs, AList.lookup_insert_ne differs, found,
          Option.bind_some, older receiver known]
      · intro receiver member
        simp only [Guest.reportedAs, older receiver (good.presses receiver member)]

theorem good_callback {registers : Bool} (good : g.Good machine)
    (taken : g.callback registers = some h) : h.Good machine ∧ h.underway = g.underway := by
  obtain ⟨manager, called, rfl⟩ := Option.map_eq_some_iff.mp taken
  have called := handled called
  have kept := kept_callback good.kept called
  simp only [Manager.handle] at called
  split at called
  · cases called
  · cases called
    exact ⟨⟨kept, good.listening, good.asked, good.configured, good.posted, good.presses⟩, rfl⟩

theorem good_press {combination : Combination} (good : g.Good machine)
    (taken : g.press receiver = some (h, combination)) :
    h.Good machine ∧ ∃ hotkey, bound machine hotkey = some combination ∧
      h.underway.Perm (hotkey :: g.underway) := by
  unfold Guest.press at taken
  split at taken
  · rename_i id request obtained asked
    split at taken
    · rename_i known
      cases taken
      have queued := good.kept.registered id known
      have member := List.mem_of_getElem? asked
      have found := (good.kept.owners id receiver).mpr obtained
      refine ⟨⟨good.kept, good.listening, good.asked, good.configured, ?_, good.presses⟩,
        request.id, bound_of_configured (good.configured request member), ?_⟩
      · exact List.forall_mem_append.mpr ⟨good.posted, by simpa using queued⟩
      · have reported : g.postedFor id = some request.id := by
          simp [Guest.postedFor, Guest.reportedAs, found, asked]
        have single : [id].filterMap g.postedFor = [request.id] := by simp [reported]
        have split : Guest.underway { g with posted := g.posted ++ [id] } =
            g.posted.filterMap g.postedFor ++ [id].filterMap g.postedFor ++
              g.presses.filterMap g.reportedAs := by
          rw [← List.filterMap_append]
          rfl
        rw [split, single, List.append_assoc, List.singleton_append]
        exact List.perm_middle
    · cases taken
  · cases taken

theorem good_wmHotkey (good : g.Good machine) (taken : g.wmHotkey = some h) :
    h.Good machine ∧ h.underway.Perm g.underway ∧ h.work < g.work := by
  unfold Guest.wmHotkey at taken
  split at taken
  · cases taken
  · rename_i id posted waiting
    obtain ⟨manager, delivered, rfl⟩ := Option.map_eq_some_iff.mp taken
    cases handled delivered
    have known := good.posted
    rw [waiting, List.forall_mem_cons] at known
    obtain ⟨receiver, inside, found, same⟩ := postedFor_of_mem good known.1
    have received : g.manager.wmHotkey id =
        { g.manager with received := g.manager.received ++ [receiver] } := by
      simp [Manager.wmHotkey, found, good.listening]
    obtain ⟨r, _, _, reported⟩ := reportedAs_of_lt inside
    rw [received, List.drop_left]
    refine ⟨⟨?_, good.listening, good.asked, good.configured, known.2, ?_⟩, ?_, ?_⟩
    · exact ⟨good.kept.keys, good.kept.sound, good.kept.owners, good.kept.callbacks,
        good.kept.registered⟩
    · exact List.forall_mem_append.mpr ⟨good.presses, by simpa using inside⟩
    · have before : g.underway =
          r.id :: (posted.filterMap g.postedFor ++ g.presses.filterMap g.reportedAs) := by
        rw [Guest.underway, waiting, List.filterMap_cons_some (same.trans reported),
          List.cons_append]
      have single : [receiver].filterMap g.reportedAs = [r.id] := by simp [reported]
      rw [before]
      refine List.Perm.trans (List.Perm.of_eq ?_) (List.perm_append_singleton _ _)
      rw [← single, List.append_assoc, ← List.filterMap_append]
      rfl
    · simp only [Guest.work, waiting, List.length_append, List.length_cons, List.length_nil]
      omega

theorem good_report {hotkey : UInt32} (good : g.Good machine)
    (taken : g.report receiver = some (h, hotkey)) :
    h.Good machine ∧ g.underway.Perm (hotkey :: h.underway) ∧ h.work + 2 = g.work := by
  unfold Guest.report at taken
  split at taken
  · rename_i member
    obtain ⟨id, reported, same⟩ := Option.map_eq_some_iff.mp taken
    cases same
    have fewer := List.length_erase_of_mem member
    have some_press := List.length_pos_of_mem member
    refine ⟨⟨good.kept, good.listening, good.asked, good.configured, good.posted, ?_⟩, ?_, ?_⟩
    · exact fun other left => good.presses other (List.mem_of_mem_erase left)
    · have apart := (List.perm_cons_erase member).filterMap g.reportedAs
      rw [List.filterMap_cons_some reported] at apart
      exact (apart.append_left _).trans List.perm_middle
    · simp only [Guest.work, fewer]
      omega
  · cases taken

theorem work_done (good : g.Good machine) (delivered : g.wmHotkey = none)
    (reported : ∀ receiver, g.report receiver = none) : g.underway = [] := by
  have posted : g.posted = [] := by
    cases waiting : g.posted with
    | nil => rfl
    | cons id posted =>
      simp [Guest.wmHotkey, waiting, managerStep, good.kept.sound, Manager.handle] at delivered
  have presses : g.presses = [] := by
    cases waiting : g.presses with
    | nil => rfl
    | cons receiver presses =>
      have member : receiver ∈ g.presses := by simp [waiting]
      obtain ⟨r, _, _, known⟩ := reportedAs_of_lt (good.presses receiver member)
      have idle := reported receiver
      simp [Guest.report, member, known] at idle
  simp [Guest.underway, posted, presses]

end Agent

structure Sound (machine : MachineConfig) (s : System) : Prop where
  own : s.controller.machineConfig = machine
  out : s.controller.out = []
  requests : ∀ cmd ∈ s.toGuest, registers machine (.clientpipe cmd)
  guest : s.guest.Good machine
  balance : (s.pressed.map some).Perm (s.accounted.map (bound machine))

section Steps
variable {machine : MachineConfig} {s t : System} {c : Controller} {l : Label}

theorem reports_append (xs ys : List GaCmdIn) : reports (xs ++ ys) = reports xs ++ reports ys :=
  List.filterMap_append

theorem balance_perm (sound : Sound machine s) {ids : List UInt32} (same : s.accounted.Perm ids) :
    (s.pressed.map some).Perm (ids.map (bound machine)) := sound.balance.trans (same.map _)

theorem handOn_requests {more : Controller} (grows : Grows machine c more) (nothing : c.out = [])
    {toGuest : List GaCmdOut} (requests : ∀ cmd ∈ toGuest, registers machine (.clientpipe cmd)) :
    ∀ cmd ∈ toGuest ++ more.out.filterMap toClientpipe, registers machine (.clientpipe cmd) := by
  obtain ⟨news, grown, configured⟩ := grows
  rw [nothing, List.nil_append] at grown
  rw [grown, List.forall_mem_append]
  refine ⟨requests, ?_⟩
  intro cmd member
  obtain ⟨e, emitted, same⟩ := List.mem_filterMap.mp member
  cases e with
  | clientpipe sent =>
    cases same
    exact configured _ emitted
  | _ => cases same

theorem grows_handle (few : machine.hotkeys.length ≤ 2 ^ 32) (own : c.machineConfig = machine)
    (env : Env) (cmd : GaCmdIn) :
    Grows machine c (handle env cmd c).1 ∧ (handle env cmd c).1.machineConfig = machine := by
  rw [handle_controller]
  cases called cmd with
  | none => exact ⟨grows_refl c, own⟩
  | some op => exact ⟨grows_step few own env op, (step_machineConfig env op c).trans own⟩

theorem sound_driverReceives (few : machine.hotkeys.length ≤ 2 ^ 32) (sound : Sound machine s)
    {env : Env} (taken : s.driverReceives env = some t) :
    Sound machine t ∧ t.pressed = s.pressed ∧ t.lost = s.lost ∧ t.work < s.work := by
  unfold System.driverReceives at taken
  split at taken
  · cases taken
  · rename_i cmd toDriver waiting
    cases taken
    obtain ⟨grows, own⟩ := grows_handle few sound.own env cmd
    have cut : reports s.toDriver = reports [cmd] ++ reports toDriver := by
      rw [waiting, ← reports_append, List.singleton_append]
    refine ⟨⟨own, rfl, handOn_requests grows sound.out sound.requests, sound.guest, ?_⟩, rfl, rfl,
      ?_⟩
    · refine balance_perm sound (List.perm_iff_count.mpr fun id => ?_)
      simp only [System.accounted, System.handOn, cut, List.count_append]
      omega
    · simp only [System.work, System.handOn, waiting, List.length_cons]
      omega

theorem sound_guestReceives (sound : Sound machine s) {id : UInt16}
    (taken : s.guestReceives id = some t) : Sound machine t := by
  unfold System.guestReceives at taken
  split at taken
  · cases taken
  · rename_i hotkey modifiers key toGuest waiting
    obtain ⟨guest, registered, rfl⟩ := Option.map_eq_some_iff.mp taken
    have requests := sound.requests
    rw [waiting, List.forall_mem_cons] at requests
    obtain ⟨good, same⟩ := good_register sound.guest requests.1 registered
    refine ⟨sound.own, sound.out, requests.2, good, ?_⟩
    simpa only [System.accounted, same] using sound.balance
  · rename_i cmd toGuest _ waiting
    cases taken
    have requests := sound.requests
    rw [waiting, List.forall_mem_cons] at requests
    exact ⟨sound.own, sound.out, requests.2, sound.guest, sound.balance⟩

theorem sound_restart (sound : Sound machine s) (kept unread : Nat) :
    Sound machine (s.restart kept unread) := by
  refine ⟨sound.own, sound.out, ?_, good_new, ?_⟩
  · exact fun cmd member => sound.requests cmd (List.mem_of_mem_drop member)
  · have cut : reports s.toDriver = reports (s.toDriver.take kept) ++ reports (s.toDriver.drop kept) := by
      rw [← reports_append, List.take_append_drop]
    have hello : reports [.reportBoot] = [] := rfl
    have fresh : Guest.new.underway = [] := rfl
    refine balance_perm sound (List.perm_iff_count.mpr fun id => ?_)
    simp only [System.accounted, System.restart, cut, reports_append, hello, fresh,
      List.count_append, List.count_nil]
    omega

theorem sound_press (sound : Sound machine s) {receiver : Nat}
    (taken : step s (.press receiver) = some t) : Sound machine t := by
  obtain ⟨⟨guest, combination⟩, pressed, rfl⟩ := Option.map_eq_some_iff.mp taken
  obtain ⟨good, hotkey, binds, more⟩ := good_press sound.guest pressed
  refine ⟨sound.own, sound.out, sound.requests, good, ?_⟩
  have added : (hotkey :: s.accounted).Perm
      (s.handled ++ s.lost ++ (guest.underway ++ reports s.toDriver)) := by
    refine List.perm_iff_count.mpr fun id => ?_
    have counts := List.perm_iff_count.mp more id
    simp only [System.accounted, List.count_append, List.count_cons] at counts ⊢
    omega
  have grown : (hotkey :: s.accounted).map (bound machine) =
      some combination :: s.accounted.map (bound machine) := by rw [List.map_cons, binds]
  have one := List.perm_append_singleton (some combination) (s.pressed.map some)
  have both := sound.balance.cons (some combination)
  rw [← grown] at both
  rw [List.map_append]
  exact (one.trans both).trans (added.map _)

theorem sound_wmHotkey (sound : Sound machine s) (taken : step s .wmHotkey = some t) :
    Sound machine t ∧ t.pressed = s.pressed ∧ t.lost = s.lost ∧ t.work < s.work := by
  obtain ⟨guest, delivered, rfl⟩ := Option.map_eq_some_iff.mp taken
  obtain ⟨good, same, less⟩ := good_wmHotkey sound.guest delivered
  refine ⟨⟨sound.own, sound.out, sound.requests, good, ?_⟩, rfl, rfl, ?_⟩
  · refine balance_perm sound (List.perm_iff_count.mpr fun id => ?_)
    have counts := List.perm_iff_count.mp same id
    simp only [System.accounted, List.count_append]
    omega
  · simp only [System.work]
    omega

theorem sound_report (sound : Sound machine s) {receiver : Nat}
    (taken : step s (.report receiver) = some t) :
    Sound machine t ∧ t.pressed = s.pressed ∧ t.lost = s.lost ∧ t.work < s.work := by
  obtain ⟨⟨guest, hotkey⟩, reported, rfl⟩ := Option.map_eq_some_iff.mp taken
  obtain ⟨good, moved, less⟩ := good_report sound.guest reported
  have told : reports [.hotKey hotkey] = [hotkey] := rfl
  refine ⟨⟨sound.own, sound.out, sound.requests, good, ?_⟩, rfl, rfl, ?_⟩
  · refine balance_perm sound (List.perm_iff_count.mpr fun id => ?_)
    have counts := List.perm_iff_count.mp moved id
    simp only [System.accounted, reports_append, told, List.count_append, List.count_cons,
      List.count_nil] at counts ⊢
    omega
  · simp only [System.work, List.length_append, List.length_cons, List.length_nil]
    omega

theorem sound_step (few : machine.hotkeys.length ≤ 2 ^ 32) (sound : Sound machine s)
    (taken : step s l = some t) : Sound machine t := by
  cases l with
  | call env op =>
    cases taken
    exact ⟨(step_machineConfig env op s.controller).trans sound.own, rfl,
      handOn_requests (grows_step few sound.own env op) sound.out sound.requests, sound.guest,
      sound.balance⟩
  | driverReceives env => exact (sound_driverReceives few sound taken).1
  | guestReceives id => exact sound_guestReceives sound taken
  | callback registers =>
    obtain ⟨guest, called, rfl⟩ := Option.map_eq_some_iff.mp taken
    obtain ⟨good, same⟩ := good_callback sound.guest called
    refine ⟨sound.own, sound.out, sound.requests, good, ?_⟩
    simpa only [System.accounted, same] using sound.balance
  | press receiver => exact sound_press sound taken
  | wmHotkey => exact (sound_wmHotkey sound taken).1
  | report receiver => exact (sound_report sound taken).1
  | tell cmd =>
    simp only [step] at taken
    split at taken
    · rename_i other
      cases taken
      have silent : reports [cmd] = [] := by simp [reports, other]
      refine ⟨sound.own, sound.out, sound.requests, sound.guest, ?_⟩
      simpa only [System.accounted, reports_append, silent, List.append_nil] using sound.balance
    · cases taken
  | restart kept unread =>
    cases taken
    exact sound_restart sound kept unread

theorem own_step (few : machine.hotkeys.length ≤ 2 ^ 32) (sound : Sound machine s)
    (own : isOwn l = true) (taken : step s l = some t) :
    Sound machine t ∧ t.pressed = s.pressed ∧ t.lost = s.lost ∧ t.work < s.work := by
  cases l with
  | driverReceives env => exact sound_driverReceives few sound taken
  | wmHotkey => exact sound_wmHotkey sound taken
  | report receiver => exact sound_report sound taken
  | _ => cases own

theorem resting_quiet (sound : Sound machine s) (resting : ∀ l, isOwn l = true → step s l = none) :
    s.guest.underway = [] ∧ s.toDriver = [] := by
  constructor
  · refine work_done sound.guest (Option.map_eq_none_iff.mp (resting .wmHotkey rfl)) ?_
    exact fun receiver => Option.map_eq_none_iff.mp (resting (.report receiver) rfl)
  · cases waiting : s.toDriver with
    | nil => rfl
    | cons cmd toDriver =>
      have stuck : s.driverReceives Env.bare = none := resting (.driverReceives Env.bare) rfl
      simp [System.driverReceives, waiting] at stuck

theorem answered_of_sound (few : machine.hotkeys.length ≤ 2 ^ 32) (sound : Sound machine s) :
    Answered machine s := by
  refine ⟨sound.guest.kept.sound, sound.balance, ?_⟩
  let Going (u : System) : Prop := Sound machine u ∧ u.pressed = s.pressed ∧ u.lost = s.lost
  have going : ∀ u l v, Going u → isOwn l = true → step u l = some v → Going v := by
    intro u l v ⟨sound, pressed, lost⟩ own taken
    obtain ⟨next, kept, also, -⟩ := own_step few sound own taken
    exact ⟨next, kept.trans pressed, also.trans lost⟩
  have lighter : ∀ u l v, Going u → isOwn l = true → step u l = some v → v.work < u.work :=
    fun _ _ _ inv own taken => (own_step few inv.1 own taken).2.2.2
  refine Runs.comesToRest going lighter ?_ s ⟨sound, rfl, rfl⟩
  rintro t ⟨last, pressed, lost⟩ resting
  obtain ⟨done, read⟩ := resting_quiet last resting
  refine ⟨lost, ?_⟩
  have balance := last.balance
  rw [pressed, System.accounted, done, read] at balance
  simpa [reports] using balance

theorem sound_start (machine : MachineConfig) (hooks : HooksConfig) :
    Sound machine (start machine hooks) :=
  ⟨rfl, rfl, by simp [start], good_new, by simp [start, System.accounted, Guest.new,
    Guest.underway, reports, hotKeyOf]⟩

end Steps

/-- Presses in the guest are answered: however drivers, guest agents and Windows take their turns,
    each press that Windows reports makes the driver act on one hotkey with that combination. -/
theorem presses_answered (machine : MachineConfig) (hooks : HooksConfig)
    (few : machine.hotkeys.length ≤ 2 ^ 32) (ls : List Label) :
    Runs.Always step (Answered machine) (start machine hooks) ls :=
  Runs.always_mono (fun _ => answered_of_sound few)
    (Runs.always_of_preserved (Sound machine) (fun _ _ _ => sound_step few)
      (sound_start machine hooks) ls)

/-- Ctrl+Alt+Delete and a media key, pressed one after the other and reported the other way round;
    the second press of the media key is lost with the guest agent. -/
theorem two_hotkeys_answered :
    let machine : MachineConfig :=
      { MachineConfig.bare with
        hotkeys := [⟨⟨[.ctrl, .alt], false, .delete⟩, .action .ioExit⟩,
          ⟨⟨[], true, .mediaStop⟩, .exec "playerctl stop"⟩] }
    Runs.Always step (Answered machine) (start machine .bare)
      [.driverReceives .bare, .guestReceives 49152, .callback true, .guestReceives 49153,
        .callback true, .press 0, .press 1, .wmHotkey, .wmHotkey, .report 1, .report 0,
        .driverReceives .bare, .driverReceives .bare, .press 1, .restart 0 0,
        .driverReceives .bare] := by
  intro machine
  exact presses_answered machine .bare (by decide) _

end GuestHotkeys
