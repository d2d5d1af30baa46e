import WindowsGaming.Protocol
import WindowsGaming.UsbPorts

/- The driver's controller. Everything it does to the world goes to `out`, in order:
   what it writes to its channels, what it opens and closes, the processes it starts.
   A component that reads a channel takes its messages from there. -/
namespace Controller
open Hotkeys Config Protocol UsbPorts

inductive State where
  | down
  | up
  | pinging
  | suspending
  | suspended
  | resuming (full : Bool)
  deriving DecidableEq, Repr

/-- Who holds the input devices. A channel's sender is known by the channel's number. -/
inductive IoState where
  | detached
  | lightEntry
  | temporaryLightEntry (sender : Nat)
  | awaitingUpgrade
  | fullEntry
  deriving DecidableEq, Repr

structure Env where
  udev : Udev
  /-- Device nodes of the input devices below every USB device that matches a binding. -/
  inputNodes : UsbBinding → List String
  opens : String → Bool
  pathExists : String → Bool
  /-- `RUST_LOG`, in a debug build that has it set. -/
  rustLog : Option String

def Env.bare : Env :=
  { udev := fun _ => none
    inputNodes := fun _ => []
    opens := fun _ => false
    pathExists := fun _ => false
    rustLog := none }

def Env.snapshotThere : Env := { Env.bare with pathExists := fun _ => true }

def Env.keyboard : Env :=
  { Env.bare with
    udev := fun _ => some (1, 4)
    inputNodes := fun _ => ["/dev/input/event3"]
    opens := fun _ => true }

structure ClipboardRequestEvent where
  mimeType : String
  target : Nat
  deriving DecidableEq, Repr

def plaintextMimeTypes : List String :=
  ["text/plain", "text/plain;charset=utf-8", "STRING", "UTF8_STRING", "TEXT"]

def clipboardMimePng : String := "image/png"

def ClipboardRequestEvent.desiredType (event : ClipboardRequestEvent) : ClipboardType :=
  if plaintextMimeTypes.any (· == event.mimeType) then .text
  else if event.mimeType = clipboardMimePng then .image
  else .text  -- a protocol violation is answered with text

inductive Effect where
  | monitor (cmd : QmpCommand)
  | clientpipe (cmd : GaCmdOut)
  | temporary (sender : Nat) (cmd : ControlCmdOut)
  | x11Clipboard (event : ClipboardRequestEvent) (response : List UInt8)
  | x11ClipboardGrabber (types : ClipboardTypes)
  | x11ClipboardReader (kind : ClipboardType)
  | resumeInput (opened : List String)
  | suspendInput (closed : List String)
  | fireSuspend (sender : Nat)
  | awaitAcks (acks : List Nat) (ack : Nat)
  | spawn (cmd : String)
  | notifySystemd (ready : Bool) (status : String)
  deriving DecidableEq, Repr

structure Input where
  machine : MachineConfig
  deviceHandles : List String
  deriving DecidableEq, Repr

def Input.new (machine : MachineConfig) : Input := ⟨machine, []⟩

def Input.suspend (i : Input) : Input := { i with deviceHandles := [] }

/-- The handles one `resume` opens: for every non-permanent device, all input devices of
    all USB devices its binding matches. -/
def Input.opened (env : Env) (i : Input) : List String :=
  (i.machine.usbDevices.filter fun dev => !dev.permanent).flatMap fun dev =>
    (env.inputNodes dev.binding).filter env.opens

def Input.resume (env : Env) (i : Input) : Input :=
  { i with deviceHandles := i.deviceHandles ++ i.opened env }

end Controller

open Hotkeys Config Protocol UsbPorts Controller

structure Controller where
  machineConfig : MachineConfig
  hooksConfig : HooksConfig
  ga : State
  ioState : IoState
  suspendSenders : List Nat
  input : Input
  winClipboardRequest : Option ClipboardRequestEvent
  oneshots : Nat
  out : List Effect
  deriving DecidableEq, Repr

namespace Controller

def new (machineConfig : MachineConfig) (hooksConfig : HooksConfig) (input : Input) :
    Controller :=
  { machineConfig, hooksConfig, input
    ga := .down
    ioState := .detached
    suspendSenders := []
    winClipboardRequest := none
    oneshots := 0
    out := [] }

def emitAll (es : List Effect) (c : Controller) : Controller := { c with out := c.out ++ es }

def emit (e : Effect) (c : Controller) : Controller := c.emitAll [e]

def writeGa (cmd : GaCmdOut) (c : Controller) : Controller := c.emit (.clientpipe cmd)

def toMonitor (cmd : QmpCommand) (c : Controller) : Controller := c.emit (.monitor cmd)

def runHook (hook : Option String) (c : Controller) : Controller :=
  c.emitAll (hook.toList.map .spawn)

def suspendInput (c : Controller) : Controller :=
  { c with input := c.input.suspend }.emit (.suspendInput c.input.deviceHandles)

def resumeInput (env : Env) (c : Controller) : Controller :=
  { c with input := c.input.resume env }.emit (.resumeInput (c.input.opened env))

def prepareEntry (c : Controller) : Controller :=
  (c.writeGa .releaseModifiers).runHook c.hooksConfig.attach

def usbId (i : Nat) : String := "usb" ++ toString i

def deviceAdd (h : Hotplug) : QmpCommand :=
  .deviceAdd "usb-host" (usbId h.index) h.placement.busName h.placement.port h.hostbus h.hostaddr

def hotplugIndices (devs : List UsbDevice) : List Nat :=
  ((StableGroups.enumerate devs).filter fun p => !p.2.permanent).map Prod.fst

def deviceAdds (env : Env) (devs : List UsbDevice) : List QmpCommand :=
  (hotplugs env.udev devs).map deviceAdd

def deviceDels (devs : List UsbDevice) : List QmpCommand :=
  (hotplugIndices devs).map fun i => .deviceDel (usbId i)

def ioDetach (c : Controller) : Controller :=
  let released :=
    match c.ioState with
    | .detached => c
    | .awaitingUpgrade | .lightEntry | .temporaryLightEntry _ =>
      c.suspendInput.toMonitor .releaseAllKeys
    | .fullEntry => c.emitAll ((deviceDels c.machineConfig.usbDevices).map .monitor)
  { released with ioState := .detached }.runHook c.hooksConfig.detach

def enterFull (env : Env) (c : Controller) : Controller :=
  { c.prepareEntry.emitAll ((deviceAdds env c.machineConfig.usbDevices).map .monitor) with
    ioState := .fullEntry }

def ioForceAttach (env : Env) (c : Controller) : Controller :=
  match c.ioState with
  | .detached => c.enterFull env
  | .awaitingUpgrade | .lightEntry => (c.suspendInput.toMonitor .releaseAllKeys).enterFull env
  | .temporaryLightEntry sender =>
    (c.suspendInput.emit (.temporary sender .temporaryLightDetached)).enterFull env
  | .fullEntry => c

def lightAttach (env : Env) (c : Controller) : Controller :=
  match c.ga with
  | .suspending => c
  | .suspended => { c.toMonitor .systemWakeup with ga := .resuming false }
  | _ =>
    match c.ioState with
    | .detached => { c.prepareEntry.resumeInput env with ioState := .lightEntry }
    | .awaitingUpgrade => { c with ioState := .lightEntry }
    | .lightEntry | .fullEntry | .temporaryLightEntry _ => c

def ioAttach (env : Env) (c : Controller) : Controller :=
  match c.ga with
  | .resuming _ | .suspending => c
  | .suspended => { c.toMonitor .systemWakeup with ga := .resuming true }
  | .down => { c.lightAttach env with ioState := .awaitingUpgrade }
  | .up | .pinging => c.ioForceAttach env

def tryAttach (env : Env) (c : Controller) : Controller :=
  match c.ga with
  | .up | .pinging => c.ioForceAttach env
  | _ => c

def temporaryEntry (env : Env) (sender : Nat) (x y : Int32) (c : Controller) :
    Controller × Bool :=
  match c.ga with
  | .up | .pinging =>
    match c.ioState with
    | .detached =>
      ({ (c.writeGa (.setMousePosition ⟨x, y⟩)).lightAttach env with
        ioState := .temporaryLightEntry sender }, true)
    | _ => (c, false)
  | _ => (c, false)

def temporaryExit (c : Controller) : Controller :=
  match c.ioState with
  | .temporaryLightEntry _ => c.ioDetach
  | _ => c

def pingTimeout (c : Controller) : Controller :=
  match c.ioState with
  | .fullEntry => c.ioDetach
  | .temporaryLightEntry _ => c.temporaryExit
  | _ => c

/-- `true` when it wrote a ping, `false` when the timer that calls it shall end. -/
def gaPing (c : Controller) : Controller × Bool :=
  match c.ga with
  | .pinging => ({ c with ga := .down }.pingTimeout, false)
  | .up => ({ c with ga := .pinging }.writeGa .ping, true)
  | _ => (c, false)

def gaPong (c : Controller) : Controller :=
  if c.ga = .pinging then { c with ga := .up } else c

def registerHotKeys (hotkeys : List HotKey) : List GaCmdOut :=
  (StableGroups.enumerate hotkeys).map fun p =>
    let (modifiers, key) := p.2.key.toWindows
    .registerHotKey (UInt32.ofNat p.1) modifiers key

def helloEffects (env : Env) (machine : MachineConfig) : List Effect :=
  .notifySystemd true "Ready" ::
    (env.rustLog.toList.map fun rl => .clientpipe (.enableDebugConsole rl)) ++
    (registerHotKeys machine.hotkeys).map .clientpipe

def greet (env : Env) (c : Controller) : Controller :=
  { c.emitAll (helloEffects env c.machineConfig) with ga := .up }

def upgradeAwaited (env : Env) (c : Controller) : Controller :=
  match c.ioState with
  | .awaitingUpgrade => c.ioAttach env
  | _ => c

/-- `true` when the caller shall start a ping timer. -/
def gaHello (env : Env) (c : Controller) : Controller × Bool :=
  let greeted := (c.greet env).upgradeAwaited env
  match c.ga with
  | .pinging | .up => (greeted, false)
  | .down | .suspended => (greeted, true)
  | .resuming full =>
    (if full then greeted.ioForceAttach env else greeted.lightAttach env, true)
  | .suspending => (greeted, false)

def gaSuspending (c : Controller) : Controller := { c.ioDetach with ga := .suspending }

def qemuSuspended (c : Controller) : Controller :=
  { c with ga := .suspended, suspendSenders := [] }.emitAll (c.suspendSenders.map .fireSuspend)

def gaHotkey (env : Env) (index : UInt32) (c : Controller) : Controller :=
  match c.machineConfig.hotkeys[index.toNat]?.map HotKey.action with
  | none => c
  | some (.action action) =>
    match c.ioState with
    | .temporaryLightEntry _ => c
    | _ =>
      match action with
      | .ioUpgrade => c.ioAttach env
      | .ioEntryForced => c.ioForceAttach env
      | .ioExit => c.ioDetach
  | some (.exec cmd) => c.emit (.spawn cmd)

inductive SuspendFuture where
  | ready
  | waiting (receiver : Nat)
  deriving DecidableEq, Repr

def suspend (c : Controller) : Controller × SuspendFuture :=
  if c.ga = .suspended then (c, .ready)
  else
    let c := if c.ga ≠ .suspending then c.writeGa .suspend else c
    ({ c with suspendSenders := c.suspendSenders ++ [c.oneshots], oneshots := c.oneshots + 1 },
      .waiting c.oneshots)

def shutdown (c : Controller) : Controller :=
  match c.ga with
  | .up | .pinging => c.writeGa .shutdown
  | _ => c.toMonitor .systemPowerdown

def grabX11Clipboard (types : ClipboardTypes) (c : Controller) : Controller :=
  c.emit (.x11ClipboardGrabber types)

def readX11Clipboard (kind : ClipboardType) (c : Controller) : Controller :=
  c.emit (.x11ClipboardReader kind)

def respondX11Clipboard (buf : List UInt8) (c : Controller) : Controller :=
  match c.winClipboardRequest with
  | some event => { c with winClipboardRequest := none }.emit (.x11Clipboard event buf)
  | none => c

def grabWinClipboard (types : ClipboardTypes) (c : Controller) : Controller :=
  c.writeGa (.clipboard (some (.grabClipboard types)))

def readWinClipboard (event : ClipboardRequestEvent) (c : Controller) : Controller :=
  { c.writeGa (.clipboard (some (.requestClipboardContents event.desiredType.toI32))) with
    winClipboardRequest := some event }

def respondWinClipboard (buf : List UInt8) (c : Controller) : Controller :=
  c.writeGa (.clipboard (some (.clipboardContents buf)))

def mouseEdged (x y : Int32) (c : Controller) : Controller :=
  match c.ioState with
  | .temporaryLightEntry sender => c.emit (.temporary sender (.mouseEdged x y))
  | _ => c

def snapshotDisks (storage : List StorageDevice) (wanted : String → Bool) : List (Nat × String) :=
  ((StableGroups.enumerate storage).filterMap fun p => p.2.snapshotFile.map fun s => (p.1, s)).filter
    fun p => wanted p.2

/-- Queue one command for each disk, each with an acknowledgement of its own, and have a
    task pass `ack` on once all of them arrived. -/
def queueForDisks (command : Nat → String → Nat → QmpCommand) (disks : List (Nat × String))
    (ack : Nat) (c : Controller) : Controller :=
  let cmds := (StableGroups.enumerate disks).map fun p =>
    Effect.monitor (command p.2.1 p.2.2 (c.oneshots + p.1))
  let acks := List.range' c.oneshots disks.length
  { c with oneshots := c.oneshots + disks.length }.emitAll (cmds ++ [Effect.awaitAcks acks ack])

def enterBackupMode (env : Env) (ack : Nat) (c : Controller) : Controller :=
  c.queueForDisks .takeSnapshot
    (snapshotDisks c.machineConfig.storage fun s => !env.pathExists s) ack

def leaveBackupMode (env : Env) (ack : Nat) (c : Controller) : Controller :=
  c.queueForDisks .commitSnapshot (snapshotDisks c.machineConfig.storage env.pathExists) ack

section Frames
variable (c : Controller) (env : Env)

@[simp] theorem emitAll_ga (es : List Effect) : (c.emitAll es).ga = c.ga := rfl

@[simp] theorem emitAll_machineConfig (es : List Effect) :
    (c.emitAll es).machineConfig = c.machineConfig := rfl

@[simp] theorem runHook_ga (hook : Option String) : (c.runHook hook).ga = c.ga := rfl

@[simp] theorem runHook_machineConfig (hook : Option String) :
    (c.runHook hook).machineConfig = c.machineConfig := rfl

@[simp] theorem suspendInput_ga : c.suspendInput.ga = c.ga := rfl

@[simp] theorem suspendInput_machineConfig :
    c.suspendInput.machineConfig = c.machineConfig := rfl

@[simp] theorem enterFull_ga : (c.enterFull env).ga = c.ga := rfl

@[simp] theorem enterFull_machineConfig : (c.enterFull env).machineConfig = c.machineConfig := rfl

@[simp] theorem ioDetach_ga : c.ioDetach.ga = c.ga := by
  unfold ioDetach
  cases c.ioState <;> simp [toMonitor, emit]

@[simp] theorem ioDetach_machineConfig : c.ioDetach.machineConfig = c.machineConfig := by
  unfold ioDetach
  cases c.ioState <;> simp [toMonitor, emit]

@[simp] theorem ioDetach_ioState : c.ioDetach.ioState = .detached := rfl

@[simp] theorem ioForceAttach_ga : (c.ioForceAttach env).ga = c.ga := by
  unfold ioForceAttach
  cases c.ioState <;> simp [toMonitor, emit]

@[simp] theorem ioForceAttach_machineConfig :
    (c.ioForceAttach env).machineConfig = c.machineConfig := by
  unfold ioForceAttach
  cases c.ioState <;> simp [toMonitor, emit]

@[simp] theorem ioForceAttach_ioState : (c.ioForceAttach env).ioState = .fullEntry := by
  unfold ioForceAttach
  split <;> first | rfl | assumption

@[simp] theorem lightAttach_machineConfig :
    (c.lightAttach env).machineConfig = c.machineConfig := by
  unfold lightAttach
  split
  · rfl
  · rfl
  · cases c.ioState <;> rfl

@[simp] theorem ioAttach_machineConfig : (c.ioAttach env).machineConfig = c.machineConfig := by
  unfold ioAttach
  split <;> simp [toMonitor, emit, emitAll]

@[simp] theorem upgradeAwaited_machineConfig :
    (c.upgradeAwaited env).machineConfig = c.machineConfig := by
  unfold upgradeAwaited
  split <;> simp

@[simp] theorem upgradeAwaited_ga (up : c.ga = .up) : (c.upgradeAwaited env).ga = .up := by
  unfold upgradeAwaited ioAttach
  split <;> simp [up]

@[simp] theorem greet_machineConfig : (c.greet env).machineConfig = c.machineConfig := rfl

@[simp] theorem temporaryExit_machineConfig : c.temporaryExit.machineConfig = c.machineConfig := by
  unfold temporaryExit
  split
  · exact ioDetach_machineConfig c
  · rfl

@[simp] theorem pingTimeout_machineConfig : c.pingTimeout.machineConfig = c.machineConfig := by
  unfold pingTimeout
  split
  · exact ioDetach_machineConfig c
  · exact temporaryExit_machineConfig c
  · rfl

@[simp] theorem gaHello_machineConfig : (c.gaHello env).1.machineConfig = c.machineConfig := by
  have greeted : ((c.greet env).upgradeAwaited env).machineConfig = c.machineConfig :=
    upgradeAwaited_machineConfig (c.greet env) env
  unfold gaHello
  split
  · exact greeted
  · exact greeted
  · exact greeted
  · exact greeted
  · split
    · exact (ioForceAttach_machineConfig _ env).trans greeted
    · exact (lightAttach_machineConfig _ env).trans greeted
  · exact greeted

@[simp] theorem greet_ga : (c.greet env).ga = .up := rfl

@[simp] theorem greet_ioState : (c.greet env).ioState = c.ioState := rfl

end Frames

inductive Op where
  | gaPing
  | gaPong
  | gaHello
  | gaSuspending
  | qemuSuspended
  | gaHotkey (index : UInt32)
  | ioAttach
  | tryAttach
  | temporaryEntry (sender : Nat) (x y : Int32)
  | temporaryExit
  | lightAttach
  | ioForceAttach
  | suspend
  | ioDetach
  | shutdown
  | grabX11Clipboard (types : ClipboardTypes)
  | readX11Clipboard (kind : ClipboardType)
  | respondX11Clipboard (buf : List UInt8)
  | grabWinClipboard (types : ClipboardTypes)
  | readWinClipboard (event : ClipboardRequestEvent)
  | respondWinClipboard (buf : List UInt8)
  | mouseEdged (x y : Int32)
  | enterBackupMode (ack : Nat)
  | leaveBackupMode (ack : Nat)
  deriving DecidableEq, Repr

def step (env : Env) (op : Op) (c : Controller) : Controller :=
  match op with
  | .gaPing => c.gaPing.1
  | .gaPong => c.gaPong
  | .gaHello => (c.gaHello env).1
  | .gaSuspending => c.gaSuspending
  | .qemuSuspended => c.qemuSuspended
  | .gaHotkey index => c.gaHotkey env index
  | .ioAttach => c.ioAttach env
  | .tryAttach => c.tryAttach env
  | .temporaryEntry sender x y => (c.temporaryEntry env sender x y).1
  | .temporaryExit => c.temporaryExit
  | .lightAttach => c.lightAttach env
  | .ioForceAttach => c.ioForceAttach env
  | .suspend => c.suspend.1
  | .ioDetach => c.ioDetach
  | .shutdown => c.shutdown
  | .grabX11Clipboard types => c.grabX11Clipboard types
  | .readX11Clipboard kind => c.readX11Clipboard kind
  | .respondX11Clipboard buf => c.respondX11Clipboard buf
  | .grabWinClipboard types => c.grabWinClipboard types
  | .readWinClipboard event => c.readWinClipboard event
  | .respondWinClipboard buf => c.respondWinClipboard buf
  | .mouseEdged x y => c.mouseEdged x y
  | .enterBackupMode ack => c.enterBackupMode env ack
  | .leaveBackupMode ack => c.leaveBackupMode env ack

def operateAll (ls : List (Env × Op)) (c : Controller) : Controller :=
  ls.foldl (fun c l => step l.1 l.2 c) c

@[simp] theorem operateAll_nil (c : Controller) : operateAll [] c = c := rfl

@[simp] theorem operateAll_cons (l : Env × Op) (ls : List (Env × Op)) (c : Controller) :
    operateAll (l :: ls) c = operateAll ls (step l.1 l.2 c) := rfl

@[simp] theorem operateAll_append (ls ms : List (Env × Op)) (c : Controller) :
    operateAll (ls ++ ms) c = operateAll ms (operateAll ls c) := List.foldl_append

theorem step_machineConfig (env : Env) (op : Op) (c : Controller) :
    (step env op c).machineConfig = c.machineConfig := by
  cases op with
  | gaPing =>
    simp only [step, gaPing]
    split
    · exact pingTimeout_machineConfig _
    · rfl
    · rfl
  | gaPong =>
    simp only [step, gaPong]
    split <;> rfl
  | gaHello => exact gaHello_machineConfig c env
  | gaSuspending => exact ioDetach_machineConfig c
  | gaHotkey index =>
    simp only [step, gaHotkey]
    split
    · rfl
    · split
      · rfl
      · split
        · exact ioAttach_machineConfig c env
        · exact ioForceAttach_machineConfig c env
        · exact ioDetach_machineConfig c
    · rfl
  | ioAttach => exact ioAttach_machineConfig c env
  | tryAttach =>
    simp only [step, tryAttach]
    split <;> simp
  | temporaryEntry sender x y =>
    simp only [step, temporaryEntry]
    split
    · split
      · exact lightAttach_machineConfig _ env
      · rfl
    · split
      · exact lightAttach_machineConfig _ env
      · rfl
    · rfl
  | temporaryExit => exact temporaryExit_machineConfig c
  | lightAttach => exact lightAttach_machineConfig c env
  | ioForceAttach => exact ioForceAttach_machineConfig c env
  | suspend =>
    simp only [step, suspend]
    split
    · rfl
    · split <;> rfl
  | ioDetach => exact ioDetach_machineConfig c
  | shutdown =>
    simp only [step, shutdown]
    split <;> rfl
  | respondX11Clipboard buf =>
    simp only [step, respondX11Clipboard]
    split <;> rfl
  | mouseEdged x y =>
    simp only [step, mouseEdged]
    split <;> rfl
  | _ => rfl

end Controller
