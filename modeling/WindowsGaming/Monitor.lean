import WindowsGaming.Protocol

/- The handler of the command queue to QEMU. It takes the commands one by one, remembers
   which keys it pressed and which block jobs it started, and executes each over QMP. -/
namespace Monitor
open Protocol

inductive Qmp where
  | deviceAdd (driver id bus : String) (port hostbus hostaddr : Nat)
  | deviceDel (id : String)
  | systemPowerdown
  | systemWakeup
  | inputSendEvent (events : List InputEvent)
  | blockdevSnapshotSync (nodeName snapshotFile snapshotNodeName format : String)
  | blockCommit (jobId device : String)
  | blockJobComplete (device : String)
  | blockdevDel (nodeName : String)
  deriving DecidableEq, Repr

inductive Action where
  | qmp (request : Qmp)
  | ack (sender : Nat)
  | removeFile (path : String)
  deriving DecidableEq, Repr

inductive Reply where
  | ok
  | error
  | io
  deriving DecidableEq, Repr

structure CommandHandler where
  /-- A set: no key is in it twice, and its order means nothing. -/
  heldKeys : List KeyValue
  pendingDiskCommits : List (String × String × Nat)
  running : Bool
  deriving DecidableEq, Repr

def CommandHandler.new : CommandHandler := ⟨[], [], true⟩

def holdKey (held : List KeyValue) : InputEvent → List KeyValue
  | .key key true => held.insert key
  | .key key false => held.filter fun k => k ≠ key
  | _ => held

def diskName (diskId : Nat) : String := "disk" ++ toString diskId

def snapName (disk : String) : String := disk ++ "_snap"

def CommandHandler.take (reply : Reply) (cmd : QmpCommand) (h : CommandHandler) :
    Option (CommandHandler × List Action) :=
  let h := { h with running := decide (reply ≠ .io) }
  match cmd with
  | .deviceAdd driver id bus port hostbus hostaddr =>
    some (h, [.qmp (.deviceAdd driver id bus port hostbus hostaddr)])
  | .deviceDel id => some (h, [.qmp (.deviceDel id)])
  | .systemPowerdown => some (h, [.qmp .systemPowerdown])
  | .systemWakeup => some (h, [.qmp .systemWakeup])
  | .inputSendEvent events =>
    some ({ h with heldKeys := events.foldl holdKey h.heldKeys }, [.qmp (.inputSendEvent events)])
  | .releaseAllKeys =>
    some ({ h with heldKeys := [] },
      [.qmp (.inputSendEvent (h.heldKeys.map fun key => .key key false))])
  | .takeSnapshot diskId snapFile ack =>
    let disk := diskName diskId
    some (h, .qmp (.blockdevSnapshotSync disk snapFile (snapName disk) "qcow2") ::
      if reply = .ok then [.ack ack] else [])
  | .commitSnapshot diskId snapFile ack =>
    let jobId := diskName diskId
    some ({ h with pendingDiskCommits :=
        (jobId, snapFile, ack) :: h.pendingDiskCommits.filter fun p => p.1 ≠ jobId },
      [.qmp (.blockCommit jobId (snapName jobId))])
  | .jobReady device =>
    match h.pendingDiskCommits.find? fun p => p.1 = device with
    | none => none
    | some (_, snapFile, ack) =>
      some ({ h with pendingDiskCommits := h.pendingDiskCommits.filter fun p => p.1 ≠ device },
        .qmp (.blockJobComplete device) ::
          if reply = .ok then [.qmp (.blockdevDel (snapName device)), .removeFile snapFile, .ack ack]
          else [])

def inputEvents (actions : List Action) : List InputEvent :=
  actions.flatMap fun
    | .qmp (.inputSendEvent events) => events
    | _ => []

def keyAfter (key : KeyValue) (down : Bool) : InputEvent → Bool
  | .key k pressed => if k = key then pressed else down
  | _ => down

def guestHolds (sent : List InputEvent) (key : KeyValue) : Bool := sent.foldl (keyAfter key) false

def heldAfter (held : List KeyValue) : QmpCommand → List KeyValue
  | .inputSendEvent events => events.foldl holdKey held
  | .releaseAllKeys => []
  | _ => held

theorem mem_holdKey (held : List KeyValue) (e : InputEvent) (key : KeyValue) :
    key ∈ holdKey held e ↔ keyAfter key (decide (key ∈ held)) e = true := by
  cases e with
  | key k pressed =>
    by_cases same : k = key
    · cases pressed <;> simp [holdKey, keyAfter, same]
    · have other : key ≠ k := fun h => same h.symm
      cases pressed <;> simp [holdKey, keyAfter, same, other]
  | _ => simp [holdKey, keyAfter]

theorem mem_foldl_holdKey (held : List KeyValue) (events : List InputEvent) (key : KeyValue) :
    key ∈ events.foldl holdKey held ↔ events.foldl (keyAfter key) (decide (key ∈ held)) = true := by
  induction events generalizing held with
  | nil => simp
  | cons e events ih =>
    have step : decide (key ∈ holdKey held e) = keyAfter key (decide (key ∈ held)) e := by
      rw [Bool.eq_iff_iff, decide_eq_true_eq]
      exact mem_holdKey held e key
    rw [List.foldl_cons, List.foldl_cons, ih, step]

theorem foldl_release (released : List KeyValue) (key : KeyValue) (down : Bool) :
    (released.map fun k => InputEvent.key k false).foldl (keyAfter key) down =
      (down && decide (key ∉ released)) := by
  induction released generalizing down with
  | nil => simp
  | cons k released ih =>
    rw [List.map_cons, List.foldl_cons, ih]
    by_cases same : k = key
    · simp [keyAfter, same]
    · have other : key ≠ k := fun h => same h.symm
      simp [keyAfter, same, other]

def Agrees (h : CommandHandler) (sent : List InputEvent) : Prop :=
  ∀ key, key ∈ h.heldKeys ↔ guestHolds sent key = true

theorem take_heldKeys {reply : Reply} {cmd : QmpCommand} {h next : CommandHandler}
    {actions : List Action} (taken : h.take reply cmd = some (next, actions)) :
    next.heldKeys = heldAfter h.heldKeys cmd := by
  cases cmd with
  | jobReady device =>
    simp only [CommandHandler.take] at taken
    split at taken
    · cases taken
    · cases taken
      rfl
  | _ =>
    cases taken
    rfl

theorem take_inputEvents {reply : Reply} {cmd : QmpCommand} {h next : CommandHandler}
    {actions : List Action} (taken : h.take reply cmd = some (next, actions)) :
    inputEvents actions = match cmd with
      | .inputSendEvent events => events
      | .releaseAllKeys => h.heldKeys.map fun key => .key key false
      | _ => [] := by
  cases cmd with
  | jobReady device =>
    simp only [CommandHandler.take] at taken
    split at taken
    · cases taken
    · cases taken
      split <;> rfl
  | takeSnapshot diskId snapFile ack =>
    cases taken
    split <;> rfl
  | inputSendEvent events =>
    cases taken
    simp [inputEvents]
  | releaseAllKeys =>
    cases taken
    simp [inputEvents]
  | _ =>
    cases taken
    rfl

theorem take_agrees {reply : Reply} {cmd : QmpCommand} {h next : CommandHandler}
    {actions : List Action} {sent : List InputEvent} (agrees : Agrees h sent)
    (taken : h.take reply cmd = some (next, actions)) :
    Agrees next (sent ++ inputEvents actions) := by
  intro key
  have before : decide (key ∈ h.heldKeys) = guestHolds sent key := by
    rw [Bool.eq_iff_iff, decide_eq_true_eq]
    exact agrees key
  rw [take_heldKeys taken, take_inputEvents taken, guestHolds, List.foldl_append]
  change _ ↔ List.foldl (keyAfter key) (guestHolds sent key) _ = true
  rw [← before]
  cases cmd with
  | inputSendEvent events => exact mem_foldl_holdKey h.heldKeys events key
  | releaseAllKeys =>
    rw [foldl_release]
    simp [heldAfter]
  | _ => simp [heldAfter]

end Monitor
