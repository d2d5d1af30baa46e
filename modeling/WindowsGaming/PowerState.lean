import WindowsGaming.GuestAgent
import WindowsGaming.HeldKeys

/- The driver, QEMU and the guest with its agent, and what is on the way between them. The agent
   reports its boot and never its waking up, and the driver takes no notice of QEMU's WAKEUP. -/
namespace PowerState
open Config Protocol Controller Clientpipe GuestAgent
open HeldKeys (queued)

inductive QemuEvent where
  | suspend
  | wakeup
  deriving DecidableEq, Repr

structure Vm where
  driver : Driver
  events : List QemuEvent
  commands : List QmpCommand
  toGuest : List GaCmdOut
  toDriver : List GaCmdIn
  awake : Bool
  /-- The guest agent runs. It survives the guest's sleep. -/
  started : Bool
  deriving DecidableEq, Repr

def boot (machine : MachineConfig) (hooks : HooksConfig) : Vm :=
  { driver := ⟨new machine hooks (Input.new machine), 0⟩
    events := []
    commands := []
    toGuest := []
    toDriver := []
    awake := true
    started := false }

def Vm.send (v : Vm) : Vm :=
  let c := v.driver.controller
  { v with
    driver := { v.driver with controller := { c with out := [] } }
    commands := v.commands ++ c.out.filterMap queued
    toGuest := v.toGuest ++ c.out.filterMap toClientpipe }

def Vm.drive (e : GuestAgent.Event) (v : Vm) : Option Vm :=
  (driverStep v.driver e).map fun d => { v with driver := d }.send

def Vm.sleep (v : Vm) : Vm := { v with awake := false, events := v.events ++ [.suspend] }

def Vm.wake (v : Vm) : Vm := { v with awake := true, events := v.events ++ [.wakeup] }

def prompted : Op → Bool
  | .gaPing | .gaPong | .gaHello | .gaSuspending | .qemuSuspended => true
  | _ => false

/-- What the guest agent sends without being asked, apart from its boot report. -/
def volunteers : GaCmdIn → Bool
  | .hotKey _ | .clipboard _ => true
  | _ => false

inductive Event where
  | tick
  | call (env : Env) (op : Op)
  | hear (env : Env)
  | handle
  | execute
  | start
  /-- The guest agent handles the driver's oldest message. Windows may refuse to suspend. -/
  | serve (suspends : Bool)
  | volunteer (cmd : GaCmdIn)
  | sleep
  | wake

def Vm.handle (v : Vm) : Option Vm :=
  match v.events with
  | [] => none
  | .suspend :: events => { v with events }.drive (.call .bare .qemuSuspended)
  | .wakeup :: events => some { v with events }

def Vm.execute (v : Vm) : Option Vm :=
  match v.commands with
  | [] => none
  | .systemWakeup :: commands =>
    let v := { v with commands }
    some (if v.awake then v else v.wake)
  | _ :: commands => some { v with commands }

def Vm.serve (suspends : Bool) (v : Vm) : Option Vm :=
  match v.toGuest with
  | [] => none
  | .ping :: toGuest => some { v with toGuest, toDriver := v.toDriver ++ [.pong] }
  | .suspend :: toGuest =>
    let v := { v with toGuest }
    some (if suspends then v.sleep else v)
  | _ :: toGuest => some { v with toGuest }

def vmStep (v : Vm) : Event → Option Vm
  | .tick => v.drive .tick
  | .call env op => if prompted op then none else v.drive (.call env op)
  | .hear env =>
    match v.toDriver with
    | [] => none
    | cmd :: toDriver => { v with toDriver }.drive (.message env cmd)
  | .handle => v.handle
  | .execute => v.execute
  | .start =>
    if v.awake && !v.started then
      some { v with started := true, toDriver := v.toDriver ++ [.reportBoot] }
    else none
  | .serve suspends => if v.awake && v.started then v.serve suspends else none
  | .volunteer cmd =>
    if v.awake && v.started && volunteers cmd then some { v with toDriver := v.toDriver ++ [cmd] }
    else none
  | .sleep => if v.awake then some v.sleep else none
  | .wake => if v.awake then none else some v.wake

def believesAsleep : State → Bool
  | .suspended | .resuming _ => true
  | _ => false

def Quiet (v : Vm) : Prop := v.events = [] ∧ v.commands = [] ∧ v.toGuest = [] ∧ v.toDriver = []

/-- When nothing is on the way, the driver does not believe that an awake guest sleeps. -/
def Agrees (v : Vm) : Prop := Quiet v → v.awake = true → believesAsleep v.driver.controller.ga = false

instance : DecidablePred Quiet := fun _ => inferInstanceAs (Decidable (_ ∧ _ ∧ _ ∧ _))

instance : DecidablePred Agrees := fun v => inferInstanceAs
  (Decidable (Quiet v → v.awake = true → believesAsleep v.driver.controller.ga = false))

def wakes (v : Vm) : Event → Bool
  | .wake => true
  | .execute => v.commands.head? = some .systemWakeup && !v.awake
  | _ => false

def reportsSuspend (v : Vm) : Event → Bool
  | .handle => v.events.head? = some .suspend && v.awake
  | _ => false

/-- The guest wakes up, and QEMU's report of a sleep that is over arrives, only while the driver
    does not believe the guest asleep or the agent's boot report is still on the way. -/
def reported (v : Vm) (e : Event) : Prop :=
  (wakes v e = true → believesAsleep v.driver.controller.ga = true → .reportBoot ∈ v.toDriver) ∧
    (reportsSuspend v e = true → .reportBoot ∈ v.toDriver)

instance (v : Vm) (e : Event) : Decidable (reported v e) := inferInstanceAs (Decidable (_ ∧ _))

def Corrected (v : Vm) : Prop :=
  v.awake = true → believesAsleep v.driver.controller.ga = true → .reportBoot ∈ v.toDriver

instance : DecidablePred Corrected := fun v => inferInstanceAs (Decidable
  (v.awake = true → believesAsleep v.driver.controller.ga = true → .reportBoot ∈ v.toDriver))

section Steps
variable {v t : Vm} {c : Controller} {op : Op} {e : GuestAgent.Event}

structure Driven (v t : Vm) : Prop where
  awake : t.awake = v.awake
  toDriver : t.toDriver = v.toDriver
  asleep : believesAsleep t.driver.controller.ga = true → believesAsleep v.driver.controller.ga = true

theorem believesAsleep_nextGa (other : op ≠ .qemuSuspended)
    (asleep : believesAsleep (nextGa c op) = true) : believesAsleep c.ga = true := by
  cases op with
  | gaPing =>
    simp only [nextGa] at asleep
    split at asleep
    · cases asleep
    · cases asleep
    · exact asleep
  | gaPong =>
    simp only [nextGa] at asleep
    split at asleep
    · cases asleep
    · exact asleep
  | gaHello => cases asleep
  | gaSuspending => cases asleep
  | qemuSuspended => exact absurd rfl other
  | lightAttach =>
    simp only [nextGa] at asleep
    split at asleep
    · rename_i suspended
      rw [suspended]
      rfl
    · exact asleep
  | _ =>
    simp only [nextGa] at asleep
    split at asleep
    · rename_i upgraded
      rw [upgraded.2]
      rfl
    · exact asleep

theorem driven_of_ga {d : Driver} (asleep : believesAsleep d.controller.ga = true →
    believesAsleep v.driver.controller.ga = true) : Driven v { v with driver := d }.send :=
  ⟨rfl, rfl, asleep⟩

theorem driven_step (env : Env) (other : op ≠ .qemuSuspended)
    (asleep : believesAsleep (step env op c).ga = true) : believesAsleep c.ga = true := by
  rw [step_nextGa] at asleep
  exact believesAsleep_nextGa other asleep

theorem driven_call {env : Env} (other : op ≠ .qemuSuspended)
    (taken : v.drive (.call env op) = some t) : Driven v t := by
  obtain ⟨d, moved, rfl⟩ := Option.map_eq_some_iff.mp taken
  apply driven_of_ga
  simp only [driverStep] at moved
  split at moved
  · cases moved
  · cases moved
    exact driven_step env other

theorem driven_tick (taken : v.drive .tick = some t) : Driven v t := by
  obtain ⟨d, moved, rfl⟩ := Option.map_eq_some_iff.mp taken
  apply driven_of_ga
  simp only [driverStep] at moved
  split at moved
  · cases moved
  · cases moved
    intro asleep
    have pinged : believesAsleep (step .bare .gaPing v.driver.controller).ga = true := asleep
    exact driven_step .bare (by simp) pinged

theorem driven_message {env : Env} {cmd : GaCmdIn} (taken : v.drive (.message env cmd) = some t) :
    Driven v t ∧ (cmd = .reportBoot → believesAsleep t.driver.controller.ga = false) := by
  obtain ⟨d, moved, rfl⟩ := Option.map_eq_some_iff.mp taken
  cases moved
  refine ⟨driven_of_ga ?_, ?_⟩
  · intro asleep
    change believesAsleep (Clientpipe.handle env cmd v.driver.controller).1.ga = true at asleep
    rw [handle_controller] at asleep
    cases calls : called cmd with
    | none => rwa [calls] at asleep
    | some op =>
      simp only [calls] at asleep
      apply driven_step env ?_ asleep
      rintro rfl
      unfold called at calls
      split at calls <;> simp at calls
  · rintro rfl
    change believesAsleep (v.driver.controller.gaHello env).1.ga = false
    rw [gaHello_ga]
    rfl

theorem corrected_driven (corrected : Corrected v) (driven : Driven v t) : Corrected t := by
  intro awake asleep
  rw [driven.toDriver]
  exact corrected (driven.awake.symm.trans awake) (driven.asleep asleep)

theorem corrected_still (corrected : Corrected v) (driver : t.driver = v.driver)
    (awake : t.awake = true → v.awake = true)
    (kept : GaCmdIn.reportBoot ∈ v.toDriver → GaCmdIn.reportBoot ∈ t.toDriver) : Corrected t := by
  intro woke asleep
  rw [driver] at asleep
  exact kept (corrected (awake woke) asleep)

theorem corrected_hear {env : Env} {cmd : GaCmdIn} {toDriver : List GaCmdIn} (corrected : Corrected v)
    (oldest : v.toDriver = cmd :: toDriver)
    (taken : { v with toDriver }.drive (.message env cmd) = some t) : Corrected t := by
  obtain ⟨driven, booted⟩ := driven_message taken
  intro awake asleep
  have waits := corrected (driven.awake.symm.trans awake) (driven.asleep asleep)
  rw [oldest] at waits
  rw [driven.toDriver]
  rcases List.mem_cons.mp waits with now | later
  · exact absurd (asleep.symm.trans (booted now.symm)) (by simp)
  · exact later

theorem drive_suspended {events : List QemuEvent}
    (taken : { v with events }.drive (.call .bare .qemuSuspended) = some t) :
    t.awake = v.awake ∧ t.toDriver = v.toDriver ∧ t.driver.controller.ga = .suspended := by
  obtain ⟨d, moved, rfl⟩ := Option.map_eq_some_iff.mp taken
  cases moved
  exact ⟨rfl, rfl, rfl⟩

theorem corrected_handle (corrected : Corrected v) (ok : reported v .handle)
    (taken : v.handle = some t) : Corrected t := by
  unfold Vm.handle at taken
  split at taken
  · cases taken
  · rename_i events oldest
    obtain ⟨same, kept, _⟩ := drive_suspended taken
    intro awake _
    rw [kept]
    apply ok.2
    simp [reportsSuspend, oldest, ← same, awake]
  · cases taken
    exact corrected_still corrected rfl (fun awake => awake) fun waits => waits

theorem corrected_execute (corrected : Corrected v) (ok : reported v .execute)
    (taken : v.execute = some t) : Corrected t := by
  unfold Vm.execute at taken
  split at taken
  · cases taken
  · rename_i commands oldest
    cases taken
    cases awake : v.awake with
    | true => exact corrected_still corrected rfl (fun _ => awake) fun waits => waits
    | false => exact fun _ asleep => ok.1 (by simp [wakes, oldest, awake]) asleep
  · cases taken
    exact corrected_still corrected rfl (fun awake => awake) fun waits => waits

theorem corrected_serve {suspends : Bool} (corrected : Corrected v)
    (taken : v.serve suspends = some t) : Corrected t := by
  unfold Vm.serve at taken
  split at taken
  · cases taken
  · cases taken
    exact corrected_still corrected rfl (fun awake => awake) fun waits => List.mem_append_left _ waits
  · cases taken
    cases suspends with
    | true => exact nofun
    | false => exact corrected_still corrected rfl (fun awake => awake) fun waits => waits
  · cases taken
    exact corrected_still corrected rfl (fun awake => awake) fun waits => waits

theorem corrected_step {e : Event} (corrected : Corrected v) (ok : reported v e)
    (taken : vmStep v e = some t) : Corrected t := by
  cases e with
  | tick => exact corrected_driven corrected (driven_tick taken)
  | call env op =>
    simp only [vmStep] at taken
    split at taken
    · cases taken
    · rename_i unprompted
      apply corrected_driven corrected (driven_call ?_ taken)
      rintro rfl
      exact unprompted rfl
  | hear env =>
    simp only [vmStep] at taken
    split at taken
    · cases taken
    · rename_i cmd toDriver oldest
      exact corrected_hear corrected oldest taken
  | handle => exact corrected_handle corrected ok taken
  | execute => exact corrected_execute corrected ok taken
  | start =>
    simp only [vmStep] at taken
    split at taken
    · cases taken
      exact fun _ _ => List.mem_append_right _ (List.mem_singleton_self _)
    · cases taken
  | serve suspends =>
    simp only [vmStep] at taken
    split at taken
    · exact corrected_serve corrected taken
    · cases taken
  | volunteer cmd =>
    simp only [vmStep] at taken
    split at taken
    · cases taken
      exact corrected_still corrected rfl (fun awake => awake) fun waits => List.mem_append_left _ waits
    · cases taken
  | sleep =>
    simp only [vmStep] at taken
    split at taken
    · cases taken
      exact nofun
    · cases taken
  | wake =>
    simp only [vmStep] at taken
    split at taken
    · cases taken
    · cases taken
      exact fun _ asleep => ok.1 rfl asleep

/-- A step outside the condition leaves a driver that is wrong and that nothing will correct. -/
theorem reported_of_corrected {e : Event} (taken : vmStep v e = some t) (corrected : Corrected t) :
    reported v e := by
  constructor
  · intro woke asleep
    cases e with
    | wake =>
      simp only [vmStep] at taken
      split at taken
      · cases taken
      · cases taken
        exact corrected rfl asleep
    | execute =>
      simp only [wakes, Bool.and_eq_true, decide_eq_true_eq, Bool.not_eq_true'] at woke
      simp only [vmStep, Vm.execute] at taken
      split at taken
      · cases taken
      · cases taken
        rw [woke.2] at corrected
        exact corrected rfl asleep
      · rename_i cmd commands other oldest
        rw [oldest] at woke
        exact absurd (Option.some.inj woke.1) other
    | _ => cases woke
  · intro reports
    cases e with
    | handle =>
      simp only [reportsSuspend, Bool.and_eq_true, decide_eq_true_eq] at reports
      simp only [vmStep, Vm.handle] at taken
      split at taken
      · cases taken
      · obtain ⟨same, kept, suspended⟩ := drive_suspended taken
        rw [← kept]
        exact corrected (same.trans reports.2) (by rw [suspended]; rfl)
      · rename_i events oldest
        rw [oldest] at reports
        cases reports.1
    | _ => cases reports

theorem corrected_boot (machine : MachineConfig) (hooks : HooksConfig) :
    Corrected (boot machine hooks) := by
  intro _ asleep
  have down : believesAsleep (boot machine hooks).driver.controller.ga = false := rfl
  exact absurd (asleep.symm.trans down) (by simp)

theorem agrees_of_corrected (corrected : Corrected v) : Agrees v := by
  intro quiet awake
  by_contra asleep
  have waits := corrected awake (Bool.eq_true_of_not_eq_false asleep)
  rw [quiet.2.2.2] at waits
  cases waits

end Steps

/-- Wherever the driver is wrong along a run a boot report will tell it, exactly when every step of
    the run meets the condition. -/
theorem corrected_iff_reported (machine : MachineConfig) (hooks : HooksConfig) (es : List Event) :
    Runs.Always vmStep Corrected (boot machine hooks) es ↔
      Runs.Meets vmStep reported (boot machine hooks) es := by
  refine Runs.always_iff_meets Corrected ?_ (fun _ corrected => corrected) ?_
    (corrected_boot machine hooks) es
  · exact fun v e t corrected ok taken => corrected_step corrected ok taken
  · exact fun v e t _ taken corrected => reported_of_corrected taken corrected

/-- Driver and guest agree when nothing is on the way, as long as no sleep ends unnoticed. -/
theorem power_state_agrees (machine : MachineConfig) (hooks : HooksConfig) (es : List Event)
    (noticed : Runs.Meets vmStep reported (boot machine hooks) es) :
    Runs.Always vmStep Agrees (boot machine hooks) es :=
  Runs.always_mono (fun _ => agrees_of_corrected)
    ((corrected_iff_reported machine hooks es).mpr noticed)

theorem sleep_before_report : Runs.Always vmStep Agrees (boot .bare .bare)
    [.start, .sleep, .handle, .wake, .handle, .hear .bare] :=
  power_state_agrees .bare .bare _ (by decide +kernel)

/-- A guest that slept and woke up by itself is believed to be asleep. -/
theorem awake_guest_believed_asleep :
    ¬ Runs.Always vmStep Agrees (boot .bare .bare)
      [.start, .hear .bare, .sleep, .handle, .wake, .handle] := by
  decide +kernel

end PowerState
