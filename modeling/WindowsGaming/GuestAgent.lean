import WindowsGaming.Library.Runs
import WindowsGaming.Clientpipe
import WindowsGaming.Ownership

/- What the controller knows of the guest agent, and the timers that find out whether it
   still answers. -/
namespace GuestAgent
open Config Protocol Controller Clientpipe
open Ownership (hotkeyAction requestsUpgrade)

def awake (ga : State) : Prop := ga = .up ∨ ga = .pinging

instance (ga : State) : Decidable (awake ga) := inferInstanceAs (Decidable (_ ∨ _))

def timed : Op → Bool
  | .gaHello | .gaPing => true
  | _ => false

inductive Move (c : Controller) (op : Op) : State → Prop where
  | stay (quiet : timed op = true → op = .gaPing ∧ ¬ awake c.ga) : Move c op c.ga
  | pinged (asked : op = .gaPing) (up : c.ga = .up) : Move c op .pinging
  | died (asked : op = .gaPing) (pinging : c.ga = .pinging) : Move c op .down
  | answered (pinging : c.ga = .pinging) : Move c op .up
  | greeted (hello : op = .gaHello) : Move c op .up
  | suspending : Move c op .suspending
  | suspended : Move c op .suspended
  | woken (full : Bool) (suspended : c.ga = .suspended) : Move c op (.resuming full)

section Moves
variable {c : Controller} {op : Op}

theorem lightAttach_ga (env : Env) (c : Controller) :
    (c.lightAttach env).ga = if c.ga = .suspended then .resuming false else c.ga := by
  unfold lightAttach
  split
  · rename_i ga
    simp [ga]
  · rename_i ga
    simp [ga]
  · rename_i notSuspended
    rw [if_neg notSuspended]
    cases c.ioState <;> rfl

theorem ioAttach_ga (env : Env) (c : Controller) :
    (c.ioAttach env).ga = if c.ga = .suspended then .resuming true else c.ga := by
  unfold ioAttach
  cases ga : c.ga <;> simp [lightAttach_ga, ga]

theorem gaHello_ga (env : Env) (c : Controller) : (c.gaHello env).1.ga = .up := by
  have up := upgradeAwaited_ga (c.greet env) env rfl
  unfold gaHello
  generalize (c.greet env).upgradeAwaited env = greeted at up
  split
  · exact up
  · exact up
  · exact up
  · exact up
  · split <;> simp [lightAttach_ga, up]
  · exact up

theorem pingTimeout_ga (c : Controller) : c.pingTimeout.ga = c.ga := by
  unfold pingTimeout temporaryExit
  cases c.ioState <;> simp

theorem gaPing_ga (c : Controller) :
    c.gaPing.1.ga = match c.ga with
      | .pinging => .down
      | .up => .pinging
      | ga => ga := by
  unfold gaPing
  cases ga : c.ga with
  | pinging => exact pingTimeout_ga _
  | up => rfl
  | _ => exact ga

def nextGa (c : Controller) : Op → State
  | .gaPing =>
    match c.ga with
    | .pinging => .down
    | .up => .pinging
    | ga => ga
  | .gaPong => if c.ga = .pinging then .up else c.ga
  | .gaHello => .up
  | .gaSuspending => .suspending
  | .qemuSuspended => .suspended
  | .lightAttach => if c.ga = .suspended then .resuming false else c.ga
  | op => if requestsUpgrade c op = true ∧ c.ga = .suspended then .resuming true else c.ga

theorem gaHotkey_ga (env : Env) (index : UInt32) (c : Controller) :
    (c.gaHotkey env index).ga = nextGa c (.gaHotkey index) := by
  have kept : hotkeyAction c index ≠ some .ioUpgrade → nextGa c (.gaHotkey index) = c.ga := by
    intro other
    simp [nextGa, requestsUpgrade, other]
  unfold gaHotkey
  cases configured : c.machineConfig.hotkeys[index.toNat]?.map HotKey.action with
  | none => exact (kept (by simp [hotkeyAction, configured])).symm
  | some hotkey =>
    cases hotkey with
    | exec cmd => exact (kept (by simp [hotkeyAction, configured])).symm
    | action wanted =>
      cases state : c.ioState with
      | temporaryLightEntry sender =>
        exact (kept (by simp [hotkeyAction, configured, state])).symm
      | _ =>
        have carried : hotkeyAction c index = some wanted := by
          simp [hotkeyAction, configured, state]
        cases wanted with
        | ioUpgrade => simp [ioAttach_ga, nextGa, requestsUpgrade, carried]
        | ioEntryForced => simp [kept, carried]
        | ioExit => simp [kept, carried]

theorem temporaryEntry_ga (env : Env) (sender : Nat) (x y : Int32) (c : Controller) :
    (c.temporaryEntry env sender x y).1.ga = c.ga := by
  unfold temporaryEntry
  split
  · rename_i ga
    split
    · simp [lightAttach_ga, writeGa, emit, ga]
    · rfl
  · rename_i ga
    split
    · simp [lightAttach_ga, writeGa, emit, ga]
    · rfl
  · rfl

theorem step_nextGa (env : Env) (op : Op) (c : Controller) : (step env op c).ga = nextGa c op := by
  have kept : ∀ other : Op, requestsUpgrade c other = false →
      (if requestsUpgrade c other = true ∧ c.ga = .suspended then .resuming true else c.ga) = c.ga := by
    intro other refused
    simp [refused]
  cases op with
  | gaPing => exact gaPing_ga c
  | gaPong =>
    simp only [step, gaPong, nextGa]
    split <;> rfl
  | gaHello => exact gaHello_ga env c
  | gaSuspending => rfl
  | qemuSuspended => rfl
  | gaHotkey index => exact gaHotkey_ga env index c
  | ioAttach => simp [step, ioAttach_ga, nextGa, requestsUpgrade]
  | tryAttach =>
    refine Eq.trans ?_ (kept .tryAttach rfl).symm
    simp only [step, tryAttach]
    split <;> simp
  | temporaryEntry sender x y =>
    exact (temporaryEntry_ga env sender x y c).trans (kept (.temporaryEntry sender x y) rfl).symm
  | temporaryExit =>
    refine Eq.trans ?_ (kept .temporaryExit rfl).symm
    simp only [step, temporaryExit]
    split <;> simp
  | lightAttach => exact lightAttach_ga env c
  | ioForceAttach => exact (ioForceAttach_ga c env).trans (kept .ioForceAttach rfl).symm
  | suspend =>
    refine Eq.trans ?_ (kept .suspend rfl).symm
    simp only [step, suspend]
    split
    · rfl
    · split <;> rfl
  | ioDetach => exact (ioDetach_ga c).trans (kept .ioDetach rfl).symm
  | shutdown =>
    refine Eq.trans ?_ (kept .shutdown rfl).symm
    simp only [step, shutdown]
    split <;> rfl
  | respondX11Clipboard buf =>
    refine Eq.trans ?_ (kept (.respondX11Clipboard buf) rfl).symm
    simp only [step, respondX11Clipboard]
    split <;> rfl
  | mouseEdged x y =>
    refine Eq.trans ?_ (kept (.mouseEdged x y) rfl).symm
    simp only [step, mouseEdged]
    split <;> rfl
  | _ => rfl

theorem move_same (untimed : timed op = false) : Move c op c.ga := .stay (by simp [untimed])

theorem step_ga (env : Env) (op : Op) (c : Controller) : Move c op (step env op c).ga := by
  rw [step_nextGa]
  cases op with
  | gaPing =>
    simp only [nextGa]
    split
    · rename_i ga
      exact .died rfl ga
    · rename_i ga
      exact .pinged rfl ga
    · rename_i notPinging notUp
      refine .stay fun _ => ⟨rfl, ?_⟩
      rintro (up | pinging)
      · exact notUp up
      · exact notPinging pinging
  | gaPong =>
    simp only [nextGa]
    split
    · rename_i pinging
      exact .answered pinging
    · exact move_same rfl
  | gaHello => exact .greeted rfl
  | gaSuspending => exact .suspending
  | qemuSuspended => exact .suspended
  | lightAttach =>
    simp only [nextGa]
    split
    · rename_i suspended
      exact .woken false suspended
    · exact move_same rfl
  | _ =>
    simp only [nextGa]
    split
    · rename_i asked
      exact .woken true asked.2
    · exact move_same rfl

end Moves

/-- The controller with the ping timers that are alive. -/
structure Driver where
  controller : Controller
  timers : Nat
  deriving DecidableEq, Repr

inductive Event where
  | message (env : Env) (cmd : GaCmdIn)
  | tick
  | call (env : Env) (op : Op)

def Driver.hear (env : Env) (cmd : GaCmdIn) (d : Driver) : Driver :=
  let (controller, starts) := handle env cmd d.controller
  ⟨controller, if starts then d.timers + 1 else d.timers⟩

def Driver.tick (d : Driver) : Driver :=
  let (controller, goesOn) := d.controller.gaPing
  ⟨controller, if goesOn then d.timers else d.timers - 1⟩

def driverStep (d : Driver) : Event → Option Driver
  | .message env cmd => some (d.hear env cmd)
  | .tick => if d.timers = 0 then none else some d.tick
  | .call env op =>
    if timed op then none else some { d with controller := step env op d.controller }

def OneTimer (d : Driver) : Prop :=
  d.timers ≤ 1 ∧ (awake d.controller.ga → d.timers = 1)

instance : DecidablePred OneTimer := fun _ => inferInstanceAs (Decidable (_ ∧ _))

/-- A guest agent that reports its boot after a suspend finds the old timer gone; one that
    reports it while it is about to suspend finds the timer there. -/
def timely (d : Driver) : Event → Prop
  | .message _ .reportBoot =>
    (d.controller.ga = .suspended → d.timers = 0) ∧
      (∀ full, d.controller.ga = .resuming full → d.timers = 0) ∧
      (d.controller.ga = .suspending → d.timers = 1)
  | _ => True

def Tracked (d : Driver) : Prop := OneTimer d ∧ (d.controller.ga = .down → d.timers = 0)

theorem tracked_moved {d : Driver} (tracked : Tracked d) (env : Env) {op : Op}
    (untimed : timed op = false) :
    Tracked { d with controller := step env op d.controller } := by
  obtain ⟨⟨most, alive⟩, dead⟩ := tracked
  have moved := step_ga env op d.controller
  unfold Tracked OneTimer
  simp only
  generalize (step env op d.controller).ga = ga at moved ⊢
  cases moved with
  | stay => exact ⟨⟨most, alive⟩, dead⟩
  | pinged asked up =>
    subst asked
    cases untimed
  | died asked pinging =>
    subst asked
    cases untimed
  | answered pinging => exact ⟨⟨most, fun _ => alive (Or.inr pinging)⟩, nofun⟩
  | greeted hello =>
    subst hello
    cases untimed
  | suspending => exact ⟨⟨most, by simp [awake]⟩, nofun⟩
  | suspended => exact ⟨⟨most, by simp [awake]⟩, nofun⟩
  | woken full suspended => exact ⟨⟨most, by simp [awake]⟩, nofun⟩

theorem tracked_tick {d : Driver} (tracked : Tracked d) (ticks : d.timers ≠ 0) :
    Tracked d.tick := by
  obtain ⟨⟨most, alive⟩, dead⟩ := tracked
  have one : d.timers = 1 := by omega
  have ga := gaPing_ga d.controller
  unfold Tracked OneTimer awake Driver.tick
  simp only [ga, one]
  unfold gaPing
  cases state : d.controller.ga <;> simp

theorem gaHello_starts (env : Env) (c : Controller) :
    (c.gaHello env).2 = true ↔
      c.ga = .down ∨ c.ga = .suspended ∨ ∃ full, c.ga = .resuming full := by
  unfold gaHello
  cases c.ga <;> simp

theorem hear_boot (env : Env) (d : Driver) :
    (d.hear env .reportBoot).controller.ga = .up ∧
      (d.hear env .reportBoot).timers =
        if (d.controller.gaHello env).2 then d.timers + 1 else d.timers :=
  ⟨gaHello_ga env d.controller, rfl⟩

theorem hello_timely {d : Driver} (tracked : Tracked d) (env : Env) :
    OneTimer (d.hear env .reportBoot) ↔ timely d (.message env .reportBoot) := by
  obtain ⟨⟨most, alive⟩, dead⟩ := tracked
  obtain ⟨up, timers⟩ := hear_boot env d
  have starts := gaHello_starts env d.controller
  unfold OneTimer timely
  rw [up, timers]
  simp only [awake] at alive ⊢
  cases state : d.controller.ga <;> simp_all

theorem called_untimed {cmd : GaCmdIn} (other : cmd ≠ .reportBoot) {op : Op}
    (calls : called cmd = some op) : timed op = false := by
  unfold called at calls
  split at calls
  · exact absurd rfl other
  case h_7 =>
    obtain ⟨kind, _, rfl⟩ := Option.map_eq_some_iff.mp calls
    rfl
  all_goals
    cases calls
  all_goals rfl

theorem hear_other {d : Driver} (tracked : Tracked d) (env : Env) {cmd : GaCmdIn}
    (other : cmd ≠ .reportBoot) : Tracked (d.hear env cmd) := by
  have quiet : (handle env cmd d.controller).2 = false := by
    by_contra starts
    exact other (handle_starts (Bool.eq_true_of_not_eq_false starts))
  have heard : d.hear env cmd = { d with controller := (handle env cmd d.controller).1 } := by
    simp [Driver.hear, quiet]
  rw [heard, handle_controller]
  cases calls : called cmd with
  | none => exact tracked
  | some op => exact tracked_moved tracked env (called_untimed other calls)

theorem tracked_step {d next : Driver} {e : Event} (tracked : Tracked d) (ok : timely d e)
    (taken : driverStep d e = some next) : Tracked next := by
  cases e with
  | message env cmd =>
    cases taken
    by_cases boot : cmd = .reportBoot
    · subst boot
      refine ⟨(hello_timely tracked env).mpr ok, ?_⟩
      intro down
      rw [(hear_boot env d).1] at down
      cases down
    · exact hear_other tracked env boot
  | tick =>
    simp only [driverStep] at taken
    split at taken
    · cases taken
    · rename_i ticks
      cases taken
      exact tracked_tick tracked ticks
  | call env op =>
    simp only [driverStep] at taken
    split at taken
    · cases taken
    · rename_i untimed
      cases taken
      exact tracked_moved tracked env (Bool.eq_false_of_not_eq_true untimed)

/-- There is one timer for a guest agent that is up, and never a second one, along a run
    exactly when every boot report of the run is timely. -/
theorem one_timer_iff (machine : MachineConfig) (hooks : HooksConfig) (es : List Event) :
    Runs.Always driverStep OneTimer ⟨new machine hooks (Input.new machine), 0⟩ es ↔
      Runs.Meets driverStep timely ⟨new machine hooks (Input.new machine), 0⟩ es := by
  refine Runs.always_iff_meets Tracked ?_ ?_ ?_ ?_ es
  · intro d e next tracked ok taken
    exact tracked_step tracked ok taken
  · exact fun d tracked => tracked.1
  · intro d e next tracked taken one
    cases e with
    | message env cmd =>
      by_cases boot : cmd = .reportBoot
      · subst boot
        cases taken
        exact (hello_timely tracked env).mp one
      · cases cmd <;> first | exact absurd rfl boot | trivial
    | tick => trivial
    | call env op => trivial
  · refine ⟨⟨Nat.zero_le 1, ?_⟩, fun _ => rfl⟩
    rintro (up | pinging)
    · cases up
    · cases pinging

/-- A guest that suspends and wakes up between two ticks is pinged by two timers. -/
theorem second_timer :
    ¬ Runs.Always driverStep OneTimer ⟨new .bare .bare (Input.new .bare), 0⟩
      [.message .bare .reportBoot, .message .bare .suspending, .call .bare .qemuSuspended,
        .call .bare .ioAttach, .message .bare .reportBoot] := by
  decide

end GuestAgent
