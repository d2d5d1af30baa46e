import WindowsGaming.GuestAgent
import WindowsGaming.HostGrab

/- The devices of a guest that sleeps or is about to. The guest agent says so with a message,
   QEMU with an event, and either may come without the other. -/
namespace SleepingGuest
open Config Protocol Controller Ownership HostGrab

def asleep (ga : State) : Prop := ga = .suspending ∨ ga = .suspended

instance (ga : State) : Decidable (asleep ga) := inferInstanceAs (Decidable (_ ∨ _))

/-- `io_force_attach` is asked for by name, not through another operation. -/
def forcesDirectly (c : Controller) : Op → Bool
  | .ioForceAttach => true
  | .gaHotkey index => hotkeyAction c index = some .ioEntryForced
  | _ => false

def HoldsNothing (c : Controller) : Prop := asleep c.ga → c.ioState = .detached

instance : DecidablePred HoldsNothing := fun _ => inferInstanceAs (Decidable (_ → _))

def indirect (c : Controller) (l : Env × Op) : Prop := asleep c.ga → forcesDirectly c l.2 = false

/-- QEMU reports the suspend of a guest that has given its devices back. -/
def released (c : Controller) (l : Env × Op) : Prop := l.2 = .qemuSuspended → c.ioState = .detached

section Steps
variable {c : Controller} {op : Op}

theorem asleep_ioAttach (env : Env) (sleeps : asleep c.ga) :
    (c.ioAttach env).ioState = c.ioState := by
  unfold ioAttach
  rcases sleeps with ga | ga
  · rw [ga]
  · rw [ga]
    rfl

theorem asleep_lightAttach (env : Env) (sleeps : asleep c.ga) :
    (c.lightAttach env).ioState = c.ioState := by
  unfold lightAttach
  rcases sleeps with ga | ga
  · rw [ga]
  · rw [ga]
    rfl

theorem asleep_gaHotkey (env : Env) (index : UInt32) (sleeps : asleep c.ga)
    (idle : c.ioState = .detached) (direct : forcesDirectly c (.gaHotkey index) = false) :
    (c.gaHotkey env index).ioState = .detached := by
  have unforced : hotkeyAction c index ≠ some .ioEntryForced := of_decide_eq_false direct
  unfold gaHotkey
  unfold hotkeyAction at unforced
  split
  · exact idle
  · rename_i action configured
    simp only [configured, idle] at unforced ⊢
    cases action with
    | ioUpgrade => exact (asleep_ioAttach env sleeps).trans idle
    | ioEntryForced => exact absurd rfl unforced
    | ioExit => rfl
  · exact idle

theorem asleep_step (env : Env) (sleeps : asleep c.ga) (idle : c.ioState = .detached)
    (direct : forcesDirectly c op = false) (other : op ≠ .gaHello) :
    (step env op c).ioState = .detached := by
  cases op with
  | gaPing => rcases sleeps with ga | ga <;> simp [step, gaPing, ga, idle]
  | gaPong => rcases sleeps with ga | ga <;> simp [step, gaPong, ga, idle]
  | gaHello => exact absurd rfl other
  | gaHotkey index => exact asleep_gaHotkey env index sleeps idle direct
  | ioAttach => exact (asleep_ioAttach env sleeps).trans idle
  | tryAttach => rcases sleeps with ga | ga <;> simp [step, tryAttach, ga, idle]
  | temporaryEntry sender x y =>
    rcases sleeps with ga | ga <;> simp [step, temporaryEntry, ga, idle]
  | temporaryExit => simp [step, Controller.temporaryExit, idle]
  | lightAttach => exact (asleep_lightAttach env sleeps).trans idle
  | ioForceAttach => cases direct
  | suspend =>
    simp only [step, suspend]
    split
    · exact idle
    · split <;> exact idle
  | shutdown =>
    simp only [step, shutdown]
    split <;> exact idle
  | respondX11Clipboard buf =>
    simp only [step, respondX11Clipboard]
    split <;> exact idle
  | mouseEdged x y => simp [step, mouseEdged, idle]
  | gaSuspending => rfl
  | ioDetach => rfl
  | _ => exact idle

theorem falls_asleep (env : Env) (sleeps : asleep (step env op c).ga) (other : ¬ asleep c.ga) :
    op = .gaSuspending ∨ op = .qemuSuspended := by
  rw [GuestAgent.step_nextGa] at sleeps
  unfold GuestAgent.nextGa at sleeps
  cases op with
  | gaSuspending => exact Or.inl rfl
  | qemuSuspended => exact Or.inr rfl
  | gaPing => cases ga : c.ga <;> simp [asleep, ga] at sleeps other
  | gaHello => simp [asleep] at sleeps
  | _ =>
    simp only at sleeps
    split at sleeps
    · simp [asleep] at sleeps
    · exact absurd sleeps other

theorem holdsNothing_step (env : Env) (holds : HoldsNothing c) (may : indirect c (env, op))
    (ok : released c (env, op)) : HoldsNothing (step env op c) := by
  intro sleeps
  by_cases before : asleep c.ga
  · by_cases hello : op = .gaHello
    · subst hello
      rw [GuestAgent.step_nextGa] at sleeps
      simp [GuestAgent.nextGa, asleep] at sleeps
    · exact asleep_step env before (holds before) (may before) hello
  · rcases falls_asleep env sleeps before with rfl | rfl
    · rfl
    · exact ok rfl

end Steps

/-- In a run that forces no entry on a sleeping guest, such a guest holds nothing exactly when
    every suspend that QEMU reports finds the devices given back. -/
theorem sleeping_holds_nothing_iff (machine : MachineConfig) (hooks : HooksConfig) (input : Input)
    (ls : List (Env × Op)) (unforced : Runs.Meets operate indirect (new machine hooks input) ls) :
    Runs.Always operate HoldsNothing (new machine hooks input) ls ↔
      Runs.Meets operate released (new machine hooks input) ls := by
  refine Runs.always_iff_meets_within HoldsNothing ?_ (fun _ holds => holds) ?_ (fun _ => rfl)
    unforced
  · rintro c ⟨env, op⟩ d holds may ok taken
    cases taken
    exact holdsNothing_step env holds may ok
  · rintro c ⟨env, op⟩ d _ _ taken holds asked
    cases asked
    cases taken
    exact holds (Or.inr rfl)

instance (c : Controller) (l : Env × Op) : Decidable (indirect c l) :=
  inferInstanceAs (Decidable (_ → _))

instance (c : Controller) (l : Env × Op) : Decidable (released c l) :=
  inferInstanceAs (Decidable (_ → _))

theorem nothing_held_in_turn :
    Runs.Always operate HoldsNothing (new .bare .bare (Input.new .bare))
      [(.bare, .gaHello), (.bare, .ioAttach), (.bare, .gaSuspending), (.bare, .ioAttach),
        (.bare, .qemuSuspended), (.bare, .lightAttach), (.bare, .gaHello)] :=
  (sleeping_holds_nothing_iff .bare .bare (Input.new .bare) _ (by decide)).mpr (by decide)

/-- QEMU suspends a guest whose agent said nothing, and the devices stay attached. -/
theorem suspended_with_devices :
    Runs.Meets operate indirect (new .bare .bare (Input.new .bare))
        [(.bare, .gaHello), (.bare, .ioAttach), (.bare, .qemuSuspended)] ∧
      ¬ Runs.Always operate HoldsNothing (new .bare .bare (Input.new .bare))
        [(.bare, .gaHello), (.bare, .ioAttach), (.bare, .qemuSuspended)] := by
  decide

end SleepingGuest
