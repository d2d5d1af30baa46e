import WindowsGaming.GuestAgent
import WindowsGaming.HostGrab

/- A request for full entry that has to wait for the guest agent. It is remembered in the
   I/O state while the guest boots and in the guest's state while it resumes. -/
namespace PendingUpgrade
open Config Protocol Controller HostGrab

/-- Operations that neither detach, nor ask for less, nor change the guest's power state. -/
def patient : Op → Bool
  | .ioAttach | .tryAttach | .gaPong | .mouseEdged _ _ => true
  | _ => false

/-- Full entry is asked for, and the guest agent says hello after some more operations. -/
def attachThenHello (env : Env) (ls : List (Env × Op)) (hello : Env) (c : Controller) : Controller :=
  ((operateAll ls (c.ioAttach env)).gaHello hello).1

def Promised (c : Controller) : Prop :=
  c.ioState = .awaitingUpgrade ∨ c.ioState = .fullEntry ∨ c.ga = .resuming true

/-- The guest wakes up for a light entry, and nothing remembers more. -/
def wakesLight (c : Controller) : Prop :=
  c.ga = .resuming false ∧ c.ioState ≠ .awaitingUpgrade ∧ c.ioState ≠ .fullEntry

instance : DecidablePred wakesLight := fun _ => inferInstanceAs (Decidable (_ ∧ _ ∧ _))

structure Kept (c : Controller) : Prop where
  promised : Promised c
  awake : c.ga ≠ .suspending ∧ c.ga ≠ .suspended

section Steps
variable {c : Controller} {op : Op}

theorem upgradeAwaited_ioState (env : Env) (up : c.ga = .up) :
    (c.upgradeAwaited env).ioState =
      if c.ioState = .awaitingUpgrade then .fullEntry else c.ioState := by
  unfold upgradeAwaited
  cases state : c.ioState <;> simp [ioAttach, up, state]

theorem lightAttach_full (env : Env) (up : c.ga = .up) :
    (c.lightAttach env).ioState = .fullEntry ↔ c.ioState = .fullEntry := by
  unfold lightAttach
  rw [up]
  cases state : c.ioState <;> simp [state]

theorem gaHello_full (hello : Env) (c : Controller) :
    (c.gaHello hello).1.ioState = .fullEntry ↔ Promised c := by
  have up : ((c.greet hello).upgradeAwaited hello).ga = .up :=
    upgradeAwaited_ga (c.greet hello) hello rfl
  have upgraded := upgradeAwaited_ioState (c := c.greet hello) hello rfl
  rw [greet_ioState] at upgraded
  have lit := lightAttach_full hello up
  have full : ((c.greet hello).upgradeAwaited hello).ioState = .fullEntry ↔
      c.ioState = .awaitingUpgrade ∨ c.ioState = .fullEntry := by
    rw [upgraded]
    by_cases awaiting : c.ioState = .awaitingUpgrade <;> simp [awaiting]
  unfold gaHello Promised
  generalize (c.greet hello).upgradeAwaited hello = greeted at lit full
  cases ga : c.ga with
  | resuming wanted =>
    cases wanted with
    | true => simp
    | false => simp [lit, full]
  | _ => simp [full]

theorem promised_ioAttach (env : Env) (awake : c.ga ≠ .suspending) :
    Promised (c.ioAttach env) ↔ ¬ wakesLight c := by
  unfold ioAttach Promised wakesLight
  cases ga : c.ga with
  | suspending => exact absurd ga awake
  | resuming wanted =>
    cases wanted with
    | true => simp [ga]
    | false =>
      simp only [ga]
      by_cases awaiting : c.ioState = .awaitingUpgrade <;> simp [awaiting]
  | _ => simp

theorem awake_ioAttach (env : Env) (awake : c.ga ≠ .suspending) :
    (c.ioAttach env).ga ≠ .suspending ∧ (c.ioAttach env).ga ≠ .suspended := by
  rw [GuestAgent.ioAttach_ga]
  split
  · simp
  · rename_i notSuspended
    exact ⟨awake, notSuspended⟩

theorem kept_step (env : Env) (kept : Kept c) (waits : patient op = true) : Kept (step env op c) := by
  obtain ⟨promised, notSuspending, notSuspended⟩ := kept
  cases op with
  | ioAttach =>
    refine ⟨(promised_ioAttach env notSuspending).mpr ?_, awake_ioAttach env notSuspending⟩
    rintro ⟨light, notAwaiting, notFull⟩
    rcases promised with awaiting | full | resuming
    · exact notAwaiting awaiting
    · exact notFull full
    · simp [light] at resuming
  | tryAttach =>
    simp only [step, tryAttach]
    split
    · exact ⟨Or.inr (Or.inl (ioForceAttach_ioState c env)), by simp [notSuspending, notSuspended]⟩
    · exact ⟨Or.inr (Or.inl (ioForceAttach_ioState c env)), by simp [notSuspending, notSuspended]⟩
    · exact ⟨promised, notSuspending, notSuspended⟩
  | gaPong =>
    simp only [step, gaPong]
    split
    · rename_i pinging
      refine ⟨?_, by simp⟩
      simpa [Promised, pinging] using promised
    · exact ⟨promised, notSuspending, notSuspended⟩
  | mouseEdged x y =>
    simp only [step, mouseEdged]
    split
    · exact ⟨promised, notSuspending, notSuspended⟩
    · exact ⟨promised, notSuspending, notSuspended⟩
  | _ => cases waits

theorem wakesLight_step (env : Env) (light : wakesLight c) (waits : patient op = true) :
    wakesLight (step env op c) := by
  obtain ⟨ga, state⟩ := light
  cases op with
  | ioAttach => simpa [step, ioAttach, wakesLight, ga] using state
  | tryAttach => simpa [step, tryAttach, wakesLight, ga] using state
  | gaPong => simpa [step, gaPong, wakesLight, ga] using state
  | mouseEdged x y =>
    simp only [step, mouseEdged]
    split <;> exact ⟨ga, state⟩
  | _ => cases waits

theorem kept_operateAll {ls : List (Env × Op)} (kept : Kept c)
    (waits : ∀ l ∈ ls, patient l.2 = true) : Kept (operateAll ls c) := by
  induction ls generalizing c with
  | nil => exact kept
  | cons l ls ih =>
    have stepped := kept_step l.1 kept (waits l List.mem_cons_self)
    exact ih stepped fun m member => waits m (List.mem_cons_of_mem l member)

theorem wakesLight_operateAll {ls : List (Env × Op)} (light : wakesLight c)
    (waits : ∀ l ∈ ls, patient l.2 = true) : wakesLight (operateAll ls c) := by
  induction ls generalizing c with
  | nil => exact light
  | cons l ls ih =>
    have stepped := wakesLight_step l.1 light (waits l List.mem_cons_self)
    exact ih stepped fun m member => waits m (List.mem_cons_of_mem l member)

theorem wakesLight_unpromised (light : wakesLight c) : ¬ Promised c := by
  obtain ⟨ga, notAwaiting, notFull⟩ := light
  rintro (awaiting | full | resuming)
  · exact notAwaiting awaiting
  · exact notFull full
  · simp [ga] at resuming

end Steps

/-- Whatever is asked for in between, the hello after a request for full entry leads to it
    exactly when the request does not meet a wake-up for a light entry. -/
theorem full_entry_remembered_iff (c : Controller) (env hello : Env) (ls : List (Env × Op))
    (awake : c.ga ≠ .suspending) (waits : ∀ l ∈ ls, patient l.2 = true) :
    (attachThenHello env ls hello c).ioState = .fullEntry ↔ ¬ wakesLight c := by
  unfold attachThenHello
  rw [gaHello_full]
  constructor
  · intro promised light
    have same : c.ioAttach env = c := by simp [ioAttach, light.1]
    rw [same] at promised
    exact wakesLight_unpromised (wakesLight_operateAll light waits) promised
  · intro heavy
    have kept : Kept (c.ioAttach env) :=
      ⟨(promised_ioAttach env awake).mpr heavy, awake_ioAttach env awake⟩
    exact (kept_operateAll kept waits).promised

theorem boot_remembers :
    (attachThenHello .bare [(.bare, .tryAttach), (.bare, .ioAttach)] .bare
      (new .bare .bare (Input.new .bare))).ioState = .fullEntry :=
  (full_entry_remembered_iff _ .bare .bare _ (by decide) (by decide)).mpr (by decide)

/-- A light attach wakes the guest up, and the full entry asked for meanwhile is forgotten. -/
theorem wakeup_forgets_full :
    ∃ c, Runs.run operate (new .bare .bare (Input.new .bare))
        [(.bare, .qemuSuspended), (.bare, .lightAttach)] = some c ∧
      c.ga ≠ .suspending ∧ (attachThenHello .bare [] .bare c).ioState ≠ .fullEntry :=
  ⟨_, rfl, by decide, by decide⟩

end PendingUpgrade
