import WindowsGaming.Library.Runs
import WindowsGaming.SuspendWaiters

/- The host's own sleep. The login manager announces it and goes ahead once nobody holds a lock any
   more, or after a while in any case; the driver holds its lock until the guest is suspended. -/
namespace HostSleep
open Config Protocol Controller SuspendWaiters

inductive Phase where
  | awake
  | delaying
  | asleep
  deriving DecidableEq, Repr

structure Host where
  inhibitor : Inhibitor
  phase : Phase
  /-- The guest was suspended at some moment since the last announcement. -/
  slept : Bool
  deriving DecidableEq, Repr

def start (machine : MachineConfig) (hooks : HooksConfig) (input : Input) : Host :=
  ⟨.start machine hooks input, .awake, false⟩

inductive Label where
  | announce
  | sleep
  | timeout
  | wake
  | other
  | poll
  | call (env : Env) (op : Op)

def Host.signal (item : DbusItem) (h : Host) : Host :=
  { h with inhibitor := { h.inhibitor with items := h.inhibitor.items ++ [item] } }

def Host.goOn (inhibitor : Inhibitor) (h : Host) : Host :=
  { h with inhibitor, slept := h.slept || decide (inhibitor.controller.ga = .suspended) }

def hostStep (h : Host) : Label → Option Host
  | .announce =>
    if h.phase = .awake then
      let slept := decide (h.inhibitor.controller.ga = .suspended)
      some { h.signal (.prepareForSleep true) with phase := .delaying, slept }
    else none
  | .sleep =>
    if h.phase = .delaying ∧ h.inhibitor.fd = false then some { h with phase := .asleep } else none
  | .timeout => if h.phase = .delaying then some { h with phase := .asleep } else none
  | .wake =>
    if h.phase = .asleep then some { h.signal (.prepareForSleep false) with phase := .awake }
    else none
  | .other => some (h.signal .other)
  | .poll => h.inhibitor.poll.map h.goOn
  | .call env op =>
    some (h.goOn { h.inhibitor with controller := step env op h.inhibitor.controller })

def prepares : DbusItem → Option Bool
  | .prepareForSleep starting => some starting
  | .other => none

def Host.pending (h : Host) : List Bool := h.inhibitor.items.filterMap prepares

/-- A sleep is announced only when the driver is through with the one before. -/
def unhurried (h : Host) : Label → Bool
  | .announce => h.pending.isEmpty && h.inhibitor.callback.isNone
  | _ => true

structure Guarded (h : Host) : Prop where
  /-- The host may go ahead only after the guest. -/
  guestFirst : h.phase = .delaying → h.inhibitor.fd = false → h.slept = true
  /-- Once all is dealt with, the next sleep will be delayed. -/
  held : h.phase = .awake → h.pending = [] → h.inhibitor.callback = none → h.inhibitor.fd = true
  /-- When the guest is suspended, the driver gives way by itself. -/
  givesWay : h.phase = .delaying → ∀ env, ∃ polls t, (∀ l ∈ polls, l = .poll) ∧
    Runs.run hostStep h (.call env .qemuSuspended :: polls) = some t ∧ t.phase = .delaying ∧
      t.inhibitor.fd = false

def after : Phase → List Bool
  | .awake => [false]
  | .delaying | .asleep => []

inductive Stage (h : Host) : Prop where
  | idle (phase : h.phase = .awake) (pending : h.pending = []) (callback : h.inhibitor.callback = none)
      (fd : h.inhibitor.fd = true)
  | todo (pending : h.pending = true :: after h.phase) (callback : h.inhibitor.callback = none)
      (fd : h.inhibitor.fd = true)
  | waiting (future : SuspendFuture) (pending : h.pending = after h.phase)
      (callback : h.inhibitor.callback = some future) (fd : h.inhibitor.fd = true)
      (fate : stored h.inhibitor.controller future = true ∨
        resolved h.inhibitor.controller future = true ∧ h.slept = true)
  | done (pending : h.pending = after h.phase) (callback : h.inhibitor.callback = none)
      (fd : h.inhibitor.fd = false) (slept : h.slept = true)

structure Sound (h : Host) : Prop where
  orderly : Orderly h.inhibitor.controller
  running : h.inhibitor.running = true
  stage : Stage h

section Steps
variable {h t : Host}

theorem pending_signal (item : DbusItem) :
    (h.signal item).pending = h.pending ++ (prepares item).toList := by
  unfold Host.pending Host.signal
  rw [List.filterMap_append]
  cases item <;> rfl

theorem sound_announce (sound : Sound h) (ok : unhurried h .announce = true)
    (taken : hostStep h .announce = some t) : Sound t := by
  simp only [hostStep, Option.ite_none_right_eq_some, Option.some.injEq] at taken
  obtain ⟨awake, rfl⟩ := taken
  simp only [unhurried, Bool.and_eq_true, List.isEmpty_iff, Option.isNone_iff_eq_none] at ok
  obtain ⟨none_pending, no_callback⟩ := ok
  refine ⟨sound.orderly, sound.running, ?_⟩
  have announced : (h.signal (.prepareForSleep true)).pending = [true] := by
    rw [pending_signal, none_pending]
    rfl
  cases sound.stage with
  | idle _ _ callback fd => exact .todo announced callback fd
  | todo pending => simp [none_pending] at pending
  | waiting future _ callback => simp [no_callback] at callback
  | done pending => simp [none_pending, awake, after] at pending

theorem sound_asleep (sound : Sound h) (delaying : h.phase = .delaying) :
    Sound { h with phase := .asleep } := by
  refine ⟨sound.orderly, sound.running, ?_⟩
  have same : after h.phase = after .asleep := by rw [delaying]; rfl
  cases sound.stage with
  | idle awake => simp [delaying] at awake
  | todo pending callback fd => exact .todo (by rw [← same]; exact pending) callback fd
  | waiting future pending callback fd fate =>
    exact .waiting future (by rw [← same]; exact pending) callback fd fate
  | done pending callback fd slept => exact .done (by rw [← same]; exact pending) callback fd slept

theorem sound_wake (sound : Sound h) (taken : hostStep h .wake = some t) : Sound t := by
  simp only [hostStep, Option.ite_none_right_eq_some, Option.some.injEq] at taken
  obtain ⟨asleep, rfl⟩ := taken
  refine ⟨sound.orderly, sound.running, ?_⟩
  have told : (h.signal (.prepareForSleep false)).pending = h.pending ++ [false] :=
    pending_signal _
  have nothing : after h.phase = [] := by rw [asleep]; rfl
  cases sound.stage with
  | idle awake => simp [asleep] at awake
  | todo pending callback fd =>
    exact .todo (by rw [Host.pending] at told ⊢; rw [told, pending, nothing]; rfl) callback fd
  | waiting future pending callback fd fate =>
    exact .waiting future (by rw [Host.pending] at told ⊢; rw [told, pending, nothing]; rfl)
      callback fd fate
  | done pending callback fd slept =>
    exact .done (by rw [Host.pending] at told ⊢; rw [told, pending, nothing]; rfl) callback fd slept

theorem resolved_call (env : Env) (op : Op) {c : Controller} {future : SuspendFuture}
    (done : resolved c future = true) : resolved (step env op c) future = true := by
  cases future with
  | ready => rfl
  | waiting r =>
    rw [resolved_waiting] at done ⊢
    by_cases suspended : op = .qemuSuspended
    · subst suspended
      rw [suspended_fired]
      omega
    · rwa [step_fired env suspended]

theorem sound_call (env : Env) (op : Op) (sound : Sound h) :
    Sound (h.goOn { h.inhibitor with controller := step env op h.inhibitor.controller }) := by
  refine ⟨orderly_step env sound.orderly, sound.running, ?_⟩
  cases sound.stage with
  | idle awake pending callback fd => exact .idle awake pending callback fd
  | todo pending callback fd => exact .todo pending callback fd
  | done pending callback fd slept => exact .done pending callback fd (by simp [Host.goOn, slept])
  | waiting future pending callback fd fate =>
    refine .waiting future pending callback fd ?_
    rcases fate with waits | ⟨done, slept⟩
    · cases future with
      | ready => cases waits
      | waiting r =>
        have member : r ∈ h.inhibitor.controller.suspendSenders := by simpa [stored] using waits
        by_cases suspended : op = .qemuSuspended
        · subst suspended
          have released := stored_released env sound.orderly member
          refine Or.inr ⟨?_, by simp [Host.goOn, step, qemuSuspended]⟩
          rw [resolved_waiting]
          change fired r (step env .qemuSuspended h.inhibitor.controller) ≠ 0
          rw [released.once]
          exact Nat.one_ne_zero
        · exact Or.inl (decide_eq_true (stored_step env member suspended))
    · exact Or.inr ⟨resolved_call env op done, by simp [Host.goOn, slept]⟩

theorem sound_suspend {items : List DbusItem} (sound : Sound h)
    (head : h.inhibitor.items = .prepareForSleep true :: items)
    (callback : h.inhibitor.callback = none) :
    Sound (h.goOn { h.inhibitor with
      controller := h.inhibitor.controller.suspend.1
      items
      callback := some h.inhibitor.controller.suspend.2 }) := by
  have first : h.pending = true :: items.filterMap prepares := by simp [Host.pending, head, prepares]
  refine ⟨orderly_suspend .bare sound.orderly, sound.running, ?_⟩
  cases sound.stage with
  | idle _ pending => simp [first] at pending
  | waiting future _ waits => simp [callback] at waits
  | done pending =>
    rw [first] at pending
    cases phase : h.phase <;> simp [phase, after] at pending
  | todo pending _ fd =>
    refine .waiting _ (List.cons.inj (first.symm.trans pending)).2 rfl fd ?_
    by_cases sleeps : h.inhibitor.controller.ga = .suspended
    · right
      rw [(suspend_ready .bare sleeps).2]
      have same : h.inhibitor.controller.suspend.1 = h.inhibitor.controller :=
        (suspend_ready .bare sleeps).1
      exact ⟨rfl, by simp [Host.goOn, same, sleeps]⟩
    · left
      obtain ⟨senders, -, waits⟩ := suspend_stores .bare sleeps
      have member : h.inhibitor.controller.oneshots ∈
          h.inhibitor.controller.suspend.1.suspendSenders := by
        change _ ∈ (step .bare .suspend h.inhibitor.controller).suspendSenders
        simp [senders]
      rw [waits]
      exact decide_eq_true member

theorem sound_poll (sound : Sound h) (taken : hostStep h .poll = some t) : Sound t := by
  obtain ⟨inhibitor, polled, rfl⟩ := Option.map_eq_some_iff.mp taken
  rw [Inhibitor.poll, if_pos sound.running] at polled
  split at polled
  · rename_i future waits
    have stage := sound.stage
    cases stage with
    | idle _ _ callback => simp [callback] at waits
    | todo _ callback => simp [callback] at waits
    | done _ callback => simp [callback] at waits
    | waiting f pending callback fd fate =>
      cases callback.symm.trans waits
      split at polled
      · rename_i done
        cases polled
        rcases fate with kept | ⟨-, slept⟩
        · cases future with
          | ready => cases kept
          | waiting r =>
            have unfired := sound.orderly.unfired r (by simpa [stored] using kept)
            exact absurd unfired ((resolved_waiting r _).mp done)
        · exact ⟨sound.orderly, sound.running, .done pending rfl rfl (by simp [Host.goOn, slept])⟩
      · rename_i pending
        rcases fate with kept | ⟨done, -⟩
        · rw [if_pos kept] at polled
          cases polled
        · exact absurd done pending
  · rename_i callback
    split at polled
    · cases polled
    · rename_i items head
      cases polled
      exact sound_suspend sound head callback
    · rename_i items head
      cases polled
      have first : h.pending = false :: items.filterMap prepares := by
        simp [Host.pending, head, prepares]
      refine ⟨sound.orderly, sound.running, ?_⟩
      cases sound.stage with
      | idle _ pending => simp [first] at pending
      | todo pending => simp [first] at pending
      | waiting future _ waits => simp [callback] at waits
      | done pending =>
        rw [first] at pending
        cases phase : h.phase with
        | awake =>
          rw [phase] at pending
          exact .idle phase (List.cons.inj pending).2 callback rfl
        | delaying => simp [phase, after] at pending
        | asleep => simp [phase, after] at pending
    · rename_i items head
      cases polled
      have same : h.pending = items.filterMap prepares := by
        rw [Host.pending, head, List.filterMap_cons_none rfl]
      refine ⟨sound.orderly, sound.running, ?_⟩
      cases sound.stage with
      | idle awake pending _ fd => exact .idle awake (same.symm.trans pending) callback fd
      | todo pending _ fd => exact .todo (same.symm.trans pending) callback fd
      | waiting future _ waits => simp [callback] at waits
      | done pending _ fd slept =>
        exact .done (same.symm.trans pending) callback fd (by simp [Host.goOn, slept])

theorem sound_step {l : Label} (sound : Sound h) (ok : unhurried h l = true)
    (taken : hostStep h l = some t) : Sound t := by
  cases l with
  | announce => exact sound_announce sound ok taken
  | sleep =>
    simp only [hostStep, Option.ite_none_right_eq_some, Option.some.injEq] at taken
    obtain ⟨⟨delaying, -⟩, rfl⟩ := taken
    exact sound_asleep sound delaying
  | timeout =>
    simp only [hostStep, Option.ite_none_right_eq_some, Option.some.injEq] at taken
    obtain ⟨delaying, rfl⟩ := taken
    exact sound_asleep sound delaying
  | wake => exact sound_wake sound taken
  | other =>
    cases taken
    have same : (h.signal .other).pending = h.pending := by
      rw [pending_signal]
      exact List.append_nil _
    refine ⟨sound.orderly, sound.running, ?_⟩
    cases sound.stage with
    | idle awake pending callback fd => exact .idle awake (same.trans pending) callback fd
    | todo pending callback fd => exact .todo (same.trans pending) callback fd
    | waiting future pending callback fd fate =>
      exact .waiting future (same.trans pending) callback fd fate
    | done pending callback fd slept => exact .done (same.trans pending) callback fd slept
  | poll => exact sound_poll sound taken
  | call env op =>
    cases taken
    exact sound_call env op sound

end Steps

section GivingWay
variable {h t : Host}

def weight (h : Host) : Nat := 2 * h.inhibitor.items.length + h.inhibitor.callback.isSome.toNat

structure Slept (h : Host) : Prop where
  sound : Sound h
  ga : h.inhibitor.controller.ga = .suspended
  delaying : h.phase = .delaying

theorem poll_lighter (taken : hostStep h .poll = some t) : weight t < weight h := by
  obtain ⟨inhibitor, polled, rfl⟩ := Option.map_eq_some_iff.mp taken
  simp only [Inhibitor.poll] at polled
  split at polled
  · split at polled
    · rename_i future waits
      split at polled
      · cases polled
        simp [weight, Host.goOn, waits]
      · split at polled
        · cases polled
        · cases polled
          simp [weight, Host.goOn, waits]
    · rename_i callback
      split at polled
      · cases polled
      · rename_i items head
        cases polled
        simp [weight, Host.goOn, callback, head]
        omega
      · rename_i items head
        cases polled
        simp [weight, Host.goOn, callback, head]
      · rename_i items head
        cases polled
        simp [weight, Host.goOn, callback, head]
  · cases polled

theorem slept_poll (slept : Slept h) (taken : hostStep h .poll = some t) : Slept t := by
  have sound := sound_step slept.sound rfl taken
  obtain ⟨inhibitor, polled, rfl⟩ := Option.map_eq_some_iff.mp taken
  refine ⟨sound, ?_, slept.delaying⟩
  have still : h.inhibitor.controller.suspend.1 = h.inhibitor.controller :=
    (suspend_ready .bare slept.ga).1
  have kept : inhibitor.controller = h.inhibitor.controller := by
    simp only [Inhibitor.poll] at polled
    split at polled
    · split at polled
      · split at polled
        · cases polled
          rfl
        · split at polled
          · cases polled
          · cases polled
            rfl
      · split at polled
        · cases polled
        · cases polled
          exact still
        · cases polled
          rfl
        · cases polled
          rfl
    · cases polled
  change inhibitor.controller.ga = .suspended
  rw [kept, slept.ga]

theorem free_of_resting (slept : Slept h) (resting : hostStep h .poll = none) :
    h.inhibitor.fd = false := by
  have stuck : h.inhibitor.poll = none := Option.map_eq_none_iff.mp resting
  rw [Inhibitor.poll, if_pos slept.sound.running] at stuck
  cases slept.sound.stage with
  | idle awake => simp [slept.delaying] at awake
  | done _ _ fd => exact fd
  | todo pending callback =>
    simp only [callback] at stuck
    split at stuck
    · rename_i head
      simp [Host.pending, head] at pending
    · cases stuck
    · cases stuck
    · cases stuck
  | waiting future _ callback _ fate =>
    have unstored : stored h.inhibitor.controller future = false := by
      have nobody := slept.sound.orderly.idle slept.ga
      cases future with
      | ready => rfl
      | waiting r => simp [stored, nobody]
    simp only [callback, unstored] at stuck
    split at stuck <;> cases stuck

theorem gives_way (sound : Sound h) (delaying : h.phase = .delaying) (env : Env) :
    ∃ polls t, (∀ l ∈ polls, l = .poll) ∧
      Runs.run hostStep h (.call env .qemuSuspended :: polls) = some t ∧ t.phase = .delaying ∧
        t.inhibitor.fd = false := by
  have suspended : Slept (h.goOn { h.inhibitor with
      controller := step env .qemuSuspended h.inhibitor.controller }) :=
    ⟨sound_call env .qemuSuspended sound, rfl, delaying⟩
  have keeps : ∀ (s : Host) l t, Slept s → l = .poll → hostStep s l = some t → Slept t := by
    rintro s l t slept rfl taken
    exact slept_poll slept taken
  have lighter : ∀ (s : Host) l t, Slept s → l = .poll → hostStep s l = some t →
      weight t < weight s := by
    rintro s l t - rfl taken
    exact poll_lighter taken
  obtain ⟨polls, t, mine, reach, last, resting⟩ := Runs.settles keeps lighter _ suspended
  exact ⟨polls, t, mine, reach, last.delaying, free_of_resting last (resting .poll rfl)⟩

end GivingWay

theorem guarded_of_sound {h : Host} (sound : Sound h) : Guarded h := by
  refine ⟨?_, ?_, gives_way sound⟩
  · intro delaying free
    cases sound.stage with
    | idle awake => simp [delaying] at awake
    | todo _ _ fd => simp [free] at fd
    | waiting _ _ _ fd => simp [free] at fd
    | done _ _ _ slept => exact slept
  · intro awake none_pending no_callback
    cases sound.stage with
    | idle _ _ _ fd => exact fd
    | todo _ _ fd => exact fd
    | waiting _ _ _ fd => exact fd
    | done pending => simp [none_pending, awake, after] at pending

/-- The next sleep is announced while the driver still waits for the guest to be suspended for the
    one before: it lets go of the lock for a guest that is up again. -/
example :
    ((Runs.run hostStep (start .bare .bare (Input.new .bare))
      [.announce, .poll, .timeout, .call .bare .qemuSuspended, .call .bare .gaHello, .wake, .announce,
        .poll]).map fun h => (h.phase, h.inhibitor.fd, h.slept)) = some (.delaying, false, false) := by
  decide +kernel

end HostSleep
