import WindowsGaming.Controller

/- What all operations leave alone except `suspend` and QEMU's event: they neither write the command
   to suspend nor touch those who wait for the guest to be suspended. -/
namespace SuspendFrames
open Config Protocol Controller

structure Still (c d : Controller) : Prop where
  out : ∃ more, d.out = c.out ++ more ∧ .clientpipe .suspend ∉ more
  senders : d.suspendSenders = c.suspendSenders
  oneshots : c.oneshots ≤ d.oneshots

section Frames
variable {c d : Controller}

theorem still_same (out : d.out = c.out) (senders : d.suspendSenders = c.suspendSenders)
    (oneshots : d.oneshots = c.oneshots) : Still c d :=
  ⟨⟨[], by simpa using out⟩, senders, Nat.le_of_eq oneshots.symm⟩

theorem still_refl (c : Controller) : Still c c := still_same rfl rfl rfl

theorem still_trans {b : Controller} (h : Still b c) (k : Still c d) : Still b d := by
  obtain ⟨first, grown, none⟩ := h.out
  obtain ⟨second, grew, nothing⟩ := k.out
  refine ⟨⟨first ++ second, ?_, ?_⟩, k.senders.trans h.senders, Nat.le_trans h.oneshots k.oneshots⟩
  · rw [grew, grown, List.append_assoc]
  · rw [List.mem_append]
    rintro (old | new)
    · exact none old
    · exact nothing new

theorem still_emitAll (c : Controller) {es : List Effect} (plain : .clientpipe .suspend ∉ es) :
    Still c (c.emitAll es) := ⟨⟨es, rfl, plain⟩, rfl, Nat.le_refl _⟩

theorem still_emit (c : Controller) {e : Effect} (plain : e ≠ .clientpipe .suspend) :
    Still c (c.emit e) := still_emitAll c (by simpa using plain.symm)

theorem still_runHook (c : Controller) (hook : Option String) : Still c (c.runHook hook) :=
  still_emitAll c (by simp)

theorem still_prepareEntry (c : Controller) : Still c c.prepareEntry :=
  still_trans (still_emit c (by simp)) (still_runHook _ _)

theorem still_suspendInput (c : Controller) : Still c c.suspendInput :=
  ⟨⟨_, rfl, by simp⟩, rfl, Nat.le_refl _⟩

theorem still_resumeInput (env : Env) (c : Controller) : Still c (c.resumeInput env) :=
  ⟨⟨_, rfl, by simp⟩, rfl, Nat.le_refl _⟩

theorem still_releasing (c : Controller) : Still c (c.suspendInput.toMonitor .releaseAllKeys) :=
  still_trans (still_suspendInput c) (still_emit _ (by simp))

theorem still_states (h : Still c d) (ga : State) (ioState : IoState) :
    Still c { d with ga, ioState } := ⟨h.out, h.senders, h.oneshots⟩

theorem still_ioDetach (c : Controller) : Still c c.ioDetach := by
  unfold ioDetach
  refine still_trans ?_ (still_runHook _ _)
  cases c.ioState with
  | detached => exact still_states (still_refl c) _ _
  | fullEntry => exact still_states (still_emitAll c (by simp)) _ _
  | _ => exact still_states (still_releasing c) _ _

theorem still_enterFull (env : Env) (c : Controller) : Still c (c.enterFull env) := by
  have added : Still c.prepareEntry (c.prepareEntry.emitAll
      ((deviceAdds env c.machineConfig.usbDevices).map .monitor)) := still_emitAll _ (by simp)
  exact still_states (still_trans (still_prepareEntry c) added) _ _

theorem still_ioForceAttach (env : Env) (c : Controller) : Still c (c.ioForceAttach env) := by
  unfold ioForceAttach
  cases c.ioState with
  | detached => exact still_enterFull env c
  | fullEntry => exact still_refl c
  | temporaryLightEntry sender =>
    have parted := still_emit c.suspendInput (e := .temporary sender .temporaryLightDetached) (by simp)
    exact still_trans (still_trans (still_suspendInput c) parted) (still_enterFull env _)
  | _ => exact still_trans (still_releasing c) (still_enterFull env _)

theorem still_lightAttach (env : Env) (c : Controller) : Still c (c.lightAttach env) := by
  have woken : Still c (c.toMonitor .systemWakeup) := still_emit c (by simp)
  have entered : Still c (c.prepareEntry.resumeInput env) :=
    still_trans (still_prepareEntry c) (still_resumeInput env _)
  unfold lightAttach
  cases c.ga with
  | suspending => exact still_refl c
  | suspended => exact still_states woken _ _
  | _ =>
    cases c.ioState with
    | detached => exact still_states entered _ _
    | awaitingUpgrade => exact still_states (still_refl c) _ _
    | _ => exact still_refl c

theorem still_ioAttach (env : Env) (c : Controller) : Still c (c.ioAttach env) := by
  have woken : Still c (c.toMonitor .systemWakeup) := still_emit c (by simp)
  unfold ioAttach
  cases c.ga with
  | down => exact still_states (still_lightAttach env c) _ _
  | suspended => exact still_states woken _ _
  | up => exact still_ioForceAttach env c
  | pinging => exact still_ioForceAttach env c
  | _ => exact still_refl c

theorem still_temporaryExit (c : Controller) : Still c c.temporaryExit := by
  unfold Controller.temporaryExit
  split
  · exact still_ioDetach c
  · exact still_refl c

theorem still_pingTimeout (c : Controller) : Still c c.pingTimeout := by
  unfold pingTimeout
  split
  · exact still_ioDetach c
  · exact still_temporaryExit c
  · exact still_refl c

theorem still_gaPing (c : Controller) : Still c c.gaPing.1 := by
  have down : Still c { c with ga := .down } := still_states (still_refl c) _ _
  have pinged : Still c { c with ga := .pinging } := still_states (still_refl c) _ _
  unfold gaPing
  split
  · exact still_trans down (still_pingTimeout _)
  · exact still_trans pinged (still_emit _ (by simp))
  · exact still_refl c

theorem still_greet (env : Env) (c : Controller) : Still c (c.greet env) := by
  have plain : .clientpipe .suspend ∉ helloEffects env c.machineConfig := by
    simp [helloEffects, registerHotKeys]
  exact still_states (still_emitAll c plain) _ _

theorem still_gaHello (env : Env) (c : Controller) : Still c (c.gaHello env).1 := by
  have upgraded : Still c ((c.greet env).upgradeAwaited env) := by
    unfold upgradeAwaited
    split
    · exact still_trans (still_greet env c) (still_ioAttach env _)
    · exact still_greet env c
  unfold gaHello
  cases c.ga with
  | resuming full =>
    cases full with
    | false => exact still_trans upgraded (still_lightAttach env _)
    | true => exact still_trans upgraded (still_ioForceAttach env _)
  | _ => exact upgraded

theorem still_gaHotkey (env : Env) (index : UInt32) (c : Controller) :
    Still c (c.gaHotkey env index) := by
  unfold gaHotkey
  split
  · exact still_refl c
  · split
    · exact still_refl c
    · split
      · exact still_ioAttach env c
      · exact still_ioForceAttach env c
      · exact still_ioDetach c
  · exact still_emit c (by simp)

theorem still_temporaryEntry (env : Env) (sender : Nat) (x y : Int32) (c : Controller) :
    Still c (c.temporaryEntry env sender x y).1 := by
  have positioned : Still c (c.writeGa (.setMousePosition ⟨x, y⟩)) := still_emit c (by simp)
  have entered := still_trans positioned (still_lightAttach env _)
  unfold temporaryEntry
  cases c.ga with
  | up | pinging =>
    cases c.ioState with
    | detached => exact still_states entered _ _
    | _ => exact still_refl c
  | _ => exact still_refl c

theorem still_queueForDisks (command : Nat → String → Nat → QmpCommand) (disks : List (Nat × String))
    (ack : Nat) (c : Controller) : Still c (c.queueForDisks command disks ack) :=
  ⟨⟨_, rfl, by simp⟩, rfl, Nat.le_add_right _ _⟩

theorem step_still (env : Env) {op : Op} (other : op ≠ .suspend ∧ op ≠ .qemuSuspended) :
    Still c (step env op c) := by
  cases op with
  | suspend => exact absurd rfl other.1
  | qemuSuspended => exact absurd rfl other.2
  | gaHello => exact still_gaHello env c
  | gaPing => exact still_gaPing c
  | gaPong =>
    simp only [step, gaPong]
    split
    · exact still_states (still_refl c) _ _
    · exact still_refl c
  | gaSuspending => exact still_states (still_ioDetach c) _ _
  | gaHotkey index => exact still_gaHotkey env index c
  | ioAttach => exact still_ioAttach env c
  | tryAttach =>
    simp only [step, tryAttach]
    split
    · exact still_ioForceAttach env c
    · exact still_ioForceAttach env c
    · exact still_refl c
  | temporaryEntry sender x y => exact still_temporaryEntry env sender x y c
  | temporaryExit => exact still_temporaryExit c
  | lightAttach => exact still_lightAttach env c
  | ioForceAttach => exact still_ioForceAttach env c
  | ioDetach => exact still_ioDetach c
  | shutdown =>
    simp only [step, shutdown]
    split <;> exact still_emit c (by simp)
  | respondX11Clipboard buf =>
    simp only [step, respondX11Clipboard]
    split
    · exact ⟨⟨_, rfl, by simp⟩, rfl, Nat.le_refl _⟩
    · exact still_refl c
  | mouseEdged x y =>
    simp only [step, mouseEdged]
    split
    · exact still_emit c (by simp)
    · exact still_refl c
  | enterBackupMode ack => exact still_queueForDisks _ _ ack c
  | leaveBackupMode ack => exact still_queueForDisks _ _ ack c
  | _ => exact ⟨⟨_, rfl, by simp⟩, rfl, Nat.le_refl _⟩

end Frames
end SuspendFrames
