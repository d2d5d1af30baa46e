import WindowsGaming.Controller

/- Who holds the input devices, as a machine of its own: the I/O state, the opened host
   devices and the log of effects that give devices away, take them back or act on the
   guest's keys. Every operation of the controller is one move of this machine. -/
namespace Ownership
open Config Protocol Controller

def owns : Effect → Bool
  | .monitor (.deviceAdd ..) => true
  | .monitor (.deviceDel _) => true
  | .monitor .releaseAllKeys => true
  | .monitor (.inputSendEvent _) => true
  | .resumeInput _ => true
  | .suspendInput _ => true
  | _ => false

structure Holder where
  state : IoState
  input : Input
  log : List Effect
  deriving DecidableEq, Repr

def view (c : Controller) : Holder := ⟨c.ioState, c.input, c.out.filter owns⟩

def Holder.record (h : Holder) (es : List Effect) : Holder := { h with log := h.log ++ es }

def addEffects (env : Env) (devs : List UsbDevice) : List Effect :=
  (deviceAdds env devs).map .monitor

def delEffects (devs : List UsbDevice) : List Effect := (deviceDels devs).map .monitor

def Holder.release (h : Holder) : Holder :=
  { h with input := h.input.suspend }.record [.suspendInput h.input.deviceHandles]

def Holder.detach (devs : List UsbDevice) (h : Holder) : Holder :=
  match h.state with
  | .detached => h
  | .fullEntry => { h with state := .detached }.record (delEffects devs)
  | _ => { h.release with state := .detached }.record [.monitor .releaseAllKeys]

def Holder.force (env : Env) (devs : List UsbDevice) (h : Holder) : Holder :=
  match h.state with
  | .fullEntry => h
  | .detached => { h with state := .fullEntry }.record (addEffects env devs)
  | .temporaryLightEntry _ => { h.release with state := .fullEntry }.record (addEffects env devs)
  | _ =>
    { h.release with state := .fullEntry }.record (.monitor .releaseAllKeys :: addEffects env devs)

def Holder.light (env : Env) (h : Holder) : Holder :=
  match h.state with
  | .detached =>
    { h with state := .lightEntry, input := h.input.resume env }.record
      [.resumeInput (h.input.opened env)]
  | .awaitingUpgrade => { h with state := .lightEntry }
  | _ => h

def Holder.await (h : Holder) : Holder := { h with state := .awaitingUpgrade }

def Holder.grant (sender : Nat) (h : Holder) : Holder :=
  { h with state := .temporaryLightEntry sender }

@[simp] theorem filter_deviceAdds (env : Env) (devs : List UsbDevice) :
    ((deviceAdds env devs).map Effect.monitor).filter owns = addEffects env devs := by
  refine List.filter_eq_self.mpr ?_
  intro e he
  simp only [deviceAdds, List.map_map, List.mem_map] at he
  obtain ⟨h, _, rfl⟩ := he
  rfl

@[simp] theorem filter_deviceDels (devs : List UsbDevice) :
    ((deviceDels devs).map Effect.monitor).filter owns = delEffects devs := by
  refine List.filter_eq_self.mpr ?_
  intro e he
  simp only [deviceDels, List.map_map, List.mem_map] at he
  obtain ⟨i, _, rfl⟩ := he
  rfl

@[simp] theorem record_nil (h : Holder) : h.record [] = h := by simp [Holder.record]

@[simp] theorem view_emitAll (c : Controller) (es : List Effect) :
    view (c.emitAll es) = (view c).record (es.filter owns) := by
  simp [view, emitAll, Holder.record]

theorem view_emit_owned {e : Effect} (h : owns e = true) (c : Controller) :
    view (c.emit e) = (view c).record [e] := by
  simp [emit, h]

theorem view_emit_other {e : Effect} (h : owns e = false) (c : Controller) :
    view (c.emit e) = view c := by
  simp [emit, h]

@[simp] theorem view_state (c : Controller) (s : IoState) :
    view { c with ioState := s } = { view c with state := s } := rfl

@[simp] theorem view_ga (c : Controller) (ga : State) : view { c with ga := ga } = view c := rfl

@[simp] theorem view_runHook (c : Controller) (hook : Option String) :
    view (c.runHook hook) = view c := by
  cases hook <;> simp [runHook, owns]

@[simp] theorem view_writeGa (c : Controller) (cmd : GaCmdOut) : view (c.writeGa cmd) = view c :=
  view_emit_other rfl c

@[simp] theorem view_prepareEntry (c : Controller) : view c.prepareEntry = view c := by
  simp [prepareEntry]

@[simp] theorem view_suspendInput (c : Controller) : view c.suspendInput = (view c).release := by
  unfold suspendInput
  rw [view_emit_owned rfl]
  rfl

theorem view_ioDetach (c : Controller) :
    view c.ioDetach = (view c).detach c.machineConfig.usbDevices := by
  unfold ioDetach
  rw [view_runHook]
  cases state : c.ioState with
  | detached => simp [Holder.detach, view, state]
  | fullEntry => simp [Holder.detach, view, state, emitAll, Holder.record]
  | _ =>
    simp only [view_state, toMonitor, view_emit_owned (e := .monitor .releaseAllKeys) rfl,
      view_suspendInput]
    simp [Holder.detach, view, state, Holder.record]

theorem view_enterFull (c : Controller) (env : Env) :
    view (c.enterFull env) = { view c with state := .fullEntry }.record
      (addEffects env c.machineConfig.usbDevices) := by
  have adds : view (c.prepareEntry.emitAll
      ((deviceAdds env c.machineConfig.usbDevices).map .monitor)) =
      (view c).record (addEffects env c.machineConfig.usbDevices) := by simp
  unfold enterFull
  rw [view_state, adds]
  rfl

theorem view_resumeInput (c : Controller) (env : Env) :
    view (c.resumeInput env) = { view c with input := c.input.resume env }.record
      [.resumeInput (c.input.opened env)] := by
  unfold resumeInput
  rw [view_emit_owned rfl]
  rfl

theorem view_ioForceAttach (c : Controller) (env : Env) :
    view (c.ioForceAttach env) = (view c).force env c.machineConfig.usbDevices := by
  unfold ioForceAttach
  cases state : c.ioState with
  | detached =>
    simp only [view_enterFull]
    simp [Holder.force, view, state]
  | fullEntry => simp [Holder.force, view, state]
  | temporaryLightEntry sender =>
    simp only [view_enterFull, view_emit_other (e := .temporary sender .temporaryLightDetached) rfl,
      view_suspendInput]
    simp [Holder.force, view, state]
    rfl
  | _ =>
    simp only [view_enterFull, toMonitor, view_emit_owned (e := .monitor .releaseAllKeys) rfl,
      view_suspendInput]
    simp [Holder.force, view, state, Holder.record]
    rfl

theorem view_lightAttach (c : Controller) (env : Env) :
    view (c.lightAttach env) =
      if c.ga = .suspending ∨ c.ga = .suspended then view c else (view c).light env := by
  have wakeup : view (c.toMonitor .systemWakeup) = view c := view_emit_other rfl c
  unfold lightAttach
  split
  · rename_i ga
    simp [ga]
  · rename_i ga
    simp [ga, wakeup]
  · rename_i notSuspending notSuspended
    rw [if_neg (by rintro (ga | ga) <;> [exact notSuspending ga; exact notSuspended ga])]
    cases state : c.ioState with
    | detached =>
      simp only [view_state, view_resumeInput, view_prepareEntry]
      simp [Holder.light, view, state, Holder.record]
      exact ⟨rfl, rfl⟩
    | _ => simp [Holder.light, view, state]

@[simp] theorem force_state (env : Env) (devs : List UsbDevice) (h : Holder) :
    (h.force env devs).state = .fullEntry := by
  unfold Holder.force
  split <;> first | assumption | rfl

theorem force_full {h : Holder} (full : h.state = .fullEntry) (env : Env) (devs : List UsbDevice) :
    h.force env devs = h := by
  simp [Holder.force, full]

theorem light_full {h : Holder} (full : h.state = .fullEntry) (env : Env) : h.light env = h := by
  simp [Holder.light, full]

/-- What a hotkey does about the devices; nothing during a temporary entry. -/
def hotkeyAction (c : Controller) (index : UInt32) : Option Action :=
  match c.machineConfig.hotkeys[index.toNat]?.map HotKey.action with
  | some (.action action) =>
    match c.ioState with
    | .temporaryLightEntry _ => none
    | _ => some action
  | _ => none

def requestsUpgrade (c : Controller) : Op → Bool
  | .ioAttach => true
  | .gaHotkey index => hotkeyAction c index = some .ioUpgrade
  | _ => false

def forcesAttach (c : Controller) (op : Op) : Bool :=
  match op with
  | .ioForceAttach => true
  | .tryAttach => c.ga = .up || c.ga = .pinging
  | .gaHello => c.ga = .resuming true || c.ioState = .awaitingUpgrade
  | .gaHotkey index =>
    hotkeyAction c index = some .ioEntryForced ||
      requestsUpgrade c op && (c.ga = .up || c.ga = .pinging)
  | op => requestsUpgrade c op && (c.ga = .up || c.ga = .pinging)

/-- What one operation can do to the holder. -/
inductive Move (env : Env) (c : Controller) (op : Op) : Holder → Prop where
  | stay : Move env c op (view c)
  | detach : Move env c op ((view c).detach c.machineConfig.usbDevices)
  | force (asked : forcesAttach c op = true) :
      Move env c op ((view c).force env c.machineConfig.usbDevices)
  | light : Move env c op ((view c).light env)
  | await (asked : requestsUpgrade c op = true) (down : c.ga = .down) :
      Move env c op ((view c).light env).await
  | grant (sender : Nat) (x y : Int32) (asked : op = .temporaryEntry sender x y)
      (idle : c.ioState = .detached) : Move env c op (((view c).light env).grant sender)

section Moves
variable {env : Env} {c : Controller} {op : Op}

theorem move_lightAttach : Move env c op (view (c.lightAttach env)) := by
  rw [view_lightAttach]
  split
  · exact .stay
  · exact .light

theorem move_ioAttach (asked : requestsUpgrade c op = true)
    (forces : c.ga = .up ∨ c.ga = .pinging → forcesAttach c op = true) :
    Move env c op (view (c.ioAttach env)) := by
  have wakeup : view (c.toMonitor .systemWakeup) = view c := view_emit_other rfl c
  unfold ioAttach
  cases ga : c.ga with
  | resuming full => exact .stay
  | suspending => exact .stay
  | suspended =>
    simp only [view_ga, wakeup]
    exact .stay
  | down =>
    simp only [view_state, view_lightAttach, ga]
    exact .await asked ga
  | up =>
    simp only [view_ioForceAttach]
    exact .force (forces (Or.inl ga))
  | pinging =>
    simp only [view_ioForceAttach]
    exact .force (forces (Or.inr ga))

theorem move_ioDetach : Move env c op (view c.ioDetach) := by
  rw [view_ioDetach]
  exact .detach

theorem move_gaPing : Move env c op (view c.gaPing.1) := by
  have down : view { c with ga := .down }.ioDetach =
      (view c).detach c.machineConfig.usbDevices := view_ioDetach _
  unfold gaPing
  split
  · simp only [pingTimeout, temporaryExit]
    split
    · rw [down]
      exact .detach
    · split
      · rw [down]
        exact .detach
      · exact .stay
    · exact .stay
  · simp only [view_writeGa]
    exact .stay
  · exact .stay

theorem move_temporaryEntry (sender : Nat) (x y : Int32)
    (asked : op = .temporaryEntry sender x y) :
    Move env c op (view (c.temporaryEntry env sender x y).1) := by
  have written : view (c.writeGa (.setMousePosition ⟨x, y⟩)) = view c := view_writeGa c _
  unfold temporaryEntry
  cases ga : c.ga with
  | up | pinging =>
    cases state : c.ioState with
    | detached =>
      have awake : (c.writeGa (.setMousePosition ⟨x, y⟩)).ga = c.ga := rfl
      simp only [view_state, view_lightAttach, awake, ga, written]
      exact .grant sender x y asked state
    | _ => exact .stay
  | _ => exact .stay

theorem view_greet (c : Controller) (env : Env) : view (c.greet env) = view c := by
  have quiet : (helloEffects env c.machineConfig).filter owns = [] := by
    simp [helloEffects, List.filter_eq_nil_iff, owns]
  unfold greet
  rw [view_ga, view_emitAll, quiet, record_nil]

theorem view_upgradeAwaited (c : Controller) (env : Env) (up : c.ga = .up) :
    view (c.upgradeAwaited env) =
      if c.ioState = .awaitingUpgrade then (view c).force env c.machineConfig.usbDevices
      else view c := by
  unfold upgradeAwaited
  split
  · rename_i waiting
    simp only [ioAttach, up, view_ioForceAttach, waiting, if_true]
  · rename_i other
    rw [if_neg other]

theorem move_gaHello (asked : op = .gaHello) : Move env c op (view (c.gaHello env).1) := by
  subst asked
  have up := upgradeAwaited_ga (c.greet env) env rfl
  have view_greeted := view_upgradeAwaited (c.greet env) env rfl
  rw [view_greet, greet_ioState, greet_machineConfig] at view_greeted
  have config : ((c.greet env).upgradeAwaited env).machineConfig = c.machineConfig := by simp
  unfold gaHello
  generalize (c.greet env).upgradeAwaited env = greeted at view_greeted up config
  by_cases waiting : c.ioState = .awaitingUpgrade
  · -- the awaited upgrade comes first, and full entry absorbs what the wake-up asked for
    rw [if_pos waiting] at view_greeted
    have done : Move env c .gaHello (view greeted) := by
      rw [view_greeted]
      exact .force (by simp [forcesAttach, waiting])
    have full : (view greeted).state = .fullEntry := by rw [view_greeted, force_state]
    split
    · exact done
    · exact done
    · exact done
    · exact done
    · split
      · rw [view_ioForceAttach, force_full full]
        exact done
      · rw [view_lightAttach, light_full full, ite_self]
        exact done
    · exact done
  · rw [if_neg waiting] at view_greeted
    have stayed : Move env c .gaHello (view greeted) := by
      rw [view_greeted]
      exact .stay
    split
    · exact stayed
    · exact stayed
    · exact stayed
    · exact stayed
    · rename_i full ga
      split
      · rename_i isFull
        rw [view_ioForceAttach, view_greeted, config]
        exact .force (by simp [forcesAttach, ga, isFull])
      · rw [view_lightAttach, if_neg (by simp [up]), view_greeted]
        exact .light
    · exact stayed

theorem move_gaHotkey (index : UInt32) (asked : op = .gaHotkey index) :
    Move env c op (view (c.gaHotkey env index)) := by
  subst asked
  unfold gaHotkey
  cases action : c.machineConfig.hotkeys[index.toNat]?.map HotKey.action with
  | none => exact .stay
  | some hotkey =>
    cases hotkey with
    | exec cmd =>
      simp only [view_emit_other (e := .spawn cmd) rfl]
      exact .stay
    | action wanted =>
      cases state : c.ioState with
      | temporaryLightEntry sender => exact .stay
      | _ =>
        have carried : hotkeyAction c index = some wanted := by simp [hotkeyAction, action, state]
        cases wanted with
        | ioUpgrade =>
          refine move_ioAttach (by simp [requestsUpgrade, carried]) ?_
          intro ga
          simpa [forcesAttach, requestsUpgrade, carried] using ga
        | ioEntryForced =>
          simp only [view_ioForceAttach]
          exact .force (by simp [forcesAttach, carried])
        | ioExit => exact move_ioDetach

theorem move_queueForDisks (command : Nat → String → Nat → QmpCommand)
    (quiet : ∀ i s a, owns (.monitor (command i s a)) = false) (disks : List (Nat × String))
    (ack : Nat) : Move env c op (view (c.queueForDisks command disks ack)) := by
  have nothing : ((StableGroups.enumerate disks).map (fun p =>
      Effect.monitor (command p.2.1 p.2.2 (c.oneshots + p.1))) ++
      [Effect.awaitAcks (List.range' c.oneshots disks.length) ack]).filter owns = [] := by
    refine List.filter_eq_nil_iff.mpr ?_
    intro e he
    rcases List.mem_append.mp he with cmd | task
    · obtain ⟨p, _, rfl⟩ := List.mem_map.mp cmd
      simp [quiet]
    · rw [List.mem_singleton.mp task]
      simp [owns]
  unfold queueForDisks
  simp only [view_emitAll, nothing, record_nil]
  exact .stay

theorem step_move (env : Env) (op : Op) (c : Controller) : Move env c op (view (step env op c)) := by
  have stay : ∀ d : Controller, view d = view c → Move env c op (view d) := by
    intro d same
    rw [same]
    exact .stay
  cases op with
  | gaPing => exact move_gaPing
  | gaPong =>
    simp only [step, gaPong]
    split
    · exact stay _ rfl
    · exact .stay
  | gaHello => exact move_gaHello rfl
  | gaSuspending =>
    simp only [step, gaSuspending, view_ga]
    exact move_ioDetach
  | qemuSuspended =>
    refine stay _ ?_
    have fired : (c.suspendSenders.map Effect.fireSuspend).filter owns = [] := by
      simp [List.filter_eq_nil_iff, owns]
    simp [step, qemuSuspended, fired]
    rfl
  | gaHotkey index => exact move_gaHotkey index rfl
  | ioAttach =>
    refine move_ioAttach rfl ?_
    intro ga
    simpa [forcesAttach, requestsUpgrade] using ga
  | tryAttach =>
    simp only [step, tryAttach]
    split
    · rename_i ga
      simp only [view_ioForceAttach]
      exact .force (by simp [forcesAttach, ga])
    · rename_i ga
      simp only [view_ioForceAttach]
      exact .force (by simp [forcesAttach, ga])
    · exact .stay
  | temporaryEntry sender x y => exact move_temporaryEntry sender x y rfl
  | temporaryExit =>
    simp only [step, temporaryExit]
    split
    · exact move_ioDetach
    · exact .stay
  | lightAttach => exact move_lightAttach
  | ioForceAttach =>
    simp only [step, view_ioForceAttach]
    exact .force rfl
  | suspend =>
    refine stay _ ?_
    simp only [step, suspend]
    split
    · rfl
    · split
      · exact view_writeGa c .suspend
      · rfl
  | ioDetach => exact move_ioDetach
  | shutdown =>
    refine stay _ ?_
    simp only [step, shutdown]
    split <;> exact view_emit_other rfl c
  | grabX11Clipboard types => exact stay _ (view_emit_other rfl c)
  | readX11Clipboard kind => exact stay _ (view_emit_other rfl c)
  | respondX11Clipboard buf =>
    simp only [step, respondX11Clipboard]
    split
    · exact stay _ (view_emit_other rfl _)
    · exact .stay
  | grabWinClipboard types => exact stay _ (view_writeGa c _)
  | readWinClipboard event => exact stay _ (view_writeGa c _)
  | respondWinClipboard buf => exact stay _ (view_writeGa c _)
  | mouseEdged x y =>
    simp only [step, mouseEdged]
    split
    · exact stay _ (view_emit_other rfl c)
    · exact .stay
  | enterBackupMode ack => exact move_queueForDisks .takeSnapshot (fun _ _ _ => rfl) _ ack
  | leaveBackupMode ack => exact move_queueForDisks .commitSnapshot (fun _ _ _ => rfl) _ ack

theorem hotkeyAction_eq_some {index : UInt32} {action : Action}
    (carried : hotkeyAction c index = some action) :
    c.machineConfig.hotkeys[index.toNat]?.map HotKey.action = some (.action action) ∧
      ∀ sender, c.ioState ≠ .temporaryLightEntry sender := by
  unfold hotkeyAction at carried
  split at carried
  · rename_i wanted configured
    split at carried
    · cases carried
    · rename_i notTemporary
      cases carried
      exact ⟨configured, notTemporary⟩
  · cases carried

theorem hotkey_temporary {sender : Nat} (temporary : c.ioState = .temporaryLightEntry sender)
    (index : UInt32) : forcesAttach c (.gaHotkey index) = false := by
  have carried : hotkeyAction c index = none := by
    by_contra some
    obtain ⟨action, carried⟩ := Option.ne_none_iff_exists'.mp some
    exact (hotkeyAction_eq_some carried).2 sender temporary
  simp [forcesAttach, requestsUpgrade, carried]

theorem step_forces {sender : Nat} (temporary : c.ioState = .temporaryLightEntry sender)
    (forces : forcesAttach c op = true) :
    view (step env op c) = (view c).force env c.machineConfig.usbDevices := by
  cases op with
  | ioForceAttach => exact view_ioForceAttach c env
  | tryAttach =>
    have up : c.ga = .up ∨ c.ga = .pinging := by simpa [forcesAttach] using forces
    rcases up with ga | ga <;> simp [step, tryAttach, ga, view_ioForceAttach]
  | ioAttach =>
    have up : c.ga = .up ∨ c.ga = .pinging := by simpa [forcesAttach, requestsUpgrade] using forces
    rcases up with ga | ga <;> simp [step, ioAttach, ga, view_ioForceAttach]
  | gaHello =>
    have woken : c.ga = .resuming true := by simpa [forcesAttach, temporary] using forces
    have greeted : (c.greet env).upgradeAwaited env = c.greet env := by
      simp [upgradeAwaited, temporary]
    simp [step, gaHello, woken, greeted, view_ioForceAttach, view_greet]
  | gaHotkey index =>
    rw [hotkey_temporary temporary] at forces
    cases forces
  | _ => simp [forcesAttach, requestsUpgrade] at forces

end Moves
end Ownership
