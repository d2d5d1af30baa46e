import WindowsGaming.Control

/- What one operation of the controller adds to its log, as far as somebody waits for it:
   pings, released suspend futures, messages to temporary entries, calls to wake up. -/
namespace Outbox
open Hotkeys Config Protocol Controller Ownership Control

def awaited : Effect → Bool
  | .clientpipe .ping => true
  | .fireSuspend _ => true
  | .temporary _ _ => true
  | .monitor .systemWakeup => true
  | _ => false

def Adds (es : List Effect) (c d : Controller) : Prop :=
  ∃ more, d.out = c.out ++ more ∧ more.filter awaited = es

def partings (c : Controller) : List Effect :=
  (currentEntry c.ioState).toList.map fun sender => .temporary sender .temporaryLightDetached

def wakeups (c : Controller) : List Effect :=
  if c.ga = .suspended then [.monitor .systemWakeup] else []

/-- The awaited effects of one operation. -/
def news (c : Controller) : Op → List Effect
  | .gaPing => if c.ga = .up then [.clientpipe .ping] else []
  | .qemuSuspended => c.suspendSenders.map .fireSuspend
  | .lightAttach => wakeups c
  | .mouseEdged x y => (currentEntry c.ioState).toList.map fun sender =>
      .temporary sender (.mouseEdged x y)
  | op => if forcesAttach c op then partings c else if requestsUpgrade c op then wakeups c else []

inductive Source (c : Controller) (op : Op) : Effect → Prop where
  | ping (asked : op = .gaPing) : Source c op (.clientpipe .ping)
  | fired (asked : op = .qemuSuspended) {r : Nat} : Source c op (.fireSuspend r)
  | woken : Source c op (.monitor .systemWakeup)
  | edged {sender : Nat} {x y : Int32} (current : currentEntry c.ioState = some sender) :
      Source c op (.temporary sender (.mouseEdged x y))
  | parted {sender : Nat} (current : currentEntry c.ioState = some sender)
      (forces : forcesAttach c op = true) : Source c op (.temporary sender .temporaryLightDetached)

theorem mem_wakeups {c : Controller} {op : Op} {e : Effect} (member : e ∈ wakeups c) :
    Source c op e := by
  unfold wakeups at member
  split at member
  · rw [List.mem_singleton.mp member]
    exact .woken
  · cases member

theorem mem_news {c : Controller} {op : Op} {e : Effect} (member : e ∈ news c op) :
    Source c op e := by
  cases op with
  | gaPing =>
    simp only [news] at member
    split at member
    · rw [List.mem_singleton.mp member]
      exact .ping rfl
    · cases member
  | qemuSuspended =>
    obtain ⟨r, _, rfl⟩ := List.mem_map.mp member
    exact .fired rfl
  | lightAttach => exact mem_wakeups member
  | mouseEdged x y =>
    obtain ⟨sender, current, rfl⟩ := List.mem_map.mp member
    exact .edged (Option.mem_toList.mp current)
  | _ =>
    simp only [news] at member
    split at member
    · rename_i forces
      obtain ⟨sender, current, rfl⟩ := List.mem_map.mp member
      exact .parted (Option.mem_toList.mp current) forces
    · split at member
      · exact mem_wakeups member
      · cases member

section Adding
variable {c d : Controller} {es fs : List Effect} {env : Env}

theorem adds_refl (c : Controller) : Adds [] c c := ⟨[], by simp⟩

theorem adds_trans {b : Controller} (h : Adds es b c) (k : Adds fs c d) : Adds (es ++ fs) b d := by
  obtain ⟨first, grown, rfl⟩ := h
  obtain ⟨second, grew, rfl⟩ := k
  exact ⟨first ++ second, by rw [grew, grown, List.append_assoc], List.filter_append ..⟩

theorem adds_then {b : Controller} (h : Adds [] b c) (k : Adds es c d) : Adds es b d := by
  simpa using adds_trans h k

theorem adds_mem (added : Adds es c d) {e : Effect} (wanted : awaited e = true) :
    ∃ more, d.out = c.out ++ more ∧ (e ∈ more ↔ e ∈ es) := by
  obtain ⟨more, grown, rfl⟩ := added
  exact ⟨more, grown, by simp [List.mem_filter, wanted]⟩

theorem adds_emitAll (c : Controller) (es : List Effect) :
    Adds (es.filter awaited) c (c.emitAll es) :=
  ⟨es, rfl, rfl⟩

theorem adds_plain (c : Controller) (plain : ∀ e ∈ es, awaited e = false) :
    Adds [] c (c.emitAll es) := by
  refine ⟨es, rfl, List.filter_eq_nil_iff.mpr ?_⟩
  intro e member
  simp [plain e member]

theorem adds_emit (c : Controller) {e : Effect} (plain : awaited e = false) : Adds [] c (c.emit e) :=
  adds_plain c (by simpa using plain)

theorem adds_awaited (c : Controller) {e : Effect} (wanted : awaited e = true) :
    Adds [e] c (c.emit e) := by
  have added := adds_emitAll c [e]
  rwa [List.filter_cons_of_pos wanted, List.filter_nil] at added

theorem adds_runHook (c : Controller) (hook : Option String) : Adds [] c (c.runHook hook) := by
  apply adds_plain
  intro e member
  obtain ⟨cmd, _, rfl⟩ := List.mem_map.mp member
  rfl

theorem adds_prepareEntry (c : Controller) : Adds [] c c.prepareEntry :=
  adds_then (adds_emit c rfl) (adds_runHook _ _)

theorem adds_suspendInput (c : Controller) : Adds [] c c.suspendInput := ⟨_, rfl, rfl⟩

theorem adds_releasing (c : Controller) : Adds [] c (c.suspendInput.toMonitor .releaseAllKeys) :=
  adds_then (adds_suspendInput c) (adds_emit _ rfl)

theorem adds_ioDetach (c : Controller) : Adds [] c c.ioDetach := by
  unfold ioDetach
  refine adds_then ?_ (adds_runHook _ _)
  cases c.ioState with
  | detached => exact adds_refl c
  | fullEntry =>
    apply adds_plain
    intro e member
    obtain ⟨cmd, listed, rfl⟩ := List.mem_map.mp member
    obtain ⟨i, _, rfl⟩ := List.mem_map.mp listed
    rfl
  | _ => exact adds_releasing c

theorem adds_enterFull (env : Env) (c : Controller) : Adds [] c (c.enterFull env) := by
  refine adds_then (adds_prepareEntry c) ?_
  have plain : ∀ e ∈ (deviceAdds env c.machineConfig.usbDevices).map Effect.monitor,
      awaited e = false := by
    intro e member
    obtain ⟨cmd, listed, rfl⟩ := List.mem_map.mp member
    obtain ⟨h, _, rfl⟩ := List.mem_map.mp listed
    rfl
  exact adds_plain c.prepareEntry plain

theorem adds_ioForceAttach (env : Env) (c : Controller) :
    Adds (partings c) c (c.ioForceAttach env) := by
  unfold ioForceAttach partings
  cases c.ioState with
  | detached => exact adds_enterFull env c
  | fullEntry => exact adds_refl c
  | temporaryLightEntry sender =>
    have parted := adds_awaited c.suspendInput (e := .temporary sender .temporaryLightDetached) rfl
    have entered := adds_trans parted (adds_enterFull env _)
    exact adds_then (adds_suspendInput c) entered
  | _ => exact adds_then (adds_releasing c) (adds_enterFull env _)

theorem adds_lightAttach (env : Env) (c : Controller) : Adds (wakeups c) c (c.lightAttach env) := by
  unfold lightAttach wakeups
  cases c.ga with
  | suspending => exact adds_refl c
  | suspended => exact adds_awaited c rfl
  | _ =>
    cases c.ioState with
    | detached => exact adds_then (adds_prepareEntry c) ⟨_, rfl, rfl⟩
    | _ => exact adds_refl c

theorem adds_ioAttach (env : Env) (c : Controller) :
    Adds (if c.ga = .up ∨ c.ga = .pinging then partings c else wakeups c) c (c.ioAttach env) := by
  have woken : Adds [.monitor .systemWakeup] c (c.toMonitor .systemWakeup) := adds_awaited c rfl
  have lit := adds_lightAttach env c
  have forced := adds_ioForceAttach env c
  unfold ioAttach
  unfold wakeups at lit ⊢
  cases ga : c.ga with
  | down =>
    rw [ga] at lit
    exact lit
  | suspended => exact woken
  | up => exact forced
  | pinging => exact forced
  | _ => exact adds_refl c

theorem adds_temporaryExit (c : Controller) : Adds [] c c.temporaryExit := by
  unfold Controller.temporaryExit
  split
  · exact adds_ioDetach c
  · exact adds_refl c

theorem adds_pingTimeout (c : Controller) : Adds [] c c.pingTimeout := by
  unfold pingTimeout
  split
  · exact adds_ioDetach c
  · exact adds_temporaryExit c
  · exact adds_refl c

theorem adds_gaPing (c : Controller) :
    Adds (if c.ga = .up then [.clientpipe .ping] else []) c c.gaPing.1 := by
  have pinged : Adds [.clientpipe .ping] c (c.writeGa .ping) := adds_awaited c rfl
  have timedOut : Adds [] c { c with ga := .down }.pingTimeout :=
    adds_pingTimeout { c with ga := .down }
  unfold gaPing
  cases ga : c.ga with
  | pinging => exact timedOut
  | up => exact pinged
  | _ => exact adds_refl c

theorem adds_greet (env : Env) (c : Controller) : Adds [] c (c.greet env) := by
  have plain : ∀ e ∈ helloEffects env c.machineConfig, awaited e = false := by
    intro e member
    simp only [helloEffects, List.cons_append, List.mem_cons, List.mem_append, List.mem_map,
      registerHotKeys] at member
    rcases member with rfl | ⟨rl, _, rfl⟩ | ⟨cmd, ⟨p, _, rfl⟩, rfl⟩ <;> rfl
  exact adds_plain c plain

theorem adds_gaHello (env : Env) (c : Controller) :
    Adds (if c.ga = .resuming true then partings c else []) c (c.gaHello env).1 := by
  have greeted := adds_greet env c
  have up : ((c.greet env).upgradeAwaited env).ga = .up := upgradeAwaited_ga (c.greet env) env rfl
  have upgraded : Adds [] c ((c.greet env).upgradeAwaited env) ∧
      partings ((c.greet env).upgradeAwaited env) = partings c := by
    unfold upgradeAwaited
    cases state : (c.greet env).ioState with
    | awaitingUpgrade =>
      have attached := adds_ioAttach env (c.greet env)
      have held : c.ioState = .awaitingUpgrade := state
      simp only [greet_ga, true_or, if_true, partings, state, currentEntry] at attached
      have full : ((c.greet env).ioAttach env).ioState = .fullEntry := by simp [ioAttach]
      exact ⟨adds_then greeted attached, by simp [partings, full, held, currentEntry]⟩
    | _ => exact ⟨greeted, rfl⟩
  have lit := adds_lightAttach env ((c.greet env).upgradeAwaited env)
  have forced := adds_ioForceAttach env ((c.greet env).upgradeAwaited env)
  rw [upgraded.2] at forced
  rw [wakeups, up] at lit
  unfold gaHello
  generalize (c.greet env).upgradeAwaited env = greeted at upgraded lit forced
  cases c.ga with
  | resuming full =>
    cases full with
    | false => exact adds_then upgraded.1 lit
    | true => exact adds_then upgraded.1 forced
  | _ => exact upgraded.1

theorem news_hotkey_idle {index : UInt32} (idle : hotkeyAction c index = none) :
    news c (.gaHotkey index) = [] := by
  simp [news, forcesAttach, requestsUpgrade, idle]

theorem adds_gaHotkey (env : Env) (index : UInt32) (c : Controller) :
    Adds (news c (.gaHotkey index)) c (c.gaHotkey env index) := by
  unfold gaHotkey
  cases configured : c.machineConfig.hotkeys[index.toNat]?.map HotKey.action with
  | none =>
    rw [news_hotkey_idle (by simp [hotkeyAction, configured])]
    exact adds_refl c
  | some hotkey =>
    cases hotkey with
    | exec cmd =>
      rw [news_hotkey_idle (by simp [hotkeyAction, configured])]
      exact adds_emit c rfl
    | action wanted =>
      cases state : c.ioState with
      | temporaryLightEntry sender =>
        rw [news_hotkey_idle (by simp [hotkeyAction, configured, state])]
        exact adds_refl c
      | _ =>
        have carried : hotkeyAction c index = some wanted := by
          simp [hotkeyAction, configured, state]
        simp only [news, forcesAttach, requestsUpgrade, carried]
        cases wanted with
        | ioUpgrade => simpa using adds_ioAttach env c
        | ioEntryForced => simpa using adds_ioForceAttach env c
        | ioExit => simpa using adds_ioDetach c

theorem adds_temporaryEntry (env : Env) (sender : Nat) (x y : Int32) (c : Controller) :
    Adds [] c (c.temporaryEntry env sender x y).1 := by
  have positioned := adds_emit c (e := .clientpipe (.setMousePosition ⟨x, y⟩)) rfl
  have lit := adds_lightAttach env (c.writeGa (.setMousePosition ⟨x, y⟩))
  have entered := adds_trans positioned lit
  unfold temporaryEntry
  unfold wakeups at entered
  have kept : (c.writeGa (.setMousePosition ⟨x, y⟩)).ga = c.ga := rfl
  rw [kept] at entered
  cases ga : c.ga with
  | up | pinging =>
    rw [ga] at entered
    cases c.ioState with
    | detached => exact entered
    | _ => exact adds_refl c
  | _ => exact adds_refl c

theorem adds_queueForDisks (command : Nat → String → Nat → QmpCommand)
    (plain : ∀ i s a, awaited (.monitor (command i s a)) = false) (disks : List (Nat × String))
    (ack : Nat) (c : Controller) : Adds [] c (c.queueForDisks command disks ack) := by
  refine ⟨_, rfl, List.filter_eq_nil_iff.mpr ?_⟩
  intro e member
  rcases List.mem_append.mp member with cmd | task
  · obtain ⟨p, _, rfl⟩ := List.mem_map.mp cmd
    simp [plain]
  · rw [List.mem_singleton.mp task]
    simp [awaited]

theorem step_adds (env : Env) (op : Op) (c : Controller) : Adds (news c op) c (step env op c) := by
  cases op with
  | gaPing => exact adds_gaPing c
  | gaPong =>
    simp only [step, gaPong]
    split <;> exact adds_refl c
  | gaHello =>
    have greeted := adds_gaHello env c
    simp only [step, news, forcesAttach, requestsUpgrade]
    by_cases woken : c.ga = .resuming true
    · simpa [woken] using greeted
    · by_cases awaiting : c.ioState = .awaitingUpgrade
      · simpa [woken, awaiting, partings, currentEntry] using greeted
      · simpa [woken, awaiting] using greeted
  | gaSuspending => exact adds_ioDetach c
  | qemuSuspended =>
    refine ⟨_, rfl, List.filter_eq_self.mpr ?_⟩
    intro e member
    obtain ⟨sender, _, rfl⟩ := List.mem_map.mp member
    rfl
  | gaHotkey index => exact adds_gaHotkey env index c
  | ioAttach => simpa [step, news, forcesAttach, requestsUpgrade] using adds_ioAttach env c
  | tryAttach =>
    simp only [step, tryAttach]
    split
    · rename_i ga
      simpa [news, forcesAttach, ga] using adds_ioForceAttach env c
    · rename_i ga
      simpa [news, forcesAttach, ga] using adds_ioForceAttach env c
    · rename_i notUp notPinging
      have refused : forcesAttach c .tryAttach = false := by
        simp only [forcesAttach, Bool.or_eq_false_iff, decide_eq_false_iff_not]
        exact ⟨notUp, notPinging⟩
      simpa [news, refused, requestsUpgrade] using adds_refl c
  | temporaryEntry sender x y => exact adds_temporaryEntry env sender x y c
  | temporaryExit => exact adds_temporaryExit c
  | lightAttach => exact adds_lightAttach env c
  | ioForceAttach => exact adds_ioForceAttach env c
  | suspend =>
    simp only [step, suspend]
    split
    · exact adds_refl c
    · split
      · exact adds_emit c (e := .clientpipe .suspend) rfl
      · exact adds_refl c
  | ioDetach => exact adds_ioDetach c
  | shutdown =>
    simp only [step, shutdown]
    split <;> exact adds_emit c rfl
  | respondX11Clipboard buf =>
    simp only [step, respondX11Clipboard]
    split
    · exact ⟨_, rfl, rfl⟩
    · exact adds_refl c
  | mouseEdged x y =>
    simp only [step, mouseEdged, news]
    cases c.ioState with
    | temporaryLightEntry sender => exact adds_awaited c rfl
    | _ => exact adds_refl c
  | enterBackupMode ack => exact adds_queueForDisks .takeSnapshot (fun _ _ _ => rfl) _ ack c
  | leaveBackupMode ack => exact adds_queueForDisks .commitSnapshot (fun _ _ _ => rfl) _ ack c
  | _ => exact ⟨_, rfl, rfl⟩

end Adding
end Outbox
