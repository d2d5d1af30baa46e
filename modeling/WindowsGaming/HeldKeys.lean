import WindowsGaming.Library.Runs
import WindowsGaming.Libinput
import WindowsGaming.Monitor
import WindowsGaming.HostGrab

/- The keys that the guest sees held down. The controller and the handler of input events
   feed one command queue, and the monitor executes it. -/
namespace HeldKeys
open Hotkeys Config Protocol UsbPorts Controller Ownership HostGrab Monitor

structure Host where
  controller : Controller
  keyboard : KeyboardState
  queue : List QmpCommand
  handler : CommandHandler
  sent : List InputEvent
  deriving DecidableEq, Repr

def start (machine : MachineConfig) (hooks : HooksConfig) : Host :=
  { controller := new machine hooks (Input.new machine)
    keyboard := KeyboardState.new (machine.hotkeys.map HotKey.key)
    queue := []
    handler := CommandHandler.new
    sent := [] }

inductive Event where
  | call (env : Env) (op : Op)
  | input (env : Env) (event : Libinput.Event)
  | jobReady (device : String)
  | execute

def queued : Effect → Option QmpCommand
  | .monitor cmd => some cmd
  | _ => none

def flushed (c : Controller) : Controller := { c with out := [] }

/-- Input events come from opened devices only, and every QMP request succeeds. -/
def hostStep (h : Host) : Event → Option Host
  | .call env op =>
    let controller := step env op (flushed h.controller)
    some { h with controller, queue := h.queue ++ controller.out.filterMap queued }
  | .input env event =>
    if h.controller.input.deviceHandles = [] then none
    else
      let (keyboard, controller, forwarded) :=
        Libinput.handle env event h.keyboard (flushed h.controller)
      let queue := h.queue ++ controller.out.filterMap queued ++ forwarded.toList
      some { h with controller, keyboard, queue }
  | .jobReady device => some { h with queue := h.queue ++ [.jobReady device] }
  | .execute =>
    match h.queue with
    | [] => none
    | cmd :: queue =>
      (h.handler.take .ok cmd).map fun taken =>
        { h with queue, handler := taken.1, sent := h.sent ++ inputEvents taken.2 }

/-- With the queue drained, the guest holds no key while it has no light entry. -/
def NoStuckKeys (h : Host) : Prop :=
  h.controller.ioState = .detached ∨ h.controller.ioState = .fullEntry → h.queue = [] →
    ∀ key, guestHolds h.sent key = false

def pendingKeys (h : Host) : List KeyValue := h.queue.foldl heldAfter h.handler.heldKeys

def isTemporary : IoState → Bool
  | .temporaryLightEntry _ => true
  | _ => false

/-- A temporary entry is upgraded to a full entry while a key is held. -/
def stranding (h : Host) : Event → Bool
  | .call _ op =>
    isTemporary h.controller.ioState && forcesAttach h.controller op && !(pendingKeys h).isEmpty
  | _ => false

def keysAfter (held : List KeyValue) (effects : List Effect) : List KeyValue :=
  effects.foldl (fun held e => ((queued e).map (heldAfter held)).getD held) held

def Released (held : List KeyValue) (h : Holder) : Prop :=
  isLight h.state = false → h.input.deviceHandles = [] ∧ keysAfter held h.log = []

section Moves
variable {h : Holder} {held : List KeyValue}

theorem keysAfter_queued (held : List KeyValue) (effects : List Effect) :
    (effects.filterMap queued).foldl heldAfter held = keysAfter held effects := by
  rw [List.foldl_filterMap]
  unfold keysAfter
  congr
  funext held e
  cases queued e <;> rfl

theorem keysAfter_append (held : List KeyValue) (first second : List Effect) :
    keysAfter held (first ++ second) = keysAfter (keysAfter held first) second :=
  List.foldl_append

theorem keysAfter_adds (held : List KeyValue) (env : Env) (devs : List UsbDevice) :
    keysAfter held (addEffects env devs) = held := by
  apply Journals.foldl_still
  intro e he
  simp only [addEffects, deviceAdds, List.map_map, List.mem_map] at he
  obtain ⟨h, _, rfl⟩ := he
  rfl

theorem keysAfter_dels (held : List KeyValue) (devs : List UsbDevice) :
    keysAfter held (delEffects devs) = held := by
  apply Journals.foldl_still
  intro e he
  simp only [delEffects, deviceDels, List.map_map, List.mem_map] at he
  obtain ⟨i, _, rfl⟩ := he
  rfl

theorem keysAfter_view (held : List KeyValue) (c : Controller) :
    keysAfter held (view c).log = keysAfter held c.out := by
  apply Journals.foldl_filter
  intro held e other
  cases e with
  | monitor cmd => cases cmd <;> first | rfl | cases other
  | _ => rfl

theorem released_detach (devs : List UsbDevice) (released : Released held h) :
    Released held (h.detach devs) := by
  unfold Holder.detach
  split
  · exact released
  · rename_i full
    obtain ⟨closed, none⟩ := released (by simp [full, isLight])
    intro _
    refine ⟨closed, ?_⟩
    simp only [Holder.record, keysAfter_append, keysAfter_dels]
    exact none
  · intro _
    refine ⟨rfl, ?_⟩
    simp only [Holder.record, keysAfter_append]
    rfl

theorem released_force (env : Env) (devs : List UsbDevice) (released : Released held h)
    (unheld : ∀ sender, h.state = .temporaryLightEntry sender → keysAfter held h.log = []) :
    Released held (h.force env devs) := by
  unfold Holder.force
  split
  · exact released
  · rename_i detached
    obtain ⟨closed, none⟩ := released (by simp [detached, isLight])
    intro _
    refine ⟨closed, ?_⟩
    simp only [Holder.record, keysAfter_append, keysAfter_adds]
    exact none
  · rename_i sender temporary
    intro _
    refine ⟨rfl, ?_⟩
    simp only [Holder.record, Holder.release, keysAfter_append, keysAfter_adds]
    exact unheld sender temporary
  · intro _
    refine ⟨rfl, ?_⟩
    change keysAfter held (h.release.log ++ ([.monitor .releaseAllKeys] ++ addEffects env devs)) = []
    rw [keysAfter_append, keysAfter_append, keysAfter_adds]
    rfl

theorem released_light (env : Env) (released : Released held h) :
    Released held (h.light env) := by
  unfold Holder.light
  split
  · intro notLight
    cases notLight
  · intro notLight
    cases notLight
  · exact released

theorem released_step {c : Controller} (env : Env) (op : Op) (released : Released held (view c))
    (unheld : ∀ sender, c.ioState = .temporaryLightEntry sender → forcesAttach c op = true →
      keysAfter held c.out = []) : Released held (view (step env op c)) := by
  have moved := step_move env op c
  generalize view (step env op c) = next at moved ⊢
  cases moved with
  | stay => exact released
  | detach => exact released_detach _ released
  | force asked =>
    apply released_force env _ released
    intro sender temporary
    rw [keysAfter_view]
    exact unheld sender temporary asked
  | light => exact released_light env released
  | await asked down => exact nofun
  | grant sender x y asked idle => exact nofun

theorem released_hotkeys (env : Env) (hotkeys : List UInt32) {c : Controller}
    (released : Released held (view c)) :
    Released held (view (hotkeys.foldl (fun c hk => step env (.gaHotkey hk) c) c)) := by
  induction hotkeys generalizing c with
  | nil => exact released
  | cons hk hotkeys ih =>
    apply ih
    apply released_step env _ released
    intro sender temporary forces
    rw [hotkey_temporary temporary] at forces
    cases forces

theorem released_flushed {c : Controller} (released : Released held (view c)) :
    Released (keysAfter held c.out) (view (flushed c)) := by
  intro notLight
  obtain ⟨closed, none⟩ := released notLight
  rw [keysAfter_view] at none
  exact ⟨closed, none⟩

end Moves

structure Sound (h : Host) : Prop where
  released : Released (pendingKeys h) (view (flushed h.controller))
  agrees : Agrees h.handler h.sent

theorem sound_start (machine : MachineConfig) (hooks : HooksConfig) : Sound (start machine hooks) := by
  constructor
  · intro _
    exact ⟨rfl, rfl⟩
  · intro key
    simp [start, CommandHandler.new, guestHolds]

theorem sound_call {h : Host} (sound : Sound h) (env : Env) (op : Op)
    (ok : stranding h (.call env op) = false) {next : Host}
    (taken : hostStep h (.call env op) = some next) : Sound next := by
  cases taken
  refine ⟨?_, sound.agrees⟩
  have stepped : Released (pendingKeys h) (view (step env op (flushed h.controller))) := by
    apply released_step env op sound.released
    intro sender temporary forces
    have upgraded : h.controller.ioState = .temporaryLightEntry sender := temporary
    have asked : forcesAttach h.controller op = true := forces
    have none : pendingKeys h = [] := by simpa [stranding, isTemporary, upgraded, asked] using ok
    exact none
  have flushing := released_flushed stepped
  simp only [pendingKeys, List.foldl_append, keysAfter_queued]
  exact flushing

theorem sound_input {h : Host} (sound : Sound h) (env : Env) (event : Libinput.Event)
    {next : Host} (taken : hostStep h (.input env event) = some next) : Sound next := by
  simp only [hostStep] at taken
  split at taken
  · cases taken
  · rename_i opened
    have light : isLight h.controller.ioState = true := by
      by_contra notLight
      exact opened (sound.released (Bool.eq_false_of_not_eq_true notLight)).1
    cases taken
    refine ⟨?_, sound.agrees⟩
    rcases Libinput.handle_controller env event h.keyboard (flushed h.controller) with
      same | ⟨nothing, hotkeys, fired⟩
    · intro notLight
      rw [same] at notLight
      rw [show (view (flushed (flushed h.controller))).state = h.controller.ioState from rfl,
        light] at notLight
      cases notLight
    · have flushing := released_flushed (released_hotkeys env hotkeys sound.released)
      rw [← fired] at flushing
      simp only [pendingKeys, nothing, Option.toList_none, List.append_nil, List.foldl_append,
        keysAfter_queued]
      exact flushing

theorem execute_pending {h next : Host} (taken : hostStep h .execute = some next) :
    next.controller = h.controller ∧ pendingKeys next = pendingKeys h ∧
      next.queue = h.queue.tail ∧ (Agrees h.handler h.sent → Agrees next.handler next.sent) := by
  simp only [hostStep] at taken
  split at taken
  · cases taken
  · rename_i cmd queue first
    obtain ⟨⟨handler, actions⟩, executed, rfl⟩ := Option.map_eq_some_iff.mp taken
    refine ⟨rfl, ?_, by rw [first]; rfl, fun agrees => take_agrees agrees executed⟩
    simp only [pendingKeys, first, List.foldl_cons, take_heldKeys executed]

theorem sound_execute {h next : Host} (sound : Sound h) (taken : hostStep h .execute = some next) :
    Sound next := by
  obtain ⟨controller, pending, _, agrees⟩ := execute_pending taken
  refine ⟨?_, agrees sound.agrees⟩
  rw [pending, controller]
  exact sound.released

theorem sound_step {h next : Host} {e : Event} (sound : Sound h) (ok : stranding h e = false)
    (taken : hostStep h e = some next) : Sound next := by
  cases e with
  | call env op => exact sound_call sound env op ok taken
  | input env event => exact sound_input sound env event taken
  | jobReady device =>
    cases taken
    refine ⟨?_, sound.agrees⟩
    simp only [pendingKeys, List.foldl_append]
    exact sound.released
  | execute => exact sound_execute sound taken

theorem no_stuck_keys_of_sound {h : Host} (sound : Sound h) : NoStuckKeys h := by
  intro outside drained key
  have notLight : isLight h.controller.ioState = false := by
    rcases outside with state | state <;> simp [state, isLight]
  have none : pendingKeys h = [] := (sound.released notLight).2
  rw [pendingKeys, drained] at none
  have held : h.handler.heldKeys = [] := none
  have agrees := sound.agrees key
  rw [held] at agrees
  simpa using agrees

theorem stranding_pending {h next : Host} {e : Event} (stranded : stranding h e = true)
    (taken : hostStep h e = some next) :
    next.controller.ioState = .fullEntry ∧ pendingKeys next ≠ [] ∧ next.handler = h.handler ∧
      next.sent = h.sent := by
  cases e with
  | call env op =>
    simp only [stranding, Bool.and_eq_true, Bool.not_eq_true', List.isEmpty_eq_false_iff] at stranded
    obtain ⟨⟨temporary, forces⟩, held⟩ := stranded
    cases entered : h.controller.ioState with
    | temporaryLightEntry sender =>
      have entry : (flushed h.controller).ioState = .temporaryLightEntry sender := entered
      have forced : view (step env op (flushed h.controller)) = _ := step_forces entry forces
      cases taken
      have state : (view (step env op (flushed h.controller))).state = .fullEntry := by
        rw [forced, force_state]
      refine ⟨state, ?_, rfl, rfl⟩
      have log := congrArg (fun g => keysAfter (pendingKeys h) g.log) forced
      have viewed : (view (flushed h.controller)).state = .temporaryLightEntry sender := entry
      simp only [keysAfter_view, Holder.force, viewed, Holder.record, Holder.release,
        keysAfter_append, keysAfter_adds] at log
      unfold pendingKeys at log held ⊢
      rw [List.foldl_append, keysAfter_queued, log]
      exact held
    | _ => simp [entered, isTemporary] at temporary
  | _ => cases stranded

theorem drain_pending {h drained : Host} (agrees : Agrees h.handler h.sent)
    (drain : Runs.run hostStep h (List.replicate h.queue.length .execute) = some drained) :
    drained.controller = h.controller ∧ drained.queue = [] ∧
      ∀ key, key ∈ pendingKeys h ↔ guestHolds drained.sent key = true := by
  generalize length : h.queue.length = n at drain
  induction n generalizing h with
  | zero =>
    cases drain
    have empty := List.eq_nil_of_length_eq_zero length
    refine ⟨rfl, empty, ?_⟩
    rw [pendingKeys, empty]
    exact agrees
  | succ n ih =>
    obtain ⟨next, first, rest⟩ := Option.bind_eq_some_iff.mp drain
    obtain ⟨controller, pending, tail, agree⟩ := execute_pending first
    have shorter : next.queue.length = n := by
      rw [tail, List.length_tail, length]
      omega
    obtain ⟨same, empty, held⟩ := ih (agree agrees) shorter rest
    rw [pending] at held
    exact ⟨same.trans controller, empty, held⟩

/-- No key is stuck in any state of a run that never upgrades a temporary entry while a key
    is held. After such an upgrade one is stuck as soon as the queue is drained. -/
theorem no_stuck_keys (machine : MachineConfig) (hooks : HooksConfig) (es : List Event)
    (unstranded : Runs.Meets hostStep (fun h e => stranding h e = false) (start machine hooks) es) :
    Runs.Always hostStep NoStuckKeys (start machine hooks) es ∧
      ∀ h e next drained, Runs.run hostStep (start machine hooks) es = some h →
        stranding h e = true → hostStep h e = some next →
        Runs.run hostStep next (List.replicate next.queue.length .execute) = some drained →
        ¬ NoStuckKeys drained := by
  have sound : Runs.Always hostStep Sound (start machine hooks) es :=
    Runs.always_of_invariant Sound (fun _ _ _ => sound_step) (sound_start machine hooks) unstranded
  refine ⟨Runs.always_mono (fun _ => no_stuck_keys_of_sound) sound, ?_⟩
  intro h e next drained reached stranded taken drain unstuck
  obtain ⟨full, pending, handler, sent⟩ := stranding_pending stranded taken
  have agrees : Agrees next.handler next.sent := by
    rw [handler, sent]
    exact (Runs.always_last sound reached).agrees
  obtain ⟨controller, empty, held⟩ := drain_pending agrees drain
  obtain ⟨key, member⟩ := List.exists_mem_of_ne_nil _ pending
  have released := unstuck (Or.inr (controller ▸ full)) empty key
  rw [(held key).mp member] at released
  cases released

def pressed : List Event :=
  [.call .keyboard .gaHello, .call .keyboard (.temporaryEntry 0 5 5),
    .input .keyboard (.key 30 true), .execute]

theorem released_on_exit :
    Runs.Always hostStep NoStuckKeys (start .keyboard .bare)
      (pressed ++ [.call .keyboard .temporaryExit, .execute]) :=
  (no_stuck_keys .keyboard .bare _ (by decide +kernel)).1

/-- A forced entry from the temporary one leaves key 30 down in the guest. -/
theorem stuck_on_upgrade :
    ¬ Runs.Always hostStep NoStuckKeys (start .keyboard .bare)
      (pressed ++ [.call .keyboard .ioForceAttach, .execute]) := by
  intro always
  have unstuck := Runs.always_last always rfl
  have up := unstuck (Or.inr rfl) rfl (.qcode "a")
  revert up
  decide +kernel

end HeldKeys
