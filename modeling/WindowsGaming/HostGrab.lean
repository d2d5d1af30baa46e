import WindowsGaming.Library.Journals
import WindowsGaming.Library.Runs
import WindowsGaming.Ownership

/- When the host's input devices are grabbed, read off the calls to `Input::suspend` and
   `Input::resume`. -/
namespace HostGrab
open Config Protocol Controller Ownership Journals

structure Grip where
  resumed : Bool
  held : List String
  deriving DecidableEq, Repr

def Grip.free : Grip := ⟨false, []⟩

def Grip.next (g : Grip) : Effect → Grip
  | .resumeInput opened => ⟨true, g.held ++ opened⟩
  | .suspendInput _ => .free
  | _ => g

def grip (out : List Effect) : Grip := out.foldl Grip.next .free

def needsFree : Effect → Bool
  | .resumeInput _ => true
  | .monitor (.deviceAdd ..) => true
  | _ => false

def isLight : IoState → Bool
  | .lightEntry | .temporaryLightEntry _ | .awaitingUpgrade => true
  | .detached | .fullEntry => false

structure Confined (c : Controller) : Prop where
  handles : (grip c.out).held = c.input.deviceHandles
  light : (grip c.out).resumed = true ∨ (grip c.out).held ≠ [] → isLight c.ioState = true
  /-- Devices are opened only while none is held. -/
  resumes : ∀ before opened after, c.out = before ++ .resumeInput opened :: after →
    grip before = .free
  opened_once : (grip c.out).held ≠ [] → ∃ opened,
    .resumeInput opened ∈ c.out ∧ (grip c.out).held = opened
  adds : ∀ before driver id bus port hostbus hostaddr after,
    c.out = before ++ .monitor (.deviceAdd driver id bus port hostbus hostaddr) :: after →
      grip before = .free

def Permitted (g : Grip) (e : Effect) : Prop := needsFree e = true → g = .free

structure Guarded (h : Holder) : Prop where
  lawful : Lawful Grip.next Permitted .free h.log
  handles : (grip h.log).held = h.input.deviceHandles
  light : isLight h.state = false → grip h.log = .free
  opened_once : (grip h.log).held ≠ [] → ∃ opened,
    .resumeInput opened ∈ h.log ∧ (grip h.log).held = opened

section Moves
variable {h : Holder} {devs : List UsbDevice}

theorem grip_append (log more : List Effect) :
    grip (log ++ more) = more.foldl Grip.next (grip log) := List.foldl_append

theorem grip_still {es : List Effect}
    (still : ∀ e ∈ es, ∃ cmd, e = .monitor cmd) (g : Grip) : es.foldl Grip.next g = g := by
  apply foldl_still
  intro e he
  obtain ⟨cmd, rfl⟩ := still e he
  rfl

theorem adds_monitor (env : Env) : ∀ e ∈ addEffects env devs, ∃ cmd, e = .monitor cmd := by
  intro e he
  obtain ⟨cmd, _, rfl⟩ := List.mem_map.mp he
  exact ⟨cmd, rfl⟩

theorem dels_monitor : ∀ e ∈ delEffects devs, ∃ cmd, e = .monitor cmd := by
  intro e he
  obtain ⟨cmd, _, rfl⟩ := List.mem_map.mp he
  exact ⟨cmd, rfl⟩

theorem dels_permitted (g : Grip) : ∀ e ∈ delEffects devs, Permitted g e := by
  intro e he
  simp only [delEffects, deviceDels, List.map_map, List.mem_map] at he
  obtain ⟨i, _, rfl⟩ := he
  intro needs
  cases needs

theorem guarded_command (guarded : Guarded h) {es : List Effect}
    (monitor : ∀ e ∈ es, ∃ cmd, e = .monitor cmd) (permitted : ∀ e ∈ es, Permitted (grip h.log) e)
    (state : IoState) (light : isLight state = false → grip h.log = .free) :
    Guarded ⟨state, h.input, h.log ++ es⟩ := by
  have same : grip (h.log ++ es) = grip h.log := by
    rw [grip_append, grip_still monitor]
  constructor
  · rw [lawful_append]
    refine ⟨guarded.lawful, lawful_still ?_ permitted⟩
    intro e he
    obtain ⟨cmd, rfl⟩ := monitor e he
    rfl
  · simp only [same]
    exact guarded.handles
  · intro notLight
    simp only [same]
    exact light notLight
  · simp only [same]
    intro held
    obtain ⟨opened, member, eq⟩ := guarded.opened_once held
    exact ⟨opened, List.mem_append_left es member, eq⟩

theorem guarded_release (guarded : Guarded h) (state : IoState) :
    Guarded ⟨state, h.release.input, h.release.log⟩ ∧ grip h.release.log = .free := by
  have free : grip h.release.log = .free := by
    simp [Holder.release, Holder.record, grip_append, Grip.next]
  refine ⟨⟨?_, ?_, fun _ => free, ?_⟩, free⟩
  · simp only [Holder.release, Holder.record, lawful_append]
    exact ⟨guarded.lawful, by simp [Permitted, needsFree], trivial⟩
  · simp only [free]
    rfl
  · intro held
    rw [free] at held
    exact absurd rfl held

theorem guarded_detach (guarded : Guarded h) : Guarded (h.detach devs) := by
  unfold Holder.detach
  split
  · exact guarded
  · rename_i full
    have free := guarded.light (by simp [full, isLight])
    exact guarded_command guarded dels_monitor (dels_permitted _) _ fun _ => free
  · obtain ⟨released, free⟩ := guarded_release guarded .detached
    apply guarded_command released
    · simp
    · simp [Permitted, needsFree]
    · exact fun _ => free

theorem guarded_adds (env : Env) (devs : List UsbDevice) (guarded : Guarded h) (free : grip h.log = .free) :
    Guarded ⟨.fullEntry, h.input, h.log ++ addEffects env devs⟩ := by
  apply guarded_command guarded (adds_monitor env)
  · exact fun _ _ _ => free
  · exact fun _ => free

theorem guarded_force (env : Env) (guarded : Guarded h) : Guarded (h.force env devs) := by
  obtain ⟨released, free⟩ := guarded_release guarded .fullEntry
  unfold Holder.force
  split
  · exact guarded
  · rename_i detached
    have free := guarded.light (by simp [detached, isLight])
    have added := guarded_adds env devs guarded free
    exact added
  · exact guarded_adds env devs released free
  · have keys : Guarded ⟨.fullEntry, h.release.input, h.release.log ++ [.monitor .releaseAllKeys]⟩ :=
      guarded_command released (by simp) (by simp [Permitted, needsFree]) _ fun _ => free
    have still : grip (h.release.log ++ [.monitor .releaseAllKeys]) = .free := by
      rw [grip_append, free]
      rfl
    have added := guarded_adds env devs keys still
    rw [List.append_assoc] at added
    exact added

theorem guarded_state (guarded : Guarded h) {state : IoState} (light : isLight state = true) :
    Guarded { h with state } := by
  refine ⟨guarded.lawful, guarded.handles, ?_, guarded.opened_once⟩
  intro notLight
  simp [light] at notLight

theorem guarded_light (env : Env) (guarded : Guarded h) : Guarded (h.light env) := by
  unfold Holder.light
  split
  · rename_i detached
    have free := guarded.light (by simp [detached, isLight])
    have handles := guarded.handles
    rw [free] at handles
    have now : grip (h.log ++ [.resumeInput (h.input.opened env)]) =
        ⟨true, h.input.opened env⟩ := by
      rw [grip_append, free]
      rfl
    constructor
    · simp only [Holder.record, lawful_append]
      exact ⟨guarded.lawful, fun _ => free, trivial⟩
    · simp only [Holder.record, now, Input.resume, ← handles]
      rfl
    · intro notLight
      cases notLight
    · intro _
      exact ⟨h.input.opened env, by simp [Holder.record], by simp [Holder.record, now]⟩
  · exact guarded_state guarded rfl
  · exact guarded

end Moves

theorem guarded_step (env : Env) (op : Op) {c : Controller} (guarded : Guarded (view c)) :
    Guarded (view (step env op c)) := by
  have moved := step_move env op c
  generalize view (step env op c) = next at moved ⊢
  cases moved with
  | stay => exact guarded
  | detach => exact guarded_detach guarded
  | force asked => exact guarded_force env guarded
  | light => exact guarded_light env guarded
  | await asked down => exact guarded_state (guarded_light env guarded) rfl
  | grant sender x y asked idle => exact guarded_state (guarded_light env guarded) rfl

theorem unowned_still (g : Grip) {e : Effect} (other : owns e = false) :
    g.next e = g ∧ Permitted g e := by
  cases e with
  | monitor cmd => cases cmd <;> simp_all [owns, Grip.next, Permitted, needsFree]
  | resumeInput opened => cases other
  | suspendInput closed => cases other
  | _ => simp [Grip.next, Permitted, needsFree]

theorem grip_view (c : Controller) : grip (view c).log = grip c.out :=
  foldl_filter (fun g _ other => (unowned_still g other).1) .free c.out

theorem confined_of_guarded {c : Controller} (guarded : Guarded (view c)) : Confined c := by
  have lawful := (lawful_filter (fun g e => unowned_still g (e := e)) _ c.out).mp guarded.lawful
  rw [lawful_iff_cuts] at lawful
  have handles := guarded.handles
  have light := guarded.light
  have once := guarded.opened_once
  rw [grip_view] at handles light once
  constructor
  · exact handles
  · intro grabbed
    by_contra notLight
    have free := light (Bool.eq_false_of_not_eq_true notLight)
    simp [free, Grip.free] at grabbed
  · intro before opened after cut
    exact lawful before _ after cut rfl
  · intro held
    obtain ⟨opened, member, eq⟩ := once held
    exact ⟨opened, (List.mem_filter.mp member).1, eq⟩
  · intro before driver id bus port hostbus hostaddr after cut
    exact lawful before _ after cut rfl

def operate (c : Controller) (l : Env × Op) : Option Controller := some (step l.1 l.2 c)

/-- Along every run the grab is confined to the light entries. -/
theorem host_grab_confined (machine : MachineConfig) (hooks : HooksConfig) (ls : List (Env × Op)) :
    Runs.Always operate Confined (new machine hooks (Input.new machine)) ls := by
  have initial : Guarded (view (new machine hooks (Input.new machine))) :=
    ⟨trivial, rfl, fun _ => rfl, fun held => absurd rfl held⟩
  have guarded : Runs.Always operate (fun c => Guarded (view c))
      (new machine hooks (Input.new machine)) ls := by
    refine Runs.always_of_preserved (fun c => Guarded (view c)) ?_ initial ls
    rintro c ⟨env, op⟩ d before taken
    cases taken
    exact guarded_step env op before
  exact Runs.always_mono (fun _ => confined_of_guarded) guarded

end HostGrab
