import Mathlib.Data.List.AList
import WindowsGaming.Library.Journals
import WindowsGaming.Library.Runs

/- The guest agent's hotkeys. Each has a global atom for its id, a queue to its receiver and a
   registration with the window; the listener of the window gives them back. -/
namespace HotKeyManager

/-- A receiver is known by the number of its registration. -/
structure Manager where
  queues : AList fun _ : UInt16 => Nat
  /-- The ids that `GlobalAddAtomW` has handed out and that were not deleted since. -/
  atoms : List UInt16
  callbacks : List UInt16
  registered : List UInt16
  registrations : List UInt16
  dropped : List Nat
  received : List Nat
  panicked : Bool

def new : Manager := ⟨∅, [], [], [], [], [], [], false⟩

inductive Event where
  | registerHotkey (id : UInt16)
  | callback (registers : Bool)
  | drop (receiver : Nat)
  | wmHotkey (id : UInt16)

/-- `UnregisterHotKey`, and `GlobalDeleteAtom` if it succeeds. -/
def Manager.unregister (id : UInt16) (m : Manager) : Manager :=
  if id ∈ m.registered then
    { m with registered := m.registered.filter fun i => i ≠ id, atoms := m.atoms.filter fun i => i ≠ id }
  else m

def Manager.wmHotkey (id : UInt16) (m : Manager) : Manager :=
  match m.queues.lookup id with
  | some receiver =>
    if receiver ∈ m.dropped then m.unregister id else { m with received := m.received ++ [receiver] }
  | none => m.unregister id

def Manager.handle (m : Manager) : Event → Option Manager
  | .registerHotkey id =>
    if id ∈ m.atoms then none
    else some
      { m with
        queues := m.queues.insert id m.registrations.length
        atoms := id :: m.atoms
        callbacks := if id ∈ m.queues then m.callbacks else m.callbacks ++ [id]
        registrations := m.registrations ++ [id]
        panicked := decide (id ∈ m.queues) }
  | .callback registers =>
    match m.callbacks with
    | [] => none
    | id :: callbacks =>
      some { m with callbacks, registered := if registers then id :: m.registered else m.registered }
  | .drop receiver =>
    if receiver < m.registrations.length ∧ receiver ∉ m.dropped then
      some { m with dropped := m.dropped ++ [receiver] }
    else none
  | .wmHotkey id => some (m.wmHotkey id)

/-- A failed assertion ends the task that registers hotkeys; what is left running is not followed. -/
def managerStep (m : Manager) (e : Event) : Option Manager := if m.panicked then none else m.handle e

def Latest (m : Manager) (id : UInt16) (receiver : Nat) : Prop :=
  m.registrations[receiver]? = some id ∧
    ∀ later, receiver < later → m.registrations[later]? ≠ some id

/-- There is a queue for each live atom and no other, no assertion has failed, and a press is
    delivered to whoever registered the id last. -/
structure Tracks (m : Manager) : Prop where
  keys : ∀ id, id ∈ m.queues ↔ id ∈ m.atoms
  sound : m.panicked = false
  delivers : ∀ id receiver, Latest m id receiver → receiver ∉ m.dropped →
    (m.wmHotkey id).received = m.received ++ [receiver]

/-- No press comes for a registered hotkey whose receiver was dropped. -/
def attended (m : Manager) : Event → Prop
  | .wmHotkey id => id ∈ m.registered → ∀ receiver ∈ m.queues.lookup id, receiver ∉ m.dropped
  | _ => True

structure Kept (m : Manager) : Prop where
  keys : ∀ id, id ∈ m.queues ↔ id ∈ m.atoms
  sound : m.panicked = false
  owners : ∀ id receiver, m.queues.lookup id = some receiver ↔ m.registrations[receiver]? = some id
  callbacks : ∀ id ∈ m.callbacks, id ∈ m.queues
  registered : ∀ id ∈ m.registered, id ∈ m.queues

section Steps
variable {m n : Manager} {e : Event} {id : UInt16}

theorem handled (taken : managerStep m e = some n) : m.handle e = some n := by
  unfold managerStep at taken
  split at taken
  · cases taken
  · exact taken

theorem lookup_of_mem (member : id ∈ m.queues) : ∃ receiver, m.queues.lookup id = some receiver :=
  Option.isSome_iff_exists.mp (AList.lookup_isSome.mpr member)

theorem tracks_of_kept (kept : Kept m) : Tracks m := by
  refine ⟨kept.keys, kept.sound, ?_⟩
  rintro id receiver ⟨obtained, _⟩ alive
  have found := (kept.owners id receiver).mpr obtained
  simp [Manager.wmHotkey, found, alive]

theorem kept_register (kept : Kept m)
    (taken : m.handle (.registerHotkey id) = some n) : Kept n := by
  simp only [Manager.handle] at taken
  split at taken
  · cases taken
  · rename_i dead
    have fresh : id ∉ m.queues := fun known => dead ((kept.keys id).mp known)
    rw [if_neg fresh] at taken
    cases taken
    refine ⟨?_, by simp [fresh], ?_, ?_, ?_⟩
    · intro other
      rw [AList.mem_insert, List.mem_cons, kept.keys]
    · intro other receiver
      by_cases same : other = id
      · subst same
        have unknown : ∀ r : Nat, m.registrations[r]? ≠ some other := by
          intro r obtained
          have found := (kept.owners other r).mpr obtained
          exact fresh (AList.lookup_isSome.mp (by simp [found]))
        rw [AList.lookup_insert]
        constructor
        · intro now
          cases now
          exact List.getElem?_concat_length
        · intro obtained
          rcases Journals.getElem?_concat_cases obtained with old | ⟨rfl, _⟩
          · exact absurd old (unknown receiver)
          · rfl
      · rw [AList.lookup_insert_ne same, kept.owners]
        constructor
        · exact Journals.getElem?_append_of_some _
        · intro obtained
          rcases Journals.getElem?_concat_cases obtained with old | ⟨_, equal⟩
          · exact old
          · exact absurd equal same
    · intro other member
      rw [AList.mem_insert]
      rcases List.mem_append.mp member with old | new
      · exact Or.inr (kept.callbacks other old)
      · exact Or.inl (List.mem_singleton.mp new)
    · intro other member
      exact (AList.mem_insert _).mpr (Or.inr (kept.registered other member))

theorem kept_callback {registers : Bool} (kept : Kept m)
    (taken : m.handle (.callback registers) = some n) : Kept n := by
  simp only [Manager.handle] at taken
  split at taken
  · cases taken
  · rename_i id callbacks waiting
    cases taken
    have known := kept.callbacks
    rw [waiting] at known
    refine ⟨kept.keys, kept.sound, kept.owners, ?_, ?_⟩
    · exact fun other member => known other (List.mem_cons_of_mem _ member)
    · intro other member
      simp only at member
      split at member
      · rcases List.mem_cons.mp member with rfl | old
        · exact known other List.mem_cons_self
        · exact kept.registered other old
      · exact kept.registered other member

theorem unregister_other (unknown : id ∉ m.registered) : m.unregister id = m := by
  simp [Manager.unregister, unknown]

theorem wmHotkey_attended (kept : Kept m) (ok : attended m (.wmHotkey id)) :
    ∃ received, m.wmHotkey id = { m with received } := by
  unfold Manager.wmHotkey
  by_cases known : id ∈ m.registered
  · obtain ⟨receiver, found⟩ := lookup_of_mem (kept.registered id known)
    refine ⟨m.received ++ [receiver], ?_⟩
    simp only [found, ok known receiver found, if_false]
  · rw [unregister_other known]
    cases m.queues.lookup id with
    | none => exact ⟨m.received, rfl⟩
    | some receiver =>
      simp only
      split
      · exact ⟨m.received, rfl⟩
      · exact ⟨_, rfl⟩

theorem kept_step (kept : Kept m) (ok : attended m e) (taken : managerStep m e = some n) :
    Kept n := by
  have taken := handled taken
  cases e with
  | registerHotkey id => exact kept_register kept taken
  | callback registers => exact kept_callback kept taken
  | drop receiver =>
    simp only [Manager.handle] at taken
    split at taken
    · cases taken
      exact ⟨kept.keys, kept.sound, kept.owners, kept.callbacks, kept.registered⟩
    · cases taken
  | wmHotkey id =>
    cases taken
    obtain ⟨received, same⟩ := wmHotkey_attended kept ok
    rw [same]
    exact ⟨kept.keys, kept.sound, kept.owners, kept.callbacks, kept.registered⟩

theorem attended_of_tracks (kept : Kept m) (taken : managerStep m e = some n) (after : Tracks n) :
    attended m e := by
  cases e with
  | wmHotkey id =>
    intro known receiver found dropped
    cases handled taken
    have queued : id ∈ m.queues := kept.registered id known
    have released : m.wmHotkey id = m.unregister id := by
      simp only [Manager.wmHotkey, Option.mem_def.mp found, dropped, if_true]
    have live := (after.keys id).mp
    rw [released] at live
    simp [Manager.unregister, known, queued] at live
  | _ => trivial

end Steps

/-- The queues track the live registrations along a run exactly when no press comes for a hotkey
    whose receiver is gone. -/
theorem queues_tracked_iff (es : List Event) :
    Runs.Always managerStep Tracks new es ↔ Runs.Meets managerStep attended new es := by
  have initial : Kept new := by
    constructor <;> simp [new]
  exact Runs.always_iff_meets Kept (fun _ _ _ => kept_step) (fun _ => tracks_of_kept)
    (fun _ _ _ => attended_of_tracks) initial es

/-- An id that is handed out again after such a press fails the assertion. -/
theorem reused_id_panics :
    ¬ Runs.Always managerStep Tracks new
      [.registerHotkey 7, .callback true, .drop 0, .wmHotkey 7, .registerHotkey 7] := by
  intro always
  have tracks := Runs.always_last always rfl
  exact absurd tracks.sound (by decide +kernel)

end HotKeyManager
